import CurlScribe.Proofs.Request.Authority

/-!
# The scheme of a URL

A URL has a scheme if something stands before its first `://` and the authority does not end there.
A URL that begins with literal text and shows no `://` is given the default scheme. The marks are
looked for anywhere in the URL, and in its literal text alone, so they show as well if they stand
behind the authority or if references stand between their characters. A URL of this kind is
requested without a scheme (`hasScheme_iff`).
-/

namespace CurlScribe
namespace Authority

/-! ## What stands in front -/

/-- What stands before the first `://` of a URL. -/
def front? : List Atom → Option (List Atom)
  | [] => none
  | a :: as => if marks.isPrefixOf (a :: as) then some [] else (front? as).map (a :: ·)

/-- Does something stand before the first `://`, and nothing that ends an authority? -/
def HasScheme (as : List Atom) : Prop :=
  ∃ scheme, front? as = some scheme ∧ scheme ≠ [] ∧ ∀ a ∈ scheme, a.satisfies isEnd = false

theorem hasScheme_of_front? {as scheme : List Atom} (h : front? as = some scheme) :
    HasScheme as ↔ scheme ≠ [] ∧ ∀ a ∈ scheme, a.satisfies isEnd = false := by
  unfold HasScheme
  rw [h]
  constructor
  · rintro ⟨_, ⟨⟩, hscheme⟩
    exact hscheme
  · exact fun hscheme => ⟨scheme, rfl, hscheme⟩

instance (as : List Atom) : Decidable (HasScheme as) :=
  match h : front? as with
  | none => isFalse fun ⟨_, hscheme, _⟩ => absurd (h.symm.trans hscheme) nofun
  | some _ => decidable_of_iff' _ (hasScheme_of_front? h)

/-- The marks behind a row without a colon are the first ones. -/
theorem front?_append {scheme : List Atom} (h : .char ':' ∉ scheme) (after : List Atom) :
    front? (scheme ++ marks ++ after) = some scheme := by
  induction scheme with
  | nil => rfl
  | cons a scheme ih =>
    rw [List.mem_cons, not_or] at h
    obtain ⟨ha, hscheme⟩ := h
    -- marks that began here would begin with a colon of the row
    have hmarks : marks.isPrefixOf (a :: (scheme ++ marks ++ after)) = false := by
      rw [← Bool.not_eq_true, List.isPrefixOf_iff_prefix]
      intro hprefix
      exact ha (List.cons_prefix_cons.1 hprefix).1
    show (if marks.isPrefixOf (a :: (scheme ++ marks ++ after)) then some []
      else (front? (scheme ++ marks ++ after)).map (a :: ·)) = _
    rw [hmarks, ih hscheme]
    rfl

theorem hasScheme_congr {as bs : List Atom} (h : front? as = front? bs) :
    HasScheme as ↔ HasScheme bs := by
  unfold HasScheme
  rw [h]

/-! ## Marks that show -/

/-- Atoms without a literal character, as they may stand between two characters that show side by
side. -/
def IsGap (as : List Atom) : Prop := ∀ c, .char c ∉ as

/-- The marks show in a URL if nothing but references stands between their three characters. -/
def ShowsMarks (as : List Atom) : Prop :=
  ∃ front gap gap' back, IsGap gap ∧ IsGap gap' ∧
    as = front ++ .char ':' :: (gap ++ .char '/' :: (gap' ++ .char '/' :: back))

theorem isGap_iff {as : List Atom} : IsGap as ↔ as.flatMap (Atom.shape []) = [] := by
  rw [List.flatMap_eq_nil_iff]
  constructor
  · intro h a ha
    cases a with
    | char c => exact absurd ha (h c)
    | reference r => rfl
  · intro h c hc
    exact List.cons_ne_nil c [] (h _ hc)

/-- A character in the literal text of a URL is one of its atoms. -/
theorem exists_char_of_shape {as : List Atom} (before : Text) {after : Text} {c : Char}
    (h : as.flatMap (Atom.shape []) = before ++ c :: after) :
    ∃ front back, as = front ++ .char c :: back ∧ front.flatMap (Atom.shape []) = before ∧
      back.flatMap (Atom.shape []) = after := by
  induction as generalizing before with
  | nil => exact absurd (h.symm.trans List.flatMap_nil) (by simp)
  | cons a as ih =>
    rw [List.flatMap_cons] at h
    cases a with
    | reference r =>
      -- a reference leaves nothing in the text, so the character stands further on
      obtain ⟨front, back, rfl, hfront, hback⟩ := ih before h
      exact ⟨.reference r :: front, back, rfl, hfront, hback⟩
    | char d =>
      cases before with
      | nil =>
        obtain ⟨rfl, hafter⟩ := List.cons.inj h
        exact ⟨[], as, rfl, rfl, hafter⟩
      | cons e before =>
        obtain ⟨rfl, hmore⟩ := List.cons.inj h
        obtain ⟨front, back, rfl, hfront, hback⟩ := ih before hmore
        refine ⟨.char d :: front, back, rfl, ?_, hback⟩
        rw [List.flatMap_cons, hfront]
        rfl

/-- The marks show just if they stand in the literal text that is left without the references. -/
theorem infix_shape_iff {w : Word} : "://".toList <:+: w.shape [] ↔ ShowsMarks w.atoms := by
  rw [Word.shape_eq]
  constructor
  · rintro ⟨before, after, h⟩
    -- each of the three characters is found in what the one before it has left
    have hcolon : w.atoms.flatMap (Atom.shape []) = before ++ ':' :: '/' :: '/' :: after := by
      rw [← h, List.append_assoc]
      rfl
    obtain ⟨front, back, hatoms, -, hback⟩ := exists_char_of_shape before hcolon
    obtain ⟨gap, back, rfl, hgap, hback⟩ := exists_char_of_shape [] hback
    obtain ⟨gap', back, rfl, hgap', -⟩ := exists_char_of_shape [] hback
    exact ⟨front, gap, gap', back, isGap_iff.2 hgap, isGap_iff.2 hgap', hatoms⟩
  · rintro ⟨front, gap, gap', back, hgap, hgap', h⟩
    refine ⟨front.flatMap (Atom.shape []), back.flatMap (Atom.shape []), ?_⟩
    simp [h, isGap_iff.1 hgap, isGap_iff.1 hgap', Atom.shape]

/-! ## What is requested -/

/-- A URL that begins with literal text gets the default scheme just if it shows no marks. -/
theorem withScheme_of_text {given : Word} {c : Char} {more : List Atom}
    (h : given.atoms = .char c :: more) :
    (ShowsMarks given.atoms → withScheme given = given) ∧
      (¬ShowsMarks given.atoms → withScheme given = Word.ofString "http://" ++ given) := by
  rw [← infix_shape_iff, ← Text.hasInfix_eq_true_iff]
  obtain ⟨parts⟩ := given
  unfold withScheme
  match parts with
  | [] => cases h
  | .reference r :: rest => cases h
  | .text t :: rest => exact ⟨fun hmarks => if_pos hmarks, fun hmarks => if_neg hmarks⟩

/-- Credentials are taken out behind the first marks, so what stands before those stays. -/
theorem front?_resolve {given : Word} (hw : (withScheme given).IsNormal) :
    front? (resolve given).1.atoms = front? (withScheme given).atoms := by
  unfold resolve
  cases ht : takeCredentials (withScheme given) with
  | none => rfl
  | some found =>
    obtain ⟨u, hu, -, hstripped⟩ := (takeCredentials_eq_some_iff hw).1 ht
    -- with the credentials and without them, the first colon is the one behind the scheme
    have hgiven : front? u.atoms = some u.scheme := by
      unfold CredentialUrl.atoms
      rw [List.append_assoc]
      exact front?_append u.scheme_avoids _
    have hleft : front? u.stripped = some u.scheme := by
      unfold CredentialUrl.stripped
      rw [List.append_assoc]
      exact front?_append u.scheme_avoids _
    show front? found.2.atoms = _
    rw [hstripped, Word.atoms_ofAtoms, hleft, hu, hgiven]

theorem front?_resolve_of_text {given : Word} (hw : given.IsNormal) {c : Char} {more : List Atom}
    (h : given.atoms = .char c :: more) :
    (ShowsMarks given.atoms → front? (resolve given).1.atoms = front? given.atoms) ∧
      (¬ShowsMarks given.atoms →
        front? (resolve given).1.atoms = some ("http".toList.map .char)) := by
  obtain ⟨hkept, hadded⟩ := withScheme_of_text h
  constructor
  · intro hmarks
    have hwith := hkept hmarks
    rw [front?_resolve (by rw [hwith]; exact hw), hwith]
  · intro hmarks
    have hwith := hadded hmarks
    have hnormal : (withScheme given).IsNormal := by
      rw [hwith]
      exact Word.isNormal_append (Word.isNormal_ofText _) given
    have hatoms : (withScheme given).atoms =
        "http".toList.map .char ++ marks ++ given.atoms := by
      rw [hwith, Word.atoms_append, Word.ofString, Word.atoms_ofText]
      rfl
    rw [front?_resolve hnormal, hatoms]
    exact front?_append (by decide) _

/-- A request for a URL that begins with literal text has a scheme just if no marks show in the URL,
or those that stand in it make a scheme. In the first case the scheme is the default one; in every
other case what stands before the first marks is what the URL has there, also if these stand behind
the authority or if there are none. -/
theorem hasScheme_iff {settings : List Setting} {r : Request} {given : Word} {c : Char}
    {more : List Atom} (hw : ∀ s ∈ settings, s.word.IsNormal)
    (hflags : ∀ s ∈ settings, s.flag ≠ .get ∧ s.flag ≠ .uploadFile)
    (hgiven : Draft.lastWord? .url settings = some given) (htext : given.atoms = .char c :: more)
    (h : (Request.ofSettings settings).result = .ok r) :
    (HasScheme r.url.atoms ↔ ¬ShowsMarks given.atoms ∨ HasScheme given.atoms) ∧
      (¬ShowsMarks given.atoms → front? r.url.atoms = some ("http".toList.map .char)) ∧
      (ShowsMarks given.atoms → front? r.url.atoms = front? given.atoms) := by
  have hupload := Draft.lastWord?_eq_none fun s hs => (hflags s hs).2
  have hquery := Draft.isOn_eq_false fun s hs => (hflags s hs).1
  obtain ⟨url, hurl, hrequested, -⟩ := url_credentials_of_ofSettings hupload hquery h
  obtain rfl : given = url := Option.some.inj (hgiven.symm.trans hurl)
  obtain ⟨hkept, hadded⟩ := front?_resolve_of_text (Draft.isNormal_of_lastWord? hw hgiven) htext
  rw [← hrequested] at hkept hadded
  refine ⟨?_, hadded, hkept⟩
  by_cases hmarks : ShowsMarks given.atoms
  · rw [hasScheme_congr (hkept hmarks)]
    exact ⟨.inr, fun hor => hor.resolve_left (not_not_intro hmarks)⟩
  · have hscheme : HasScheme r.url.atoms :=
      ⟨_, hadded hmarks, by decide, by decide⟩
    exact ⟨fun _ => .inl hmarks, fun _ => hscheme⟩

/-- A host with a user name in front and a port from a variable behind it, and a query that names a
path: no marks show, and the URL gets the default scheme. -/
theorem hasScheme_iff_port :
    let given := Word.ofString "me@example.com:" ++ Word.ofReference ⟨"PORT".toList, false⟩ ++
      Word.ofString "/login?next=//app"
    ∃ r, (Request.ofSettings [Setting.positional given]).result = .ok r ∧
      HasScheme r.url.atoms ∧
      r.url = Word.ofString "http://example.com:" ++ Word.ofReference ⟨"PORT".toList, false⟩ ++
        Word.ofString "/login?next=//app" := by
  intro given
  let r : Request := {
    method := none
    url := Word.ofString "http://example.com:" ++ Word.ofReference ⟨"PORT".toList, false⟩ ++
      Word.ofString "/login?next=//app"
    headers := []
    credentials := some ⟨Word.ofString "me", Word.empty⟩
    body := .empty
    usedVariables := ["PORT".toList] }
  have hr : (Request.ofSettings [Setting.positional given]).result.toOption = some r := by
    decide +kernel
  have hresult := Except.eq_ok_of_toOption hr
  have hw : ∀ s ∈ [Setting.positional given], s.word.IsNormal := by
    intro s hs
    obtain rfl := List.mem_singleton.1 hs
    exact Word.isNormal_append (Word.isNormal_append (Word.isNormal_ofText _) _) _
  have hflags : ∀ s ∈ [Setting.positional given], s.flag ≠ .get ∧ s.flag ≠ .uploadFile := by
    intro s hs
    obtain rfl := List.mem_singleton.1 hs
    exact ⟨nofun, nofun⟩
  have hmarks : ¬ShowsMarks given.atoms := by
    rw [← infix_shape_iff, ← Text.hasInfix_eq_true_iff]
    decide +kernel
  obtain ⟨hiff, -⟩ := hasScheme_iff hw hflags rfl rfl hresult
  exact ⟨r, hresult, hiff.2 (.inl hmarks), rfl⟩

/-- Two URLs that begin with a host name and are requested as they are. In one the marks stand in
the query; in the other they show on both sides of a reference. -/
theorem no_scheme_redirect :
    let redirect := Word.ofString "example.com/login?next=https://app"
    let port := Word.ofString "example.com:" ++ Word.ofReference ⟨"PORT".toList, false⟩ ++
      Word.ofString "//app"
    ∀ given ∈ [redirect, port], given.atoms.head? = some (.char 'e') ∧
      ∃ r, (Request.ofSettings [Setting.positional given]).result = .ok r ∧ r.url = given ∧
        ¬HasScheme r.url.atoms := by
  intro redirect port
  have hrequest : ∀ given ∈ [redirect, port],
      (Request.ofSettings [Setting.positional given]).result.toOption =
        some { method := none, url := given, headers := [], credentials := none, body := .empty,
               usedVariables := given.variableNames } := by
    decide +kernel
  have hscheme : ∀ given ∈ [redirect, port], ¬HasScheme given.atoms := by decide +kernel
  have hhead : ∀ given ∈ [redirect, port], given.atoms.head? = some (.char 'e') := by
    decide +kernel
  intro given hgiven
  exact ⟨hhead given hgiven, _, Except.eq_ok_of_toOption (hrequest given hgiven), rfl,
    hscheme given hgiven⟩

end Authority
end CurlScribe
