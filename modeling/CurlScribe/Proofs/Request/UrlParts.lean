import CurlScribe.Proofs.Request.Query

/-!
# Paths, queries and fragments

A URL read as a path, a query and a fragment, and what becomes of these when data is put at the end
of the URL. The data reaches the query just if there is no fragment; otherwise it ends up in that.
-/

namespace CurlScribe

/-- A URL in three parts: what comes before the query, the query, and the fragment. -/
structure UrlParts where
  path : Word
  query : Option Word
  fragment : Option Word
deriving DecidableEq

namespace UrlParts

/-! ## Reading -/

/-- What stands before the first literal `c`, and what stands behind it if there is one. -/
def cut (c : Char) (w : Word) : Word × Option Word :=
  match w.splitOnce c with
  | some (before, after) => (before, some after)
  | none => (w, none)

/-- The fragment goes from the first `#` on, and the query from the first `?` before it. -/
def read (url : Word) : UrlParts where
  path := (cut '?' (cut '#' url).1).1
  query := (cut '?' (cut '#' url).1).2
  fragment := (cut '#' url).2

/-- The parts with one more text in the query. -/
def withQuery (u : UrlParts) (q : Word) : UrlParts :=
  { u with query := some (match u.query with
    | none => q
    | some query => query.pushChar '&' ++ q) }

theorem cut_of_not_mem {c : Char} {as : List Atom} (h : .char c ∉ as) :
    cut c (Word.ofAtoms as) = (Word.ofAtoms as, none) := by
  rw [cut, Word.splitOnce_of_not_mem h]

theorem cut_append {c : Char} {as : List Atom} (bs : List Atom) (h : .char c ∉ as) :
    cut c (Word.ofAtoms (as ++ .char c :: bs)) = (Word.ofAtoms as, some (Word.ofAtoms bs)) := by
  rw [cut, Word.splitOnce_append bs h]

theorem cut_of_avoids {c : Char} {w : Word} (hw : w.IsNormal) (h : w.Avoids c) :
    cut c w = (w, none) := by
  rw [← Word.ofAtoms_atoms hw]
  exact cut_of_not_mem h

/-- A word is cut at the first occurrence of a character that it has. -/
theorem exists_cut {c : Char} {w : Word} (hw : w.IsNormal) (h : .char c ∈ w.atoms) :
    ∃ front back, w.atoms = front ++ .char c :: back ∧ .char c ∉ front ∧
      cut c w = (Word.ofAtoms front, some (Word.ofAtoms back)) := by
  obtain ⟨front, back, hatoms, hfront⟩ := List.eq_append_cons_of_mem h
  refine ⟨front, back, hatoms, hfront, ?_⟩
  rw [← Word.ofAtoms_atoms hw, hatoms]
  exact cut_append back hfront

/-- What is added behind a word that is cut goes to the part behind the cut. -/
theorem cut_append_added {c : Char} {front : List Atom} (h : .char c ∉ front) (back : List Atom)
    (d : Char) (q : Word) :
    cut c (Word.ofAtoms ((front ++ .char c :: back) ++ .char d :: q.atoms)) =
      (Word.ofAtoms front, some ((Word.ofAtoms back).pushChar d ++ q)) := by
  have hback : (Word.ofAtoms back).pushChar d ++ q = Word.ofAtoms (back ++ .char d :: q.atoms) := by
    refine Word.eq_ofAtoms ?_ (by simp)
    exact Word.isNormal_append (Word.isNormal_pushText (Word.isNormal_ofAtoms back) _) q
  rw [List.append_assoc, List.cons_append, cut_append _ h, hback]

/-! ## Adding data -/

section AddQuery

variable {url q : Word} (hurl : url.IsNormal) (hq : q ≠ Word.empty)

include hurl hq in
theorem addQuery_eq_ofAtoms :
    Draft.addQuery url q = Word.ofAtoms
      (url.atoms ++ .char (if .char '?' ∈ url.atoms then '&' else '?') :: q.atoms) := by
  rw [Draft.addQuery_eq, if_neg hq]
  refine Word.eq_ofAtoms (Word.isNormal_append (Word.isNormal_pushText hurl _) _) ?_
  simp only [Word.atoms_append, Word.atoms_pushChar, Word.contains_eq_true_iff, List.append_assoc,
    List.singleton_append]

include hurl hq in
/-- Without a fragment, data goes into the query. -/
theorem read_addQuery_of_avoids (hnormal : q.IsNormal) (hfree : q.Avoids '#')
    (h : url.Avoids '#') : read (Draft.addQuery url q) = (read url).withQuery q := by
  have hfront : cut '#' url = (url, none) := cut_of_avoids hurl h
  -- nor is there a fragment behind what is added
  have hadded (c : Char) (hc : c ≠ '#') : cut '#' (Word.ofAtoms (url.atoms ++ .char c :: q.atoms)) =
      (Word.ofAtoms (url.atoms ++ .char c :: q.atoms), none) := by
    refine cut_of_not_mem ?_
    rw [List.mem_append, List.mem_cons]
    rintro (hm | hm | hm)
    · exact h hm
    · exact hc (Atom.char.inj hm).symm
    · exact hfree hm
  rw [addQuery_eq_ofAtoms hurl hq]
  by_cases hmark : Atom.char '?' ∈ url.atoms
  · -- the URL has a query, and the data is joined to it
    obtain ⟨path, query, hatoms, hpath, hold⟩ := exists_cut hurl hmark
    rw [if_pos hmark]
    unfold read withQuery
    rw [hadded '&' (by decide), hfront, hold, hatoms, cut_append_added hpath]
  · have hold : cut '?' url = (url, none) := cut_of_avoids hurl hmark
    have hnew : cut '?' (Word.ofAtoms (url.atoms ++ .char '?' :: q.atoms)) = (url, some q) := by
      rw [cut_append _ hmark, Word.ofAtoms_atoms hurl, Word.ofAtoms_atoms hnormal]
    rw [if_neg hmark]
    unfold read withQuery
    rw [hadded '?' (by decide), hfront, hold, hnew]

include hurl hq in
/-- A fragment takes the data, and the path and the query stay as they are. -/
theorem read_addQuery_of_fragment {fragment : Word} (h : (read url).fragment = some fragment) :
    read (Draft.addQuery url q) = { read url with
      fragment := some (fragment.pushChar (if url.contains '?' then '&' else '?') ++ q) } := by
  by_cases hhash : Atom.char '#' ∈ url.atoms
  · obtain ⟨front, back, hatoms, hfront, hold⟩ := exists_cut hurl hhash
    have hfragment : Word.ofAtoms back = fragment := by
      unfold read at h
      rw [hold] at h
      exact Option.some.inj h
    have hnew (c : Char) : cut '#' (Word.ofAtoms (url.atoms ++ .char c :: q.atoms)) =
        (Word.ofAtoms front, some (fragment.pushChar c ++ q)) := by
      rw [hatoms, cut_append_added hfront, hfragment]
    rw [addQuery_eq_ofAtoms hurl hq]
    unfold read
    rw [hnew, hold]
    simp only [Word.contains_eq_true_iff]
  · unfold read at h
    rw [cut_of_avoids hurl hhash] at h
    cases h

include hurl hq in
/-- Data is put into the query just if there is no fragment. -/
theorem read_addQuery_iff (hnormal : q.IsNormal) (hfree : q.Avoids '#') :
    read (Draft.addQuery url q) = (read url).withQuery q ↔ url.Avoids '#' := by
  constructor
  · intro hread hhash
    obtain ⟨front, back, -, -, hcut⟩ := exists_cut hurl hhash
    have hfragment : (read url).fragment = some (Word.ofAtoms back) := congrArg Prod.snd hcut
    rw [read_addQuery_of_fragment hurl hq hfragment] at hread
    -- a fragment that takes data is longer than it was
    have hsame := (congrArg UrlParts.fragment hread).trans hfragment
    have hlength := congrArg (fun w => w.atoms.length) (Option.some.inj hsame)
    simp only [Word.atoms_append, Word.atoms_pushChar, Word.atoms_ofAtoms, List.length_append,
      List.length_cons, List.length_nil] at hlength
    omega
  · exact read_addQuery_of_avoids hurl hq hnormal hfree

end AddQuery

/-! ## Requests -/

/-- Neither the default scheme nor the cutting out of credentials brings a fragment or takes one
away. -/
theorem avoids_hash_resolve {given : Word} (hw : given.IsNormal) :
    (Authority.resolve given).1.Avoids '#' ↔ given.Avoids '#' := by
  have hadded (added : List Atom) (h : added = [] ∨ added = Authority.defaultScheme) :
      Atom.char '#' ∉ added := by
    rcases h with rfl | rfl
    · exact List.not_mem_nil
    · decide
  unfold Word.Avoids
  obtain ⟨added, hscheme, he | ⟨u, hu, he⟩⟩ := Authority.resolve_cases hw
  · rw [he, Word.atoms_ofAtoms, List.mem_append]
    simp [hadded added (hscheme.imp_right And.left)]
  · have hinfo : Atom.char '#' ∉ u.userinfo := fun hm => nomatch u.userinfo_inside _ hm
    have hurl : Atom.char '#' ∈ given.atoms ↔ Atom.char '#' ∈ u.atoms := by
      rw [← hu, List.mem_append]
      simp [hadded added (hscheme.imp_right And.left)]
    rw [he, hurl, Word.atoms_ofAtoms]
    simp [Authority.CredentialUrl.stripped, Authority.CredentialUrl.atoms, hinfo]

/-- The data of a request that sends it in the query is put behind the URL. -/
theorem url_of_get {settings : List Setting} {r : Request} {q : Word}
    (hupload : ∀ s ∈ settings, s.flag ≠ .uploadFile) (hget : Draft.isOn .get settings = true)
    (hq : DataItem.join (settings.filterMap Setting.dataItem?) = .ok (.text q))
    (hne : q ≠ Word.empty) (h : (Request.ofSettings settings).result = .ok r) :
    ∃ given, Draft.lastWord? .url settings = some given ∧
      r.url = Draft.addQuery (Authority.resolve given).1 q := by
  obtain ⟨given, p, hgiven, hp, rfl⟩ :=
    Draft.request_result_eq_ok.1 (Request.draft_of_ofSettings h)
  refine ⟨given, hgiven, ?_⟩
  rw [Draft.place_eq_placeInQuery _ (Draft.lastWord?_eq_none hupload) hget] at hp
  have hdata : (Draft.ofSettings settings).data ≠ [] := by
    intro hnil
    rw [show settings.filterMap Setting.dataItem? = [] from hnil] at hq
    exact hne (DataContent.text.inj (Except.ok.inj hq)).symm
  cases hforms : (Draft.ofSettings settings).forms with
  | cons form rest =>
    unfold Draft.placeInQuery at hp
    rw [hforms] at hp
    cases hp
  | nil =>
    rw [Draft.placeInQuery_of_join _ hforms hdata,
      show DataItem.join (Draft.ofSettings settings).data = .ok (.text q) from hq] at hp
    exact congrArg Draft.Placement.url (Except.ok.inj hp).symm

/-- Data without `#` is put into the query of the URL, and leaves the path and the fragment as they
are, just if the URL has no fragment. A fragment swallows the data, separated from it as from a
query if there is a `?` anywhere before. -/
theorem query_placed_iff {settings : List Setting} {r : Request} {q : Word}
    (hw : ∀ s ∈ settings, s.word.IsNormal) (hupload : ∀ s ∈ settings, s.flag ≠ .uploadFile)
    (hget : Draft.isOn .get settings = true)
    (hq : DataItem.join (settings.filterMap Setting.dataItem?) = .ok (.text q))
    (hne : q ≠ Word.empty) (hfree : q.Avoids '#')
    (h : (Request.ofSettings settings).result = .ok r) :
    ∃ given, Draft.lastWord? .url settings = some given ∧
      (read r.url = (read (Authority.resolve given).1).withQuery q ↔ given.Avoids '#') ∧
      ∀ fragment, (read (Authority.resolve given).1).fragment = some fragment →
        read r.url = { read (Authority.resolve given).1 with
          fragment := some (fragment.pushChar
            (if (Authority.resolve given).1.contains '?' then '&' else '?') ++ q) } := by
  obtain ⟨given, hgiven, hurl⟩ := url_of_get hupload hget hq hne h
  have hnormal := Draft.isNormal_of_lastWord? hw hgiven
  have hresolved := Authority.isNormal_resolve hnormal
  refine ⟨given, hgiven, ?_, ?_⟩
  · rw [hurl, ← avoids_hash_resolve hnormal]
    exact read_addQuery_iff hresolved hne (DataItem.isNormal_join (Draft.isNormal_data hw) hq) hfree
  · intro fragment hfragment
    rw [hurl]
    exact read_addQuery_of_fragment hresolved hne hfragment

/-- A URL with credentials, a query of its own, and data that begins with a reference. -/
theorem query_placed_reference :
    let q := Word.ofReference ⟨"B".toList, true⟩ ++ Word.ofString "=2"
    let settings : List Setting := [Setting.positional (Word.ofString "http://me@host/p?a=1"),
      ⟨.data .ascii, "-d".toList, some q, false⟩, ⟨.get, "-G".toList, none, false⟩]
    ∃ r, (Request.ofSettings settings).result = .ok r ∧
      read r.url =
        ⟨Word.ofString "http://host/p", some (Word.ofString "a=1&" ++ q), none⟩ := by
  intro q settings
  let r : Request := {
    method := some (Word.ofString "GET")
    url := Word.ofString "http://host/p?a=1&" ++ q
    headers := []
    credentials := some ⟨Word.ofString "me", Word.empty⟩
    body := .empty
    usedVariables := ["B".toList] }
  have hr : (Request.ofSettings settings).result.toOption = some r := by decide +kernel
  have hresult := Except.eq_ok_of_toOption hr
  have hw : ∀ s ∈ settings, s.word.IsNormal := by decide
  have hupload : ∀ s ∈ settings, s.flag ≠ .uploadFile := by decide
  have hjoin : DataItem.join (settings.filterMap Setting.dataItem?) = .ok (.text q) := by rfl
  obtain ⟨given, hgiven, hiff, -⟩ :=
    query_placed_iff hw hupload rfl hjoin (by decide) (by decide) hresult
  obtain rfl : Word.ofString "http://me@host/p?a=1" = given := Option.some.inj hgiven
  refine ⟨r, hresult, (hiff.2 (by decide)).trans ?_⟩
  decide +kernel

/-- The data ends up in the fragment of this URL, which is left without a query. -/
theorem query_lost_fragment :
    let settings : List Setting := [Setting.positional (Word.ofString "http://host/a#top"),
      ⟨.data .ascii, "-d".toList, some (Word.ofString "q=1"), false⟩,
      ⟨.get, "-G".toList, none, false⟩]
    ∃ r, (Request.ofSettings settings).result = .ok r ∧
      read r.url = ⟨Word.ofString "http://host/a", none, some (Word.ofString "top?q=1")⟩ ∧
      read r.url ≠ (read (Word.ofString "http://host/a#top")).withQuery (Word.ofString "q=1") := by
  intro settings
  let r : Request := {
    method := some (Word.ofString "GET")
    url := Word.ofString "http://host/a#top?q=1"
    headers := []
    credentials := none
    body := .empty
    usedVariables := [] }
  have hr : (Request.ofSettings settings).result.toOption = some r := by decide +kernel
  exact ⟨r, Except.eq_ok_of_toOption hr, by decide +kernel, by decide +kernel⟩

end UrlParts
end CurlScribe
