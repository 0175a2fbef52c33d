import CurlScribe.Proofs.Request.Content
import CurlScribe.Setting.Resolve

/-!
# What settings come to

Settings with a URL fail for one of three reasons: a method that is blank, content that contradicts
itself, or a value that stands for nothing. Otherwise they make a request. This module says, in
terms of the options given, which of these is the case, which body the request has and which method
it is sent with.
-/

namespace CurlScribe
open Atom

/-! ## Methods -/

namespace Text

theorem toUpper_toLower (c : Char) : c.toLower.toUpper = c.toUpper :=
  apply_toLower (by decide) c

theorem upper_lower (t : Text) : upper (lower t) = upper t := by
  rw [upper, lower, List.map_map, upper]
  exact List.map_congr_left fun c _ => toUpper_toLower c

end Text

namespace Method

/-- The method that a value asks for: the value without the blanks around it, in upper case if that
is the name of a standard method in any case. -/
inductive IsAsked (value : Word) : Word → Prop
  | standard {core : List Atom} {name : Text} (trimmed : IsCore core value.atoms)
    (member : name ∈ standard) (same : core.map lower = (Text.lower name).map .char) :
    IsAsked value (Word.ofText name)
  | other {core : List Atom} (trimmed : IsCore core value.atoms)
    (differs : ∀ name ∈ standard, core.map lower ≠ (Text.lower name).map .char) :
    IsAsked value (Word.ofAtoms core)

theorem normalize_eq_ite {t : Text} (hstart : StartVisibly (t.map .char))
    (hend : EndVisibly (t.map .char)) :
    normalize t = if isStandard t then Text.upper t else t := by
  have htrim : Text.trim t = t := by
    refine Text.trimWhere_eq_self ?_ ?_
    · intro c hc
      exact hstart (.char c) (by simp [Option.mem_def.1 hc])
    · intro c hc
      exact hend (.char c) (by simp [Option.mem_def.1 hc])
  rw [normalize, htrim]

/-- The standard method that a text names in any case is the text in upper case. -/
theorem upper_eq_of_lower_eq {name t : Text} (hname : name ∈ standard)
    (h : Text.lower name = Text.lower t) : Text.upper t = name := by
  have hupper : ∀ s ∈ standard, Text.upper s = s := by decide
  rw [← Text.upper_lower, ← h, Text.upper_lower, hupper name hname]

theorem map_lower_map_char (t : Text) : (t.map Atom.char).map lower = (Text.lower t).map .char := by
  rw [Text.lower, List.map_map, List.map_map]
  rfl

theorem isAsked_methodOf {value : Word} (hw : value.IsNormal) :
    IsAsked value (Setting.methodOf value) := by
  obtain ⟨core, htrim, hcore⟩ := Word.exists_trim_eq hw
  rw [Setting.methodOf, htrim]
  cases ht : (Word.ofAtoms core).literal? with
  | none =>
    -- a value with a reference is no standard method, as these are texts
    refine .other hcore fun name _ hsame => ?_
    obtain ⟨s, rfl, -⟩ := exists_text_of_map_lower hsame
    have hliteral := (Word.literal?_eq_some_iff (Word.isNormal_ofAtoms (s.map .char))).2
      (Word.atoms_ofAtoms _)
    rw [ht] at hliteral
    cases hliteral
  | some t =>
    obtain rfl : core = t.map .char := by
      rw [← (Word.literal?_eq_some_iff (Word.isNormal_ofAtoms core)).1 ht, Word.atoms_ofAtoms]
    have hnormal := normalize_eq_ite hcore.startVisibly hcore.endVisibly
    show IsAsked value (Word.ofText (normalize t))
    rw [hnormal]
    split
    next hstandard =>
      obtain ⟨name, hname, hsame⟩ := List.any_eq_true.1 hstandard
      have hlower : Text.lower name = Text.lower t := beq_iff_eq.1 hsame
      rw [upper_eq_of_lower_eq hname hlower]
      exact .standard hcore hname (by rw [map_lower_map_char, hlower])
    next hstandard =>
      rw [Word.eq_ofAtoms (Word.isNormal_ofText t) (Word.atoms_ofText t)]
      refine .other hcore fun name hname hsame => hstandard ?_
      rw [map_lower_map_char] at hsame
      have hlower := List.map_injective_iff.2 (fun _ _ h => Atom.char.inj h) hsame
      exact List.any_eq_true.2 ⟨name, hname, beq_iff_eq.2 hlower.symm⟩

end Method

/-! ## Settings -/

namespace Setting

/-- A method option asks for nothing if all of its value is blank. -/
theorem asksForEmptyMethod_iff {s : Setting} (hw : s.word.IsNormal) :
    s.asksForEmptyMethod = true ↔ s.flag = .method ∧ AreBlank s.word.atoms := by
  obtain ⟨core, htrim, hcore⟩ := Word.exists_trim_eq hw
  rw [asksForEmptyMethod, Bool.and_eq_true, beq_iff_eq, htrim, Word.isEmpty_ofAtoms]
  refine and_congr_right fun _ => ?_
  obtain ⟨front, back, hfront, hback, hatoms⟩ := hcore.padded
  constructor
  · rintro rfl
    rw [hatoms, List.append_nil]
    exact List.forall_mem_append.2 ⟨hfront, hback⟩
  · intro hblank
    rw [hatoms, AreBlank, List.forall_mem_append, List.forall_mem_append] at hblank
    cases core with
    | nil => rfl
    | cons a core =>
      have hvisible := hcore.startVisibly a rfl
      rw [hblank.1.2 a List.mem_cons_self] at hvisible
      cases hvisible

end Setting

namespace Draft

/-- The method of a request with the given body. -/
def IsMethod (settings : List Setting) (body : Body) (method : Word) : Prop :=
  match lastWord? .method settings with
  | some value => Method.IsAsked value method
  | none => method = Word.ofString (
    if isOn .head settings then "HEAD"
    else if (lastWord? .uploadFile settings).isSome then "PUT"
    else if isOn .get settings || body = .empty then "GET"
    else "POST")

theorem isMethod_requestAt {settings : List Setting} (hw : ∀ s ∈ settings, s.word.IsNormal)
    (found : Option Credentials) (p : Placement) :
    IsMethod settings p.body ((ofSettings settings).requestAt found p).effectiveMethod := by
  have hasked : ((ofSettings settings).requestAt found p).method =
      (ofSettings settings).askedMethod := rfl
  have hmethod : (ofSettings settings).method =
      (lastWord? .method settings).map Setting.methodOf := rfl
  unfold IsMethod Request.effectiveMethod
  rw [hasked, askedMethod, hmethod]
  cases hlast : lastWord? .method settings with
  | some value => exact Method.isAsked_methodOf (isNormal_of_lastWord? hw hlast)
  | none =>
    have hhead : (ofSettings settings).head = isOn .head settings := rfl
    have hupload : (ofSettings settings).upload = lastWord? .uploadFile settings := rfl
    have hquery : (ofSettings settings).inQuery = isOn .get settings := rfl
    have hbody : (!(requestAt (ofSettings settings) found p).body.isEmpty) =
        !decide (p.body = .empty) := by
      show (!p.body.isEmpty) = _
      cases p.body <;> rfl
    -- no method is asked for by name; the switches decide, in this order
    simp only [Option.map_none, hhead, hupload, hquery, hbody]
    cases isOn .head settings with
    | true => rfl
    | false =>
      cases (lastWord? .uploadFile settings).isSome with
      | true => rfl
      | false =>
        cases isOn .get settings with
        | true => rfl
        | false =>
          cases decide (p.body = .empty) with
          | true => rfl
          | false => rfl

/-- The type to accept does not count as a content type. -/
theorem get?_contentType_headers (d : Draft) :
    Headers.get? d.headers "Content-Type".toList = Headers.get? d.fields "Content-Type".toList := by
  unfold headers
  split
  · have haccept : (Word.ofString "Accept").isTextIgnoringCase "Content-Type".toList = false := by
      decide
    simp only [Headers.get?, List.find?_append, List.find?_cons, haccept, List.find?_nil,
      Option.or_none]
  · rfl

theorem exists_url {settings : List Setting} (h : Setting.urls settings ≠ []) :
    ∃ url, (ofSettings settings).url = some url := by
  have hlast : (ofSettings settings).url = (Setting.urls settings).getLast? := by
    rw [Setting.urls, List.getLast?_map]
    rfl
  rw [hlast, List.getLast?_eq_some_getLast h]
  exact ⟨_, rfl⟩

end Draft

namespace Request

/-- Settings without a blank method come to what their content comes to. -/
theorem ofSettings_result {settings : List Setting} (hw : ∀ s ∈ settings, s.word.IsNormal)
    (hmethods : ∀ s ∈ settings, s.flag = .method → ¬AreBlank s.word.atoms) {given : Word}
    (hgiven : (Draft.ofSettings settings).url = some given) :
    (ofSettings settings).result =
      ((Draft.ofSettings settings).place (Authority.resolve given).1).result.map
        ((Draft.ofSettings settings).requestAt (Authority.resolve given).2) := by
  have hfind : settings.find? Setting.asksForEmptyMethod = none := by
    rw [List.find?_eq_none]
    intro s hs hasks
    obtain ⟨hflag, hblank⟩ := (Setting.asksForEmptyMethod_iff (hw s hs)).1 hasks
    exact hmethods s hs hflag hblank
  have hread := readSettings_result settings
  rw [hfind] at hread
  rw [ofSettings_eq_readSettings, Outcome.andThen, hread, Draft.request_eq hgiven]
  cases hplace : ((Draft.ofSettings settings).place (Authority.resolve given).1).result with
  | ok p => simp [Outcome.andThen, hplace, Outcome.ok, Except.map]
  | error e => simp [Outcome.andThen, hplace, Except.map]

/-- What settings with a URL come to. A method option with a blank value is an error. Otherwise
contradicting demands are one, and values that count and stand for nothing are another; if there are
neither, the settings make a request, whose body is the upload, nothing where data stands in the
URL, and else what data and form options make, and whose method is the last one asked for, or else
the one that the other options imply. -/
theorem ofSettings_ends {settings : List Setting} (hw : ∀ s ∈ settings, s.word.IsNormal)
    (hurl : Setting.urls settings ≠ []) :
    let result := (ofSettings settings).result
    let upload := Draft.lastWord? .uploadFile settings
    let inQuery := Draft.isOn .get settings
    let data := settings.filterMap Setting.dataItem?
    let forms := settings.filterMap Setting.formItem?
    let contentType := Headers.get? (Draft.fieldsOf settings) "Content-Type".toList
    ((∃ s ∈ settings, s.flag = .method ∧ AreBlank s.word.atoms) →
      ∃ flag fault, result = .error (.invalidArgument flag fault)) ∧
    ((∀ s ∈ settings, s.flag = .method → ¬AreBlank s.word.atoms) →
      ((∃ conflict, result = .error (.conflictingBody conflict)) ↔
        Draft.Conflicts upload inQuery data forms) ∧
      ((∃ flag fault, result = .error (.invalidArgument flag fault)) ↔
        Draft.HasBadValue upload inQuery data forms) ∧
      (¬Draft.Conflicts upload inQuery data forms → ¬Draft.HasBadValue upload inQuery data forms →
        ∃ r, result = .ok r ∧ Draft.IsBody upload inQuery data forms contentType r.body ∧
          Draft.IsMethod settings r.body r.effectiveMethod)) := by
  intro result upload inQuery data forms contentType
  constructor
  · rintro ⟨s, hs, hflag, hblank⟩
    have hasks := (Setting.asksForEmptyMethod_iff (hw s hs)).2 ⟨hflag, hblank⟩
    obtain ⟨first, hfirst⟩ := Option.isSome_iff_exists.1 (List.find?_isSome.2 ⟨s, hs, hasks⟩)
    refine ⟨first.name, .emptyMethod, ?_⟩
    have hread := readSettings_result settings
    rw [hfirst] at hread
    show (ofSettings settings).result = _
    rw [ofSettings_eq_readSettings, Outcome.andThen, hread]
  · intro hmethods
    obtain ⟨given, hgiven⟩ := Draft.exists_url hurl
    have hresult : result = _ := ofSettings_result hw hmethods hgiven
    have hends : Draft.Ends upload inQuery data forms contentType _ :=
      Draft.get?_contentType_headers (Draft.ofSettings settings) ▸
        Draft.place_ends (Draft.isNormal_data hw) (Draft.isNormal_forms hw)
          (Authority.resolve given).1
    -- each end of the content excludes the two others
    generalize ((Draft.ofSettings settings).place (Authority.resolve given).1).result = placed
      at hresult hends
    cases hends with
    | conflict conflict contradicts readable =>
      rw [hresult]
      exact ⟨⟨fun _ => contradicts, fun _ => ⟨conflict, rfl⟩⟩,
        ⟨by rintro ⟨_, _, ⟨⟩⟩, fun h => absurd h readable⟩, fun h => absurd contradicts h⟩
    | badValue flag fault consistent unreadable =>
      rw [hresult]
      exact ⟨⟨by rintro ⟨_, ⟨⟩⟩, fun h => absurd h consistent⟩,
        ⟨fun _ => unreadable, fun _ => ⟨flag, fault, rfl⟩⟩, fun _ h => absurd unreadable h⟩
    | body p consistent readable isBody =>
      rw [hresult]
      exact ⟨⟨by rintro ⟨_, ⟨⟩⟩, fun h => absurd h consistent⟩,
        ⟨by rintro ⟨_, _, ⟨⟩⟩, fun h => absurd h readable⟩,
        fun _ _ => ⟨_, rfl, isBody, Draft.isMethod_requestAt hw _ p⟩⟩

/-- Three rows of options. Data in the URL that is taken back, with a method in mixed case and
blanks around it; a file between data and standard input; and a file to encode in front of another
file. -/
theorem ofSettings_ends_mixed :
    let url := Setting.positional (Word.ofString "x")
    let option (flag : Flag) (name value : String) : Setting :=
      ⟨flag, name.toList, some (Word.ofString value), false⟩
    let kept := [option .method "-X" " Patch ", ⟨.get, "-G".toList, none, false⟩,
      option (.data .ascii) "-d" "a=1", ⟨.get, "--no-get".toList, none, true⟩, url]
    let mixed := [url, option (.data .ascii) "-d" "a", option (.data .json) "--json" "@f",
      option (.data .ascii) "-d" "@-"]
    let encoded := [option (.data .urlEncode) "--data-urlencode" "a@f",
      option (.data .ascii) "-d" "@f", url]
    (∃ r, (ofSettings kept).result = .ok r ∧
      r.body = .urlEncoded [(Word.ofString "a", Word.ofString "1")] ∧
      r.effectiveMethod = Word.ofString "PATCH") ∧
    (∃ conflict, (ofSettings mixed).result = .error (.conflictingBody conflict)) ∧
    ∃ flag fault, (ofSettings encoded).result = .error (.invalidArgument flag fault) := by
  intro url option kept mixed encoded
  have hkept : ∀ s ∈ kept, s.word.IsNormal := by decide
  have hmixed : ∀ s ∈ mixed, s.word.IsNormal := by decide
  have hencoded : ∀ s ∈ encoded, s.word.IsNormal := by decide
  refine ⟨?_, ?_, ?_⟩
  · obtain ⟨-, hends⟩ := ofSettings_ends hkept (by decide)
    obtain ⟨-, -, hok⟩ := hends (by decide)
    have hplain : DataItem.firstSpecial? (kept.filterMap Setting.dataItem?) = none := by decide
    have hconsistent : ¬Draft.Conflicts none false (kept.filterMap Setting.dataItem?) [] := by
      simp [Draft.Conflicts, hplain]
    have hreadable : ¬Draft.HasBadValue none false (kept.filterMap Setting.dataItem?) [] := by
      simp [Draft.HasBadValue, hplain]
    obtain ⟨r, hr, hbody, -⟩ := hok hconsistent hreadable
    have hclassify : (Body.classify (kept.filterMap Setting.dataItem?) [] none).result =
        .ok (.urlEncoded [(Word.ofString "a", Word.ofString "1")]) := by decide +kernel
    have hmethod : (ofSettings kept).result.map effectiveMethod = .ok (Word.ofString "PATCH") := by
      decide +kernel
    rw [hr] at hmethod
    exact ⟨r, hr, Except.ok.inj (hbody.symm.trans hclassify), Except.ok.inj hmethod⟩
  · obtain ⟨-, hends⟩ := ofSettings_ends hmixed (by decide)
    refine (hends (by decide)).1.2
      (.inr (.inr ⟨by decide, by decide, ⟨[.char 'f'], by decide⟩, ?_⟩))
    exact .inl (by decide)
  · obtain ⟨-, hends⟩ := ofSettings_ends hencoded (by decide)
    exact (hends (by decide)).2.1.2 (.inl ⟨by decide, by decide, by decide⟩)

end Request
end CurlScribe
