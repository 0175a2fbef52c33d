import CurlScribe.Proofs.Request.Classes
import CurlScribe.Proofs.Request.FormParts
import CurlScribe.Proofs.Request.HeaderReading
import CurlScribe.Proofs.Request.Query

/-!
# Header fields, accounted for

Every header option either gives one field or is remarked upon. This module says which fields
options give, without the program that reads them, and shows that a request has just these fields,
in order. Only two things are done to them: JSON data adds the type to accept, unless a field gives
it, and a multipart body drops the content types of form data that lack a boundary.
-/

namespace CurlScribe
open Atom

namespace Setting

/-- The field that a header option gives. -/
inductive Gives (s : Setting) : Header → Prop
  | header {f : Header} (flag : s.flag = .header) (visible : s.word.atoms.head? ≠ some (.char '@'))
    (tidy : f.IsTidy) (written : f.IsWritten s.word.atoms) : Gives s f
  | userAgent (flag : s.flag = .userAgent) : Gives s ⟨Word.ofString "User-Agent", s.word⟩
  | referer (flag : s.flag = .referer) : Gives s ⟨Word.ofString "Referer", s.word⟩
  | cookie (flag : s.flag = .cookie) (pair : .char '=' ∈ s.word.atoms) :
    Gives s ⟨Word.ofString "Cookie", s.word⟩

/-- Is the setting an option for header fields? -/
def IsForFields (s : Setting) : Prop := s.flag ∈ [.header, .userAgent, .referer, .cookie]

/-- What a setting adds to the fields and to the remarks. -/
inductive Adds (s : Setting) : Headers → List Warning → Prop
  | field {f : Header} (gives : s.Gives f) : Adds s [f] []
  | dropped (message : Text) (forFields : s.IsForFields) (gives : ∀ f, ¬s.Gives f) :
    Adds s [] [.ofFlag s.name message]
  | ignored {long : Text} (flag : s.flag = .ignored long) :
    Adds s [] [.ofFlag s.name "has no effect on the generated request".toList]
  | other (forOthers : ¬s.IsForFields) (counts : ∀ long, s.flag ≠ .ignored long) : Adds s [] []

/-- What settings in a row add, each in its place. -/
inductive AddInOrder : List Setting → Headers → List Warning → Prop
  | nil : AddInOrder [] [] []
  | cons {s : Setting} {rest : List Setting} {fields others : Headers}
    {remarks more : List Warning} (first : s.Adds fields remarks)
    (later : AddInOrder rest others more) :
    AddInOrder (s :: rest) (fields ++ others) (remarks ++ more)

/-! ## Single settings -/

theorem headerField?_eq_some_ok_iff {s : Setting} (hw : s.word.IsNormal) {f : Header} :
    s.headerField? = some (.ok f) ↔ s.Gives f := by
  unfold headerField?
  constructor
  · intro h
    split at h
    next hflag =>
      obtain ⟨hvisible, htidy, hwritten⟩ := (Header.read_eq_ok_iff hw).1 (Option.some.inj h)
      exact .header hflag hvisible htidy hwritten
    next hflag =>
      obtain rfl := Except.ok.inj (Option.some.inj h)
      exact .userAgent hflag
    next hflag =>
      obtain rfl := Except.ok.inj (Option.some.inj h)
      exact .referer hflag
    next hflag =>
      split at h
      next hpair =>
        obtain rfl := Except.ok.inj (Option.some.inj h)
        exact .cookie hflag (Word.contains_eq_true_iff.1 hpair)
      · cases h
    · cases h
  · intro h
    cases h with
    | header flag visible tidy written =>
      rw [flag]
      exact congrArg some ((Header.read_eq_ok_iff hw).2 ⟨visible, tidy, written⟩)
    | userAgent flag => rw [flag]
    | referer flag => rw [flag]
    | cookie flag pair => rw [flag, if_pos (Word.contains_eq_true_iff.2 pair)]

theorem isForFields_iff {s : Setting} : s.IsForFields ↔ s.headerField?.isSome = true := by
  unfold IsForFields headerField?
  split
  next hflag => exact ⟨fun _ => rfl, fun _ => by rw [hflag]; decide⟩
  next hflag => exact ⟨fun _ => rfl, fun _ => by rw [hflag]; decide⟩
  next hflag => exact ⟨fun _ => rfl, fun _ => by rw [hflag]; decide⟩
  next hflag =>
    rw [apply_ite Option.isSome, hflag]
    exact ⟨fun _ => ite_self true, fun _ => by decide⟩
  next hheader huserAgent hreferer hcookie =>
    simp only [List.mem_cons, List.not_mem_nil, or_false, Option.isSome_none, Bool.false_eq_true,
      iff_false, not_or]
    exact ⟨hheader, huserAgent, hreferer, hcookie⟩

/-- The warning of a header option is the remark on why it gives no field. -/
theorem warning?_of_isForFields {s : Setting} (h : s.IsForFields) :
    s.warning? = match s.headerField? with
      | some (.error remark) => some (.ofFlag s.name remark)
      | _ => none := by
  unfold warning?
  split
  next hflag =>
    rw [IsForFields, hflag] at h
    simp at h
  next => rfl

/-- The fields and the warnings of a setting are what it adds. -/
theorem adds {s : Setting} (hw : s.word.IsNormal) :
    s.Adds (s.headerField?.bind Except.toOption).toList s.warning?.toList := by
  by_cases hfields : s.IsForFields
  · rw [warning?_of_isForFields hfields]
    obtain ⟨outcome, hfield⟩ := Option.isSome_iff_exists.1 (isForFields_iff.1 hfields)
    rw [hfield]
    cases outcome with
    | ok f => exact .field ((headerField?_eq_some_ok_iff hw).1 hfield)
    | error remark =>
      refine .dropped remark hfields ?_
      intro f hgives
      rw [(headerField?_eq_some_ok_iff hw).2 hgives] at hfield
      cases hfield
  · have hnone : s.headerField? = none := by
      rw [← Option.not_isSome_iff_eq_none, ← isForFields_iff]
      exact hfields
    unfold warning?
    rw [hnone]
    split
    next hflag => exact .ignored hflag
    next hcounts => exact .other hfields fun long hflag => hcounts long hflag

/-- The fields and the warnings of settings are what they add in order. -/
theorem addInOrder {settings : List Setting} (hw : ∀ s ∈ settings, s.word.IsNormal) :
    AddInOrder settings (Draft.fieldsOf settings) (settings.filterMap warning?) := by
  induction settings with
  | nil => exact .nil
  | cons s rest ih =>
    obtain ⟨hs, hrest⟩ := List.forall_mem_cons.1 hw
    have hfields : Draft.fieldsOf (s :: rest) =
        (s.headerField?.bind Except.toOption).toList ++ Draft.fieldsOf rest := by
      simp only [Draft.fieldsOf, List.filterMap_filterMap]
      rw [List.filterMap_eq_flatMap_toList, List.filterMap_eq_flatMap_toList, List.flatMap_cons]
    have hwarnings : (s :: rest).filterMap warning? =
        s.warning?.toList ++ rest.filterMap warning? := by
      rw [List.filterMap_eq_flatMap_toList, List.filterMap_eq_flatMap_toList, List.flatMap_cons]
    rw [hfields, hwarnings]
    exact .cons (adds hs) (ih hrest)

/-- The parts of a given field are normal words. -/
theorem Gives.isNormal {s : Setting} (hw : s.word.IsNormal) {f : Header} (h : s.Gives f) :
    f.name.IsNormal ∧ f.value.IsNormal := by
  cases h with
  | header _ _ tidy _ => exact ⟨tidy.name_normal, tidy.value_normal⟩
  | userAgent _ => exact ⟨Word.isNormal_ofText _, hw⟩
  | referer _ => exact ⟨Word.isNormal_ofText _, hw⟩
  | cookie _ _ => exact ⟨Word.isNormal_ofText _, hw⟩

end Setting

namespace MediaType

/-- Does the text announce form data without the boundary between its parts? -/
def AnnouncesUnbounded (t : Text) : Prop :=
  ∃ m ∈ ofText? t, Text.lower m.essence = "multipart/form-data".toList ∧
    ∀ name ∈ m.parameters, Text.lower name ≠ "boundary".toList

instance (t : Text) : Decidable (AnnouncesUnbounded t) :=
  inferInstanceAs (Decidable (∃ m ∈ ofText? t, _))

theorem isUnboundedFormData_iff (t : Text) :
    isUnboundedFormData t = true ↔ AnnouncesUnbounded t := by
  have hessence : Text.lower formData = "multipart/form-data".toList := by decide
  have hboundary : Text.lower "boundary".toList = "boundary".toList := by decide
  unfold isUnboundedFormData AnnouncesUnbounded
  cases ofText? t with
  | none => exact ⟨nofun, fun ⟨_, hm, _⟩ => nomatch hm⟩
  | some m =>
    simp only [Text.sameIgnoringCase, hessence, hboundary, Bool.and_eq_true, beq_iff_eq,
      Bool.not_eq_true', List.any_eq_false]
    exact ⟨fun h => ⟨m, rfl, h⟩, fun ⟨_, hm, h⟩ => Option.some.inj hm ▸ h⟩

end MediaType

/-- Is the field a literal content type of form data without a boundary? -/
def Header.IsUnbounded (f : Header) : Prop :=
  Names "content-type" f.name.atoms ∧
    ∃ t ∈ f.value.literal?, MediaType.AnnouncesUnbounded t

instance (f : Header) : Decidable f.IsUnbounded :=
  inferInstanceAs (Decidable (_ ∧ ∃ _ ∈ f.value.literal?, _))

namespace Draft

/-- The type to accept that JSON data implies, unless a given field has that name. -/
def implied (settings : List Setting) (given : Headers) : Headers :=
  if (∃ s ∈ settings, s.flag = .data .json) ∧ ∀ f ∈ given, ¬Names "accept" f.name.atoms then
    [⟨Word.ofString "Accept", Word.ofText MediaType.json⟩]
  else []

/-- The remark on fields that a multipart body drops, if there are any. -/
def boundaryRemarks (fields : Headers) : List Warning :=
  if ∃ f ∈ fields, f.IsUnbounded then
    [.ofFlag "-H".toList
      "Content-Type multipart/form-data has no boundary; the generated client sets it".toList]
  else []

/-! ## The fields of a draft -/

theorem isNormal_of_mem_fieldsOf {settings : List Setting} (hw : ∀ s ∈ settings, s.word.IsNormal)
    {f : Header} (h : f ∈ fieldsOf settings) : f.name.IsNormal ∧ f.value.IsNormal := by
  obtain ⟨outcome, houtcome, hok⟩ := List.mem_filterMap.1 h
  obtain ⟨s, hs, hfield⟩ := List.mem_filterMap.1 houtcome
  obtain rfl := Except.eq_ok_of_toOption hok
  exact ((Setting.headerField?_eq_some_ok_iff (hw s hs)).1 hfield).isNormal (hw s hs)

theorem isUnboundedFormData_iff {f : Header} (hf : f.name.IsNormal) :
    isUnboundedFormData f = true ↔ f.IsUnbounded := by
  have hname : Text.lower "Content-Type".toList = "content-type".toList := by decide
  rw [isUnboundedFormData, Bool.and_eq_true, Word.isTextIgnoringCase_iff hf hname]
  refine and_congr_right fun _ => ?_
  cases f.value.literal? with
  | none => exact ⟨nofun, fun ⟨_, ht, _⟩ => nomatch ht⟩
  | some t =>
    exact (MediaType.isUnboundedFormData_iff t).trans
      ⟨fun h => ⟨t, rfl, h⟩, fun ⟨_, ht, h⟩ => Option.some.inj ht ▸ h⟩

theorem headers_ofSettings {settings : List Setting} (hw : ∀ s ∈ settings, s.word.IsNormal) :
    (ofSettings settings).headers =
      fieldsOf settings ++ implied settings (fieldsOf settings) := by
  -- the two conditions under which the type to accept is implied
  have hjson : ((ofSettings settings).data.any fun item => item.kind == .json) = true ↔
      ∃ s ∈ settings, s.flag = .data .json := by
    rw [List.any_eq_true]
    constructor
    · rintro ⟨item, hitem, hkind⟩
      obtain ⟨s, hs, hgives⟩ := List.mem_filterMap.1 hitem
      unfold Setting.dataItem? at hgives
      split at hgives
      next kind hflag =>
        obtain rfl := Option.some.inj hgives
        obtain rfl : kind = .json := beq_iff_eq.1 hkind
        exact ⟨s, hs, hflag⟩
      · cases hgives
    · rintro ⟨s, hs, hflag⟩
      refine ⟨⟨.json, s.name, s.word⟩, List.mem_filterMap.2 ⟨s, hs, ?_⟩, rfl⟩
      rw [Setting.dataItem?, hflag]
  have hnone : (!Headers.has (fieldsOf settings) "Accept".toList) = true ↔
      ∀ f ∈ fieldsOf settings, ¬Names "accept" f.name.atoms := by
    rw [Bool.not_eq_true', Headers.has, List.any_eq_false]
    refine forall₂_congr fun f hf => not_congr ?_
    exact Word.isTextIgnoringCase_iff (isNormal_of_mem_fieldsOf hw hf).1 (by decide)
  have hfields : (ofSettings settings).fields = fieldsOf settings := rfl
  rw [headers, hfields, implied]
  simp only [Bool.and_eq_true, hjson, hnone]
  split
  · rfl
  · exact (List.append_nil _).symm

theorem isNormal_name_of_mem_headers {settings : List Setting}
    (hw : ∀ s ∈ settings, s.word.IsNormal) {f : Header} (h : f ∈ (ofSettings settings).headers) :
    f.name.IsNormal := by
  rw [headers_ofSettings hw] at h
  rcases List.mem_append.1 h with hgiven | himplied
  · exact (isNormal_of_mem_fieldsOf hw hgiven).1
  · unfold implied at himplied
    split at himplied
    · obtain rfl := List.mem_singleton.1 himplied
      exact Word.isNormal_ofText _
    · cases himplied

/-- What a multipart body does to the fields. -/
theorem dropUnbounded_eq {fields : Headers} (hf : ∀ f ∈ fields, f.name.IsNormal) :
    dropUnbounded fields =
      (fields.filter fun f => ¬f.IsUnbounded, boundaryRemarks fields) := by
  have hany : fields.any isUnboundedFormData = true ↔ ∃ f ∈ fields, f.IsUnbounded := by
    rw [List.any_eq_true]
    exact exists_congr fun f => and_congr_right fun h => isUnboundedFormData_iff (hf f h)
  have hkept : (fields.filter fun f => !isUnboundedFormData f) =
      fields.filter fun f => ¬f.IsUnbounded := by
    refine List.filter_congr fun f h => ?_
    rw [Bool.eq_iff_iff, Bool.not_eq_true', decide_eq_true_iff, ← Bool.not_eq_true,
      isUnboundedFormData_iff (hf f h)]
  unfold dropUnbounded boundaryRemarks
  simp only [hany]
  split
  · rw [hkept]
  next hnone =>
    rw [List.filter_eq_self.2]
    exact fun f h => decide_eq_true fun hunbounded => hnone ⟨f, h, hunbounded⟩

/-- A type to accept is dropped by no body. -/
theorem not_isUnbounded_of_mem_implied {settings : List Setting} {given : Headers} {f : Header}
    (h : f ∈ implied settings given) : ¬f.IsUnbounded := by
  unfold implied at h
  split at h
  · obtain rfl := List.mem_singleton.1 h
    exact fun hunbounded => absurd hunbounded.1 (by decide)
  · cases h

theorem boundaryRemarks_append_implied (settings : List Setting) (given : Headers) :
    boundaryRemarks (given ++ implied settings given) = boundaryRemarks given := by
  have hsame : (∃ f ∈ given ++ implied settings given, f.IsUnbounded) ↔
      ∃ f ∈ given, f.IsUnbounded := by
    constructor
    · rintro ⟨f, hf, hunbounded⟩
      rcases List.mem_append.1 hf with hgiven | himplied
      · exact ⟨f, hgiven, hunbounded⟩
      · exact absurd hunbounded (not_isUnbounded_of_mem_implied himplied)
    · rintro ⟨f, hf, hunbounded⟩
      exact ⟨f, List.mem_append_left _ hf, hunbounded⟩
  simp only [boundaryRemarks, hsame]

/-- What content does to the fields of a draft: nothing, unless it is a body in parts. -/
inductive Leaves (d : Draft) (p : Placement) : List Warning → Prop
  | all (single : ∀ parts, p.body ≠ .multipart parts) (headers : p.headers = d.headers) :
    Leaves d p []
  | bounded {parts : List FormPart} (multipart : p.body = .multipart parts)
    (headers : p.headers = (dropUnbounded d.headers).1) :
    Leaves d p (Body.droppedData d.data ++
      (d.forms.flatMap fun item => item.origin.remarks item.flag) ++ (dropUnbounded d.headers).2)

section Place

variable {d : Draft} {url : Word} {p : Placement}

theorem placeUpload_leaves {path : Word} (h : d.placeUpload url path = .ok p) : d.Leaves p [] := by
  unfold placeUpload at h
  split at h
  · cases h
  · obtain rfl := Except.ok.inj h
    exact .all nofun rfl

theorem placeInQuery_leaves (h : d.placeInQuery url = .ok p) : d.Leaves p [] := by
  unfold placeInQuery at h
  split at h
  · cases h
  · obtain rfl := Except.ok.inj h
    exact .all nofun rfl
  · split at h
    · cases h
    · cases h
    · obtain rfl := Except.ok.inj h
      exact .all nofun rfl

variable (hv : ∀ item ∈ d.data, item.value.IsNormal)
  (hforms : ∀ item ∈ d.forms, item.value.IsNormal)

include hv hforms

theorem placeInBody_leaves (h : (d.placeInBody url).result = .ok p) :
    d.Leaves p (d.placeInBody url).warnings := by
  by_cases hnone : d.forms = []
  · rw [placeInBody_of_forms_nil url hnone hv] at h ⊢
    obtain ⟨body, hbody, rfl⟩ := Except.map_eq_ok.1 h
    refine .all ?_ rfl
    rintro parts rfl
    -- data alone makes no parts
    rcases Body.ofData_cases hv hbody with ⟨-, hempty⟩ | ⟨-, content, -, hcontent⟩
    · cases hempty
    · cases hcontent
  · have hequals : ∀ item ∈ d.forms, Atom.char '=' ∈ item.value.atoms := by
      intro item hitem
      -- a value without a name would be an error
      by_contra hmissing
      obtain ⟨body, hbody, -⟩ := Outcome.andThen_result_eq_ok.1 h
      obtain ⟨other, -, herror⟩ := Body.exists_error_of_classify hnone hforms d.data _ hitem
        hmissing
      rw [hbody] at herror
      cases herror
    unfold placeInBody at h ⊢
    rw [Body.classify_of_forall_mem hnone hforms _ _ hequals] at h ⊢
    obtain rfl := Except.ok.inj h
    exact .bounded rfl rfl

theorem place_leaves (h : (d.place url).result = .ok p) : d.Leaves p (d.place url).warnings := by
  cases hupload : d.upload with
  | some path =>
    have hplace : d.place url = .ofExcept (d.placeUpload url path) := by rw [place, hupload]
    rw [hplace] at h ⊢
    exact placeUpload_leaves h
  | none =>
    cases hquery : d.inQuery with
    | true =>
      rw [place_eq_placeInQuery url hupload hquery] at h ⊢
      exact placeInQuery_leaves h
    | false =>
      rw [place_eq_placeInBody url hupload hquery] at h ⊢
      exact placeInBody_leaves hv hforms h

end Place
end Draft

/-! ## The fields of a request -/

namespace Request

/-- Where settings make a request, they are all read, and its warnings come behind theirs. -/
theorem warnings_of_ofSettings {settings : List Setting} {r : Request}
    (h : (ofSettings settings).result = .ok r) :
    (ofSettings settings).warnings = settings.filterMap Setting.warning? ++
      (Draft.ofSettings settings).request.warnings := by
  have hfind : settings.find? Setting.asksForEmptyMethod = none := by
    rw [ofSettings_eq_readSettings] at h
    obtain ⟨_, hread, -⟩ := Outcome.andThen_result_eq_ok.1 h
    rw [readSettings_result] at hread
    cases hfind : settings.find? Setting.asksForEmptyMethod with
    | none => rfl
    | some s =>
      rw [hfind] at hread
      cases hread
  rw [ofSettings_eq_readSettings, readSettings_of_find?_eq_none hfind]
  rfl

/-- Where the fields of a request come from. Each header option gives one field, or none and a
remark that names it; the fields stand in the order of the options. Behind them stands the type to
accept, if some data is JSON and no option gives that field. All of these are the fields of the
request, and the remarks are its warnings, unless its body has parts: then the content types of form
data without a boundary are missing, of which a warning tells behind those on data and parts. -/
theorem headers_accounted {settings : List Setting} {r : Request}
    (hw : ∀ s ∈ settings, s.word.IsNormal) (h : (ofSettings settings).result = .ok r) :
    ∃ given remarks, Setting.AddInOrder settings given remarks ∧
      ((∀ parts, r.body ≠ .multipart parts) →
        r.headers = given ++ Draft.implied settings given ∧
        (ofSettings settings).warnings = remarks) ∧
      ∀ parts, r.body = .multipart parts →
        r.headers = (given ++ Draft.implied settings given).filter (fun f => ¬f.IsUnbounded) ∧
        (ofSettings settings).warnings = remarks ++
          (Body.droppedData (settings.filterMap Setting.dataItem?) ++
            ((settings.filterMap Setting.formItem?).flatMap fun item =>
              item.origin.remarks item.flag) ++
            Draft.boundaryRemarks given) := by
  refine ⟨Draft.fieldsOf settings, settings.filterMap Setting.warning?, Setting.addInOrder hw, ?_⟩
  obtain ⟨url, p, hurl, hplace, rfl⟩ := Draft.request_result_eq_ok.1 (draft_of_ofSettings h)
  have hwarnings : (ofSettings settings).warnings = settings.filterMap Setting.warning? ++
      ((Draft.ofSettings settings).place (Authority.resolve url).1).warnings := by
    rw [warnings_of_ofSettings h, Draft.request_eq hurl]
    simp [Outcome.andThen, hplace, Outcome.ok]
  have hdrop := Draft.dropUnbounded_eq fun f hf => Draft.isNormal_name_of_mem_headers hw hf
  have hleaves := Draft.place_leaves (Draft.isNormal_data hw) (Draft.isNormal_forms hw) hplace
  rw [hwarnings, ← Draft.headers_ofSettings hw]
  -- of the placement, only the fields and the remarks that it leaves matter
  generalize ((Draft.ofSettings settings).place (Authority.resolve url).1).warnings = more
    at hleaves ⊢
  cases hleaves with
  | all single headers =>
    rw [List.append_nil]
    exact ⟨fun _ => ⟨headers, rfl⟩, fun parts hparts => absurd hparts (single parts)⟩
  | @bounded parts multipart headers =>
    -- the implied field is no content type, so it is never dropped
    have hremarks : Draft.boundaryRemarks (Draft.ofSettings settings).headers =
        Draft.boundaryRemarks (Draft.fieldsOf settings) := by
      rw [Draft.headers_ofSettings hw, Draft.boundaryRemarks_append_implied]
    rw [hdrop] at headers ⊢
    rw [hremarks]
    exact ⟨fun hno => absurd multipart (hno parts), fun _ _ => ⟨headers, rfl⟩⟩

/-- Fields with blanks and a reference, without a value, without a name and of form data, a cookie
file, and JSON that a form field displaces: three fields are left, and every loss is told. -/
theorem headers_accounted_parts :
    let value := Word.ofReference ⟨"V".toList, false⟩
    let settings : List Setting := [
      .positional (Word.ofString "http://x/"),
      ⟨.header, "-H".toList, some (Word.ofString " A :  " ++ value), false⟩,
      ⟨.header, "-H".toList, some (Word.ofString ": v"), false⟩,
      ⟨.cookie, "-b".toList, some (Word.ofString "jar"), false⟩,
      ⟨.header, "--header".toList, some (Word.ofString "B ; "), false⟩,
      ⟨.header, "-H".toList, some (Word.ofString "content-TYPE: Multipart/Form-Data"), false⟩,
      ⟨.data .json, "--json".toList, some (Word.ofString "1"), false⟩,
      ⟨.form, "-F".toList, some (Word.ofString "a=b"), false⟩]
    let r : Request := {
      method := none
      url := Word.ofString "http://x/"
      headers := [⟨Word.ofString "A", value⟩, ⟨Word.ofString "B", Word.empty⟩,
        ⟨Word.ofString "Accept", Word.ofString "application/json"⟩]
      credentials := none
      body := .multipart [.field (Word.ofString "a") (Word.ofString "b")]
      usedVariables := ["V".toList] }
    (∀ s ∈ settings, s.word.IsNormal) ∧ (ofSettings settings).result = .ok r ∧
      (ofSettings settings).warnings.map Warning.shown = [
        "-H: header without a name ignored: : v".toList,
        "-b: cookie file ignored: jar".toList,
        "--json: ignored because the request has form fields".toList,
        ("-H: Content-Type multipart/form-data has no boundary; ".toList ++
          "the generated client sets it".toList)] ∧
      ∃ given remarks, Setting.AddInOrder settings given remarks ∧
        r.headers = (given ++ Draft.implied settings given).filter fun f => ¬f.IsUnbounded := by
  intro value settings r
  have hw : ∀ s ∈ settings, s.word.IsNormal := by decide
  have hok : (ofSettings settings).result = .ok r := by decide +kernel
  obtain ⟨given, remarks, hadd, -, hparts⟩ := headers_accounted hw hok
  exact ⟨hw, hok, by decide +kernel, given, remarks, hadd, (hparts _ rfl).1⟩

end Request

end CurlScribe
