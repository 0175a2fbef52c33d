import CurlScribe.Proofs.Request.Settings
import Mathlib.Data.Fintype.EquivFin

/-!
# Names of options in requests

A request does not depend on the names under which a command gives its options. Names only come
back in warnings and errors, so renaming the options renames what the building of the request has
to say and changes nothing else (`Request.ofSettings_rename`). The one name that the building knows
by itself is `-H`, which is what a dropped header field is blamed on.
-/

namespace CurlScribe

/-! ## Renaming -/

variable (ρ : Text → Text)

def Setting.rename (s : Setting) : Setting := { s with name := ρ s.name }

def DataItem.rename (item : DataItem) : DataItem := { item with flag := ρ item.flag }

def FormItem.rename (item : FormItem) : FormItem := { item with flag := ρ item.flag }

def Warning.rename (w : Warning) : Warning := { w with flag := w.flag.map ρ }

def BodyConflict.rename : BodyConflict → BodyConflict
  | uploadWith path flag => uploadWith path (ρ flag)
  | formInQuery flag => formInQuery (ρ flag)
  | fileInQuery path => fileInQuery path
  | fileWithData flag value => fileWithData (ρ flag) value

def Error.rename : Error → Error
  | unknownFlag flag => unknownFlag (ρ flag)
  | missingArgument flag => missingArgument (ρ flag)
  | conflictingBody conflict => conflictingBody (conflict.rename ρ)
  | invalidArgument flag fault => invalidArgument (ρ flag) fault
  | e => e

def Draft.rename (d : Draft) : Draft :=
  { d with data := d.data.map (DataItem.rename ρ), forms := d.forms.map (FormItem.rename ρ) }

namespace Outcome

variable {α β γ : Type}

def rename (x : Outcome α) : Outcome α :=
  ⟨x.result.mapError (Error.rename ρ), x.warnings.map (Warning.rename ρ)⟩

@[simp] theorem rename_ok (a : α) : (ok a).rename ρ = ok a := rfl

@[simp] theorem rename_fail (e : Error) :
    (fail e : Outcome α).rename ρ = fail (e.rename ρ) := rfl

@[simp] theorem rename_ofExcept (x : Except Error α) :
    (ofExcept x).rename ρ = ofExcept (x.mapError (Error.rename ρ)) := rfl

@[simp] theorem rename_warn (ws : List Warning) :
    (warn ws).rename ρ = warn (ws.map (Warning.rename ρ)) := rfl

/-- Steps in a row under new names are the steps under new names, in a row. -/
theorem rename_andThen (x : Outcome α) (f : α → Outcome β) :
    (x.andThen f).rename ρ = (x.rename ρ).andThen fun a => (f a).rename ρ := by
  obtain ⟨result, warnings⟩ := x
  cases result with
  | error e => rfl
  | ok a => simp [andThen, rename, Except.mapError]

/-- A step over a row goes through renaming if it does for each member. -/
theorem rename_forAll {f : α → Outcome β} {g : γ → Outcome β} {h : α → γ}
    (hstep : ∀ a, g (h a) = (f a).rename ρ) (as : List α) :
    forAll g (as.map h) = (forAll f as).rename ρ := by
  induction as with
  | nil => rfl
  | cons a as ih =>
    rw [List.map_cons, forAll, forAll, hstep, ih, rename_andThen]
    simp only [rename_andThen, rename_ok]

end Outcome

/-! ## Data options -/

namespace DataItem

/-- An item has the same content under a new name; only an error tells the name. -/
theorem rename_content (item : DataItem) :
    (item.rename ρ).content = item.content.mapError (Error.rename ρ) := by
  have hencoded : (item.rename ρ).encodedContent =
      item.encodedContent.mapError (Error.rename ρ) := by
    unfold encodedContent rename
    dsimp only
    split
    · rfl
    · split <;> rfl
  have hplain : (item.rename ρ).plainContent = item.plainContent.mapError (Error.rename ρ) := by
    unfold plainContent rename
    dsimp only
    split
    · rfl
    · split <;> rfl
  obtain ⟨kind, flag, value⟩ := item
  cases kind with
  | raw => rfl
  | urlEncode =>
    exact (congrArg (Except.map DataContent.text) hencoded).trans (Except.map_mapError _ _ _)
  | ascii => exact hplain
  | binary => exact hplain
  | json => exact hplain

/-- Data is joined without a look at the names of its options. -/
theorem rename_joinText (joined : Word) (previous : Option DataKind) (items : List DataItem) :
    joinText joined previous (items.map (rename ρ)) =
      (joinText joined previous items).mapError (Error.rename ρ) := by
  induction items generalizing joined previous with
  | nil => rfl
  | cons item items ih =>
    rw [List.map_cons]
    unfold joinText
    rw [rename_content]
    cases item.content with
    | error e => rfl
    | ok content =>
      cases content with
      | file path => rfl
      | text value => exact ih _ _

/-- Joined data under new names is the same data, or the same error about a new name. -/
theorem rename_join (items : List DataItem) :
    join (items.map (rename ρ)) = (join items).mapError (Error.rename ρ) := by
  match items with
  | [] => rfl
  | [item] => exact rename_content ρ item
  | first :: second :: rest =>
    exact (congrArg (Except.map DataContent.text) (rename_joinText ρ Word.empty none
      (first :: second :: rest))).trans (Except.map_mapError _ _ _)

end DataItem

/-! ## Form options -/

namespace FormItem

/-- Modifiers are read alike under a new name; the warnings about them tell it. -/
theorem rename_readModifiers (flag : Text) (path : Word) (modifiers : List Word) :
    readModifiers (ρ flag) path modifiers =
      ((readModifiers flag path modifiers).1,
        (readModifiers flag path modifiers).2.map (Warning.rename ρ)) := by
  induction modifiers with
  | nil => rfl
  | cons modifier rest ih =>
    unfold readModifiers
    rw [ih]
    generalize readModifiers flag path rest = later
    cases modifier.splitOnce '=' with
    | none => rfl
    | some pair =>
      dsimp only
      split
      · rfl
      · split <;> rfl

/-- A file specification is read alike under a new name, up to its warnings. -/
theorem rename_readFile (flag : Text) (spec : Word) :
    readFile (ρ flag) spec = ((readFile flag spec).1, (readFile flag spec).2.1,
      (readFile flag spec).2.2.map (Warning.rename ρ)) := by
  unfold readFile
  cases spec.split ';' with
  | nil => rfl
  | cons path modifiers =>
    dsimp only
    rw [rename_readModifiers]

/-- A form option describes the same part under a new name, up to errors and warnings. -/
theorem rename_part (item : FormItem) : (item.rename ρ).part = item.part.rename ρ := by
  unfold part rename
  dsimp only
  cases item.value.splitOnce '=' with
  | none => rfl
  | some pair =>
    obtain ⟨name, value⟩ := pair
    dsimp only
    split
    · rfl
    · cases value.dropLeading? '@' with
      | some spec =>
        dsimp only
        rw [rename_readFile]
        rfl
      | none =>
        cases value.dropLeading? '<' with
        | some spec =>
          dsimp only
          rw [rename_readFile]
          cases (readFile item.flag spec).2.1 <;> simp [Outcome.rename, Except.mapError,
            Warning.rename, Warning.ofFlag]
        | none => rfl

end FormItem

/-! ## The body -/

namespace Body

/-- The body that data makes does not depend on the names of its options. -/
theorem rename_ofData (data : List DataItem) (explicitContentType : Option Word) :
    ofData (data.map (DataItem.rename ρ)) explicitContentType =
      (ofData data explicitContentType).mapError (Error.rename ρ) := by
  have hdefault : defaultContentType (data.map (DataItem.rename ρ)) = defaultContentType data := by
    unfold defaultContentType
    rw [List.any_map]
    rfl
  unfold ofData
  rw [List.isEmpty_map, hdefault, DataItem.rename_join, Except.map_mapError]
  split <;> rfl

/-- Nor does any body, up to the errors and warnings on the way to it. -/
theorem rename_classify (data : List DataItem) (forms : List FormItem)
    (explicitContentType : Option Word) :
    classify (data.map (DataItem.rename ρ)) (forms.map (FormItem.rename ρ)) explicitContentType =
      (classify data forms explicitContentType).rename ρ := by
  have hdropped : droppedData (data.map (DataItem.rename ρ)) =
      (droppedData data).map (Warning.rename ρ) := by
    unfold droppedData
    rw [List.map_map, List.map_map]
    rfl
  unfold classify
  rw [List.isEmpty_map]
  split
  · rw [rename_ofData]
    rfl
  · rw [Outcome.rename_andThen, hdropped,
      Outcome.rename_forAll ρ (FormItem.rename_part ρ)]
    simp only [Outcome.rename_andThen, Outcome.rename_warn, Outcome.rename_ok]

end Body

/-! ## Settings -/

namespace Setting

theorem rename_dataItem? (s : Setting) :
    (s.rename ρ).dataItem? = s.dataItem?.map (DataItem.rename ρ) := by
  unfold dataItem? rename
  cases s.flag <;> rfl

theorem rename_formItem? (s : Setting) :
    (s.rename ρ).formItem? = s.formItem?.map (FormItem.rename ρ) := by
  unfold formItem? rename
  cases s.flag <;> rfl

/-- What is remarked on a setting is remarked on it under its new name. -/
theorem rename_warning? (s : Setting) :
    (s.rename ρ).warning? = s.warning?.map (Warning.rename ρ) := by
  have hflag : (s.rename ρ).flag = s.flag := rfl
  have hfield : (s.rename ρ).headerField? = s.headerField? := rfl
  unfold warning?
  rw [hflag, hfield]
  cases s.flag with
  | ignored long => rfl
  | _ =>
    cases s.headerField? with
    | none => rfl
    | some field => cases field <;> rfl

/-- The settings of a flag are the same ones under new names. -/
theorem filter_map_rename (settings : List Setting) (flag : Flag) :
    (settings.map (rename ρ)).filter (fun s => s.flag == flag) =
      (settings.filter fun s => s.flag == flag).map (rename ρ) := by
  rw [List.filter_map]
  rfl

end Setting

/-! ## Drafts -/

namespace Draft

/-- The draft of settings under new names is their draft, with new names in it. -/
theorem rename_ofSettings (settings : List Setting) :
    ofSettings (settings.map (Setting.rename ρ)) = (ofSettings settings).rename ρ := by
  have hlast (flag : Flag) :
      lastWord? flag (settings.map (Setting.rename ρ)) = lastWord? flag settings := by
    unfold lastWord?
    rw [Setting.filter_map_rename, List.getLast?_map, Option.map_map]
    rfl
  have hon (flag : Flag) : isOn flag (settings.map (Setting.rename ρ)) = isOn flag settings := by
    unfold isOn
    rw [Setting.filter_map_rename, List.getLast?_map]
    cases (settings.filter fun s => s.flag == flag).getLast? <;> rfl
  have hfields : fieldsOf (settings.map (Setting.rename ρ)) = fieldsOf settings := by
    unfold fieldsOf
    rw [List.filterMap_map]
    rfl
  have hdata : (settings.map (Setting.rename ρ)).filterMap Setting.dataItem? =
      (settings.filterMap Setting.dataItem?).map (DataItem.rename ρ) := by
    rw [List.filterMap_map, List.map_filterMap]
    exact List.filterMap_congr fun s _ => Setting.rename_dataItem? ρ s
  have hforms : (settings.map (Setting.rename ρ)).filterMap Setting.formItem? =
      (settings.filterMap Setting.formItem?).map (FormItem.rename ρ) := by
    rw [List.filterMap_map, List.map_filterMap]
    exact List.filterMap_congr fun s _ => Setting.rename_formItem? ρ s
  unfold ofSettings rename
  simp only [hlast, hon, hfields, hdata, hforms]

variable (d : Draft)

theorem rename_headers : (d.rename ρ).headers = d.headers := by
  unfold headers rename
  rw [List.any_map]
  rfl

/-- The option that an upload conflicts with goes by its new name. -/
theorem rename_firstContentFlag? :
    (d.rename ρ).firstContentFlag? = d.firstContentFlag?.map ρ := by
  obtain ⟨url, method, fields, credentials, data, forms, upload, inQuery, head⟩ := d
  cases data with
  | cons item data => rfl
  | nil => cases forms <;> rfl

/-- An upload is placed alike, or conflicts with an option under its new name. -/
theorem rename_placeUpload (url path : Word) :
    (d.rename ρ).placeUpload url path = (d.placeUpload url path).mapError (Error.rename ρ) := by
  unfold placeUpload
  rw [rename_firstContentFlag?, rename_headers]
  cases d.firstContentFlag? <;> rfl

/-- Data is placed in the query alike, or conflicts under new names. -/
theorem rename_placeInQuery (url : Word) :
    (d.rename ρ).placeInQuery url = (d.placeInQuery url).mapError (Error.rename ρ) := by
  unfold placeInQuery
  rw [rename_headers]
  generalize d.headers = headers
  obtain ⟨_, _, _, _, data, forms, _, _, _⟩ := d
  cases forms with
  | cons form forms => rfl
  | nil =>
    cases data with
    | nil => rfl
    | cons item data =>
      have hjoin := DataItem.rename_join ρ (item :: data)
      rw [List.map_cons] at hjoin
      simp only [rename, List.map_cons, List.map_nil, hjoin]
      cases DataItem.join (item :: data) with
      | error e => rfl
      | ok content => cases content <;> rfl

variable {ρ}

/-- The remark on dropped header fields is made in the name of `-H`. -/
theorem rename_placeInBody (hρ : ρ "-H".toList = "-H".toList) (url : Word) :
    (d.rename ρ).placeInBody url = (d.placeInBody url).rename ρ := by
  have hdrop (headers : Headers) :
      (dropUnbounded headers).2.map (Warning.rename ρ) = (dropUnbounded headers).2 := by
    unfold dropUnbounded
    split
    · exact congrArg (fun flag => [Warning.ofFlag flag _]) hρ
    · rfl
  unfold placeInBody
  rw [rename_headers, Outcome.rename_andThen]
  refine congrArg₂ Outcome.andThen (Body.rename_classify ρ d.data d.forms _) (funext fun body => ?_)
  cases body with
  | multipart parts => exact congrArg (Outcome.mk _) (hdrop d.headers).symm
  | _ => rfl

/-- Content ends up in the same place. Only the warning on dropped types names an option itself, so
that name has to stay. -/
theorem rename_place (hρ : ρ "-H".toList = "-H".toList) (url : Word) :
    (d.rename ρ).place url = (d.place url).rename ρ := by
  have hupload : (d.rename ρ).upload = d.upload := rfl
  have hquery : (d.rename ρ).inQuery = d.inQuery := rfl
  unfold place
  rw [rename_placeInBody d hρ, rename_placeInQuery, hupload, hquery]
  cases d.upload with
  | some path => exact congrArg Outcome.ofExcept (rename_placeUpload ρ d url path)
  | none => cases d.inQuery <;> rfl

/-- A draft under new names describes the same request, up to errors and warnings. -/
theorem rename_request (hρ : ρ "-H".toList = "-H".toList) :
    (d.rename ρ).request = d.request.rename ρ := by
  cases hurl : d.url with
  | none =>
    rw [request_eq_missingUrl hurl]
    exact request_eq_missingUrl (d := d.rename ρ) hurl
  | some given =>
    rw [request_eq hurl, request_eq (d := d.rename ρ) hurl, rename_place d hρ,
      Outcome.rename_andThen]
    rfl

end Draft

/-! ## Requests -/

namespace Request

/-- Renaming the options renames what is said about them and leaves the request as it is. -/
theorem ofSettings_rename {ρ : Text → Text} (hρ : ρ "-H".toList = "-H".toList)
    (settings : List Setting) :
    ofSettings (settings.map (Setting.rename ρ)) = (ofSettings settings).rename ρ := by
  have hread : readSettings (settings.map (Setting.rename ρ)) =
      (readSettings settings).rename ρ := by
    have hwarnings (accepted : List Setting) :
        accepted.filterMap (Setting.warning? ∘ Setting.rename ρ) =
          (accepted.filterMap Setting.warning?).map (Warning.rename ρ) := by
      rw [List.map_filterMap]
      exact List.filterMap_congr fun s _ => Setting.rename_warning? ρ s
    have hfind : (settings.map (Setting.rename ρ)).find? Setting.asksForEmptyMethod =
        (settings.find? Setting.asksForEmptyMethod).map (Setting.rename ρ) := by
      rw [List.find?_map]
      rfl
    unfold readSettings
    rw [List.takeWhile_map, List.filterMap_map, hwarnings, hfind, Outcome.rename_andThen]
    refine congrArg (Outcome.andThen _) (funext fun _ => ?_)
    cases settings.find? Setting.asksForEmptyMethod <;> rfl
  rw [ofSettings_eq_readSettings, ofSettings_eq_readSettings, hread, Draft.rename_ofSettings,
    Draft.rename_request _ hρ, Outcome.rename_andThen]

end Request

/-! ## One option under another name -/

/-- The same warning, or one that concerned `old` and now concerns `new`. -/
def Warning.Follows (old new : Text) (w w' : Warning) : Prop :=
  w' = w ∨ w.flag = some old ∧ w' = { w with flag := some new }

/-- Settings that make the same request, with the same warnings but for a name. -/
structure Request.Agree (old new : Text) (settings settings' : List Setting) : Prop where
  result : ∀ r, (ofSettings settings).result = .ok r ↔ (ofSettings settings').result = .ok r
  warnings : List.Forall₂ (Warning.Follows old new) (ofSettings settings).warnings
    (ofSettings settings').warnings

/-- There is always a name that none of the given ones is. -/
theorem exists_fresh (names : List Text) : ∃ z, z ∉ names := by
  obtain ⟨z, hz⟩ := Infinite.exists_notMem_finset names.toFinset
  exact ⟨z, fun hmem => hz (List.mem_toFinset.2 hmem)⟩

/-- Replacing a name changes nothing where the name does not occur. -/
theorem Setting.map_rename_of_fresh {z : Text} (name : Text) {settings : List Setting}
    (h : ∀ s ∈ settings, s.name ≠ z) :
    settings.map (rename (Function.update id z name)) = settings := by
  refine (List.map_congr_left fun s hs => ?_).trans (List.map_id settings)
  rw [rename, Function.update_of_ne (h s hs)]
  rfl

/-- A warning about a fresh name becomes one about `old` or one about `new`; every other warning
stays as it is. -/
theorem Warning.follows_rename (z old new : Text) (w : Warning) :
    Follows old new (w.rename (Function.update id z old))
      (w.rename (Function.update id z new)) := by
  obtain ⟨flag, message⟩ := w
  by_cases hz : flag = some z
  · subst hz
    exact .inr ⟨by simp [rename], by simp [rename]⟩
  · refine .inl ?_
    cases flag with
    | none => rfl
    | some flag =>
      have hne : flag ≠ z := fun h => hz (congrArg some h)
      simp [rename, Function.update_of_ne hne]

/-- It does not matter under which of its names an option is given. The proof names the option by a
name that occurs nowhere else, which then becomes either name. -/
theorem Request.agree_of_rename (front back : List Setting) (s : Setting) (new : Text) :
    Agree s.name new (front ++ s :: back) (front ++ { s with name := new } :: back) := by
  obtain ⟨z, hz⟩ := exists_fresh ("-H".toList :: (front ++ back).map Setting.name)
  obtain ⟨hdash, hnames⟩ := not_or.1 (mt List.mem_cons.2 hz)
  have hfresh : ∀ t ∈ front ++ back, t.name ≠ z :=
    fun t ht h => hnames (List.mem_map.2 ⟨t, ht, h⟩)
  -- the settings under any name are those under the fresh name, renamed
  have hcall (name : Text) : ofSettings (front ++ { s with name := name } :: back) =
      (ofSettings (front ++ { s with name := z } :: back)).rename (Function.update id z name) := by
    rw [← ofSettings_rename (by rw [Function.update_of_ne (Ne.symm hdash)]; rfl), List.map_append,
      List.map_cons,
      Setting.map_rename_of_fresh name fun t ht => hfresh t (List.mem_append_left _ ht),
      Setting.map_rename_of_fresh name fun t ht => hfresh t (List.mem_append_right _ ht),
      Setting.rename, Function.update_self]
  have hold := hcall s.name
  rw [show ({ s with name := s.name } : Setting) = s from rfl] at hold
  constructor
  · intro r
    rw [hold, hcall new]
    show Except.mapError _ _ = _ ↔ Except.mapError _ _ = _
    rw [Except.mapError_eq_ok, Except.mapError_eq_ok]
  · rw [hold, hcall new]
    exact List.forall₂_map_left_iff.2 (List.forall₂_map_right_iff.2
      (List.forall₂_same.2 fun w _ => Warning.follows_rename z s.name new w))

end CurlScribe
