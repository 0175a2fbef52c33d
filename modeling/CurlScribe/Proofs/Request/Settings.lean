import CurlScribe.Proofs.Request.Reading
import CurlScribe.Proofs.Word.Normal

/-!
# Settings and the request that they make

What a draft takes from the classes of settings, and the request that it becomes. A blank method
ends the reading of settings (`Request.readSettings`); otherwise the request is that of the draft,
and its parts are known as soon as it is known where the content is placed.
-/

namespace CurlScribe

/-! ## Classes of settings -/

namespace Draft

theorem filter_flag_eq_nil {flag : Flag} {settings : List Setting}
    (h : ∀ s ∈ settings, s.flag ≠ flag) : settings.filter (fun s => s.flag == flag) = [] := by
  rw [List.filter_eq_nil_iff]
  intro s hs
  simpa using h s hs

theorem lastWord?_eq_none {flag : Flag} {settings : List Setting}
    (h : ∀ s ∈ settings, s.flag ≠ flag) : lastWord? flag settings = none := by
  rw [lastWord?, filter_flag_eq_nil h]
  rfl

/-- The last word of a class is the word of one of the settings. -/
theorem isNormal_of_lastWord? {flag : Flag} {settings : List Setting} {w : Word}
    (hw : ∀ s ∈ settings, s.word.IsNormal) (h : lastWord? flag settings = some w) :
    w.IsNormal := by
  obtain ⟨s, hs, rfl⟩ := Option.map_eq_some_iff.1 h
  exact hw s (List.mem_of_mem_filter (List.mem_of_getLast? hs))

theorem isOn_eq_false {flag : Flag} {settings : List Setting}
    (h : ∀ s ∈ settings, s.flag ≠ flag) : isOn flag settings = false := by
  rw [isOn, filter_flag_eq_nil h]
  rfl

/-- Data has the words of the settings that give it. -/
theorem isNormal_data {settings : List Setting} (hw : ∀ s ∈ settings, s.word.IsNormal) :
    ∀ item ∈ (ofSettings settings).data, item.value.IsNormal := by
  intro item hitem
  obtain ⟨s, hs, hgives⟩ := List.mem_filterMap.1 hitem
  unfold Setting.dataItem? at hgives
  split at hgives
  · obtain rfl := Option.some.inj hgives
    exact hw s hs
  · cases hgives

/-- Form items have the words of the settings that give them. -/
theorem isNormal_forms {settings : List Setting} (hw : ∀ s ∈ settings, s.word.IsNormal) :
    ∀ item ∈ (ofSettings settings).forms, item.value.IsNormal := by
  intro item hitem
  obtain ⟨s, hs, hgives⟩ := List.mem_filterMap.1 hitem
  unfold Setting.formItem? at hgives
  split at hgives
  · obtain rfl := Option.some.inj hgives
    exact hw s hs
  · obtain rfl := Option.some.inj hgives
    exact hw s hs
  · cases hgives

/-! ## The request of a draft -/

end Draft

/-- The URL that a request goes to before content is placed, and the credentials that it was given
with. -/
def Authority.resolve (given : Word) : Word × Option Credentials :=
  match takeCredentials (withScheme given) with
  | some (credentials, stripped) => (stripped, some credentials)
  | none => (withScheme given, none)

namespace Draft

/-- The request of a draft whose content has its place. -/
def requestAt (d : Draft) (found : Option Credentials) (p : Placement) : Request :=
  Request.withVariables
    ⟨d.askedMethod, p.url, p.headers, d.credentials.or found, p.body, []⟩

theorem request_eq {d : Draft} {given : Word} (h : d.url = some given) :
    d.request = (d.place (Authority.resolve given).1).andThen fun p =>
      .ok (d.requestAt (Authority.resolve given).2 p) := by
  unfold request Authority.resolve
  rw [h]
  cases ht : Authority.takeCredentials (Authority.withScheme given) with
  | none => simp only [ht]; rfl
  | some found => simp only [ht]; rfl

theorem request_eq_missingUrl {d : Draft} (h : d.url = none) : d.request = .fail .missingUrl := by
  rw [request, h]

theorem request_result_eq_ok {d : Draft} {r : Request} :
    d.request.result = .ok r ↔ ∃ given p, d.url = some given ∧
      (d.place (Authority.resolve given).1).result = .ok p ∧
      r = d.requestAt (Authority.resolve given).2 p := by
  cases hurl : d.url with
  | none =>
    rw [request_eq_missingUrl hurl]
    exact ⟨nofun, nofun⟩
  | some given =>
    rw [request_eq hurl, Outcome.andThen_result_eq_ok]
    constructor
    · rintro ⟨p, hp, hr⟩
      exact ⟨given, p, rfl, hp, (Except.ok.inj hr).symm⟩
    · rintro ⟨_, p, ⟨⟩, hp, rfl⟩
      exact ⟨p, hp, rfl⟩

/-! ## Places -/

theorem place_eq_placeInBody {d : Draft} (url : Word) (hupload : d.upload = none)
    (hquery : d.inQuery = false) : d.place url = d.placeInBody url := by
  unfold Draft.place
  rw [hupload]
  simp only [hquery, Bool.false_eq_true, if_false]

theorem place_eq_placeInQuery {d : Draft} (url : Word) (hupload : d.upload = none)
    (hquery : d.inQuery = true) : d.place url = .ofExcept (d.placeInQuery url) := by
  unfold Draft.place
  rw [hupload]
  simp only [hquery, if_true]

/-- A body leaves the URL as it is. -/
theorem url_of_placeInBody {d : Draft} {url : Word} {p : Placement}
    (h : (d.placeInBody url).result = .ok p) : p.url = url := by
  obtain ⟨body, -, hp⟩ := Outcome.andThen_result_eq_ok.1 h
  split at hp
  · exact congrArg Placement.url (Except.ok.inj hp).symm
  · exact congrArg Placement.url (Except.ok.inj hp).symm

end Draft

/-! ## The request of settings -/

namespace Request

/-- Reading ends at a blank method, whatever stands around it. -/
theorem readSettings_result (settings : List Setting) :
    (readSettings settings).result = match settings.find? Setting.asksForEmptyMethod with
      | some s => .error (.invalidArgument s.name .emptyMethod)
      | none => .ok () := by
  unfold readSettings Outcome.andThen
  cases settings.find? Setting.asksForEmptyMethod with
  | some s => rfl
  | none => rfl

/-- A setting behind others that neither warns nor asks for a blank method is read without
notice. -/
theorem readSettings_append (settings : List Setting) {s : Setting} (hwarning : s.warning? = none)
    (hmethod : s.asksForEmptyMethod = false) :
    readSettings (settings ++ [s]) = readSettings settings := by
  have hfind : (settings ++ [s]).find? Setting.asksForEmptyMethod =
      settings.find? Setting.asksForEmptyMethod := by
    rw [List.find?_append]
    simp [hmethod]
  have hwarnings : ((settings ++ [s]).takeWhile fun s => !s.asksForEmptyMethod).filterMap
      Setting.warning? =
        (settings.takeWhile fun s => !s.asksForEmptyMethod).filterMap Setting.warning? := by
    rw [List.takeWhile_append]
    split
    next hlength =>
      have hall := List.IsPrefix.eq_of_length (List.takeWhile_prefix _) hlength
      rw [List.filterMap_append, hall]
      simp [hmethod, hwarning]
    · rfl
  unfold readSettings
  rw [hwarnings, hfind]

/-- Settings that make a request make the one of their draft. -/
theorem draft_of_ofSettings {settings : List Setting} {r : Request}
    (h : (ofSettings settings).result = .ok r) :
    (Draft.ofSettings settings).request.result = .ok r := by
  rw [ofSettings_eq_readSettings] at h
  obtain ⟨-, -, hr⟩ := Outcome.andThen_result_eq_ok.1 h
  exact hr

/-- Settings without a blank method make the request of their draft. -/
theorem ofSettings_of_draft {settings : List Setting} {r : Request}
    (hread : ∀ s ∈ settings, s.asksForEmptyMethod = false)
    (h : (Draft.ofSettings settings).request.result = .ok r) :
    (ofSettings settings).result = .ok r := by
  have hfind : settings.find? Setting.asksForEmptyMethod = none := by
    rw [List.find?_eq_none]
    intro s hs
    simp [hread s hs]
  rw [ofSettings_eq_readSettings]
  refine Outcome.andThen_result_eq_ok.2 ⟨(), ?_, h⟩
  rw [readSettings_result, hfind]

end Request
end CurlScribe
