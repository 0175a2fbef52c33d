import CurlScribe.Proofs.Request.Settings
import Mathlib.Data.List.Perm.Basic

/-!
# Classes of settings

Settings of different classes do not get in each other's way. Whatever a run over settings leaves in
a part of the draft, it takes from those of one class (`Draft.readAll_empty`), so two runs over the
same settings of every class in the same order end in the same draft, however the classes are mixed
(`Draft.readAll_mixed`), and two commands that give such settings make the same request
(`Request.ofSettings_mixed`). Only the order of the warnings may differ.
-/

namespace CurlScribe

/-- The kinds of settings whose order among themselves counts. -/
inductive SettingClass where
  | url
  | method
  /-- Settings that add a header field. -/
  | field
  | data
  | form
  | user
  | upload
  | inQuery
  | head
  | ignored
deriving DecidableEq, Repr

def Flag.settingClass : Flag → SettingClass
  | .url => .url
  | .method => .method
  | .header => .field
  | .data _ => .data
  | .form => .form
  | .formString => .form
  | .user => .user
  | .userAgent => .field
  | .referer => .field
  | .cookie => .field
  | .uploadFile => .upload
  | .get => .inQuery
  | .head => .head
  | .ignored _ => .ignored

/-- The settings of a class in order. -/
def SettingClass.members (k : SettingClass) (settings : List Setting) : List Setting :=
  settings.filter fun s => s.flag.settingClass = k

/-- Lists with the same settings of every class in the same order. -/
def SameByClass (a b : List Setting) : Prop := ∀ k : SettingClass, k.members a = k.members b

/-! ## What depends on one class -/

namespace SameByClass

variable {a b : List Setting}

/-- The settings that are chosen from one class are the same. -/
theorem filter_eq (h : SameByClass a b) {p : Setting → Bool} {k : SettingClass}
    (hp : ∀ s, p s = true → s.flag.settingClass = k) : a.filter p = b.filter p := by
  have hclass (settings : List Setting) :
      settings.filter p = (k.members settings).filter p := by
    rw [SettingClass.members, List.filter_filter]
    apply List.filter_congr
    intro s _
    cases hs : p s with
    | false => rfl
    | true => simp [hp s hs]
  rw [hclass a, h k, ← hclass b]

/-- What is read from one class is the same. -/
theorem filterMap_eq {β : Type} (h : SameByClass a b) {f : Setting → Option β} {k : SettingClass}
    (hf : ∀ s, (f s).isSome = true → s.flag.settingClass = k) : a.filterMap f = b.filterMap f := by
  have hread (settings : List Setting) :
      settings.filterMap f = (settings.filter fun s => (f s).isSome).filterMap f := by
    rw [List.filterMap_filter]
    apply List.filterMap_congr
    intro s _
    cases f s <;> rfl
  rw [hread a, h.filter_eq hf, ← hread b]

theorem find?_eq (h : SameByClass a b) {p : Setting → Bool} {k : SettingClass}
    (hp : ∀ s, p s = true → s.flag.settingClass = k) : a.find? p = b.find? p := by
  rw [← List.head?_filter, ← List.head?_filter, h.filter_eq hp]

theorem filter_flag_eq (h : SameByClass a b) (flag : Flag) :
    a.filter (fun s => s.flag == flag) = b.filter fun s => s.flag == flag := by
  apply h.filter_eq (k := flag.settingClass)
  intro s hs
  rw [beq_iff_eq.1 hs]

/-- A setting is in one class, so it stands in both lists equally often. -/
theorem perm (h : SameByClass a b) : a.Perm b := by
  rw [List.perm_iff_count]
  intro s
  have hcount (settings : List Setting) :
      (s.flag.settingClass.members settings).count s = settings.count s :=
    List.count_filter (by simp)
  rw [← hcount a, h, hcount b]

end SameByClass

/-! ## Drafts -/

namespace Setting

theorem settingClass_of_headerField? {s : Setting} (h : s.headerField?.isSome = true) :
    s.flag.settingClass = .field := by
  unfold headerField? at h
  split at h
  next hflag => rw [hflag]; rfl
  next hflag => rw [hflag]; rfl
  next hflag => rw [hflag]; rfl
  next hflag => rw [hflag]; rfl
  next => cases h

theorem settingClass_of_dataItem? {s : Setting} (h : s.dataItem?.isSome = true) :
    s.flag.settingClass = .data := by
  unfold dataItem? at h
  split at h
  next hflag => rw [hflag]; rfl
  next => cases h

theorem settingClass_of_formItem? {s : Setting} (h : s.formItem?.isSome = true) :
    s.flag.settingClass = .form := by
  unfold formItem? at h
  split at h
  next hflag => rw [hflag]; rfl
  next hflag => rw [hflag]; rfl
  next => cases h

theorem settingClass_of_asksForEmptyMethod {s : Setting} (h : s.asksForEmptyMethod = true) :
    s.flag.settingClass = .method := by
  rw [asksForEmptyMethod, Bool.and_eq_true, beq_iff_eq] at h
  rw [h.1]
  rfl

end Setting

/-- Drafts take every part from one class. -/
theorem Draft.ofSettings_congr {a b : List Setting} (h : SameByClass a b) :
    ofSettings a = ofSettings b := by
  have hlast (flag : Flag) : lastWord? flag a = lastWord? flag b := by
    rw [lastWord?, h.filter_flag_eq, lastWord?]
  have hon (flag : Flag) : isOn flag a = isOn flag b := by
    rw [isOn, h.filter_flag_eq, isOn]
  have hfields : fieldsOf a = fieldsOf b := by
    rw [fieldsOf, h.filterMap_eq fun _ => Setting.settingClass_of_headerField?, fieldsOf]
  have hdata : a.filterMap Setting.dataItem? = b.filterMap Setting.dataItem? :=
    h.filterMap_eq fun _ => Setting.settingClass_of_dataItem?
  have hforms : a.filterMap Setting.formItem? = b.filterMap Setting.formItem? :=
    h.filterMap_eq fun _ => Setting.settingClass_of_formItem?
  simp only [ofSettings, hlast, hon, hfields, hdata, hforms]

/-! ## Reading -/

/-- Settings that can all be read give all their warnings. -/
theorem Request.readSettings_of_find?_eq_none {settings : List Setting}
    (h : settings.find? Setting.asksForEmptyMethod = none) :
    readSettings settings = .warn (settings.filterMap Setting.warning?) := by
  have hall : settings.takeWhile (fun s => !s.asksForEmptyMethod) = settings := by
    rw [List.takeWhile_eq_self_iff]
    intro s hs
    simpa using List.find?_eq_none.1 h s hs
  unfold readSettings Outcome.andThen
  rw [h, hall]
  simp [Outcome.warn, Outcome.ok]

/-- Two runs over settings of the same order in every class end in the same draft, with the same
warnings up to their order, or at the same blank method. -/
theorem Draft.readAll_mixed {a b : List Setting} (h : SameByClass a b) :
    (∃ d, (empty.readAll a).result = .ok d ∧ (empty.readAll b).result = .ok d ∧
        (empty.readAll a).warnings.Perm (empty.readAll b).warnings) ∨
      ∃ e, (empty.readAll a).result = .error e ∧ (empty.readAll b).result = .error e := by
  have hfind := h.find?_eq fun _ => Setting.settingClass_of_asksForEmptyMethod
  rw [readAll_empty, readAll_empty, ofSettings_congr h]
  cases hb : b.find? Setting.asksForEmptyMethod with
  | some s =>
    -- the same blank method ends both runs
    have hread (settings : List Setting) (hs : settings.find? Setting.asksForEmptyMethod = some s) :
        (Request.readSettings settings).result =
          .error (.invalidArgument s.name .emptyMethod) := by
      rw [Request.readSettings_result, hs]
    exact .inr ⟨_, by rw [Outcome.andThen, hread a (hfind.trans hb)],
      by rw [Outcome.andThen, hread b hb]⟩
  | none =>
    rw [Request.readSettings_of_find?_eq_none (hfind.trans hb),
      Request.readSettings_of_find?_eq_none hb]
    exact .inl ⟨_, rfl, rfl, (h.perm.filterMap Setting.warning?).append_right _⟩

/-! ## Requests -/

namespace Request

/-- Settings of the same order in every class make the same request, and give the same warnings up
to their order, or both fail with the same error. -/
theorem ofSettings_mixed {a b : List Setting} (h : SameByClass a b) :
    (∃ r, (ofSettings a).result = .ok r ∧ (ofSettings b).result = .ok r ∧
        (ofSettings a).warnings.Perm (ofSettings b).warnings) ∨
      ∃ e, (ofSettings a).result = .error e ∧ (ofSettings b).result = .error e := by
  unfold ofSettings
  rcases Draft.readAll_mixed h with ⟨d, ha, hb, hwarnings⟩ | ⟨e, ha, hb⟩
  · -- from the one draft on there is one way to go
    simp only [Outcome.andThen, ha, hb]
    cases hr : d.request.result with
    | ok r => exact .inl ⟨r, rfl, rfl, hwarnings.append_right _⟩
    | error e => exact .inr ⟨e, rfl, rfl⟩
  · simp only [Outcome.andThen, ha, hb]
    exact .inr ⟨e, rfl, rfl⟩

/-- A header field, data, a cookie file and a switch without effect around the URL in two orders:
the request is the same, and the two warnings change places. -/
theorem ofSettings_mixed_warnings :
    let field : Setting := ⟨.header, "-H".toList, some (Word.ofString "A: 1"), false⟩
    let first : Setting := ⟨.data .ascii, "-d".toList, some (Word.ofString "p=1"), false⟩
    let second : Setting := ⟨.data .ascii, "-d".toList, some (Word.ofString "q=2"), false⟩
    let jar : Setting := ⟨.cookie, "-b".toList, some (Word.ofString "jar"), false⟩
    let silent : Setting := ⟨.ignored "silent".toList, "-s".toList, none, false⟩
    let url := Setting.positional (Word.ofString "http://x/")
    let a := [field, first, jar, second, silent, url]
    let b := [url, silent, first, field, second, jar]
    SameByClass a b ∧
      (∃ r, (ofSettings a).result = .ok r ∧ (ofSettings b).result = .ok r ∧
        (ofSettings a).warnings.Perm (ofSettings b).warnings) ∧
      (ofSettings a).warnings ≠ (ofSettings b).warnings := by
  intro field first second jar silent url a b
  have hsame : SameByClass a b := by
    intro k
    cases k <;> decide +kernel
  have hok : (ofSettings a).result.isOk = true := by decide +kernel
  refine ⟨hsame, ?_, by decide +kernel⟩
  rcases ofSettings_mixed hsame with hboth | ⟨e, ha, -⟩
  · exact hboth
  · rw [ha] at hok
    cases hok

end Request
end CurlScribe
