import CurlScribe.Proofs.Outcome
import CurlScribe.Request.Build
import Mathlib.Data.List.TakeWhile

/-!
# Reading settings, class by class

Settings are read one after the other into one draft. What the draft holds in the end can be said
without the order of reading: each part of it is taken from the settings of one class alone, which
is what `Draft.ofSettings` says part by part. It is the invariant of the reading. One more setting
takes the draft of those before it to the draft of all of them (`Draft.read_ofSettings`), and so a
whole run ends in the draft of all settings, or at the first blank method
(`Draft.readAll_ofSettings`).
-/

namespace CurlScribe
namespace Setting

/-! ## What single settings give -/

/-- A method option whose value is blank. -/
def asksForEmptyMethod (s : Setting) : Bool := s.flag == .method && s.word.trim.isEmpty

/-- What a setting adds to the header fields, if it is of the kind that adds one: the field, or the
remark on why there is none. -/
def headerField? (s : Setting) : Option (Except Text Header) :=
  match s.flag with
  | .header => some (Header.read s.word)
  | .userAgent => some (.ok ⟨Word.ofString "User-Agent", s.word⟩)
  | .referer => some (.ok ⟨Word.ofString "Referer", s.word⟩)
  | .cookie =>
    if s.word.contains '=' then some (.ok ⟨Word.ofString "Cookie", s.word⟩)
    else some (.error ("cookie file ignored: ".toList ++ s.word.written))
  | _ => none

/-- The warning that a setting gives. -/
def warning? (s : Setting) : Option Warning :=
  match s.flag with
  | .ignored _ => some (.ofFlag s.name "has no effect on the generated request".toList)
  | _ =>
    match s.headerField? with
    | some (.error remark) => some (.ofFlag s.name remark)
    | _ => none

/-- The data item that a setting gives. -/
def dataItem? (s : Setting) : Option DataItem :=
  match s.flag with
  | .data kind => some ⟨kind, s.name, s.word⟩
  | _ => none

/-- The form item that a setting gives. -/
def formItem? (s : Setting) : Option FormItem :=
  match s.flag with
  | .form => some ⟨s.name, s.word, false⟩
  | .formString => some ⟨s.name, s.word, true⟩
  | _ => none

end Setting

/-! ## What settings give together -/

namespace Draft

/-- The value of the last setting with this flag. -/
def lastWord? (flag : Flag) (settings : List Setting) : Option Word :=
  ((settings.filter fun s => s.flag == flag).getLast?).map Setting.word

/-- Is the switch on? The last setting with this flag decides. -/
def isOn (flag : Flag) (settings : List Setting) : Bool :=
  match (settings.filter fun s => s.flag == flag).getLast? with
  | some s => !s.negated
  | none => false

/-- The header fields that settings add, in order. -/
def fieldsOf (settings : List Setting) : Headers :=
  (settings.filterMap Setting.headerField?).filterMap Except.toOption

/-- The draft of settings, each part from the settings of one class. -/
def ofSettings (settings : List Setting) : Draft where
  url := lastWord? .url settings
  method := (lastWord? .method settings).map Setting.methodOf
  fields := fieldsOf settings
  credentials := (lastWord? .user settings).map Setting.credentialsOf
  data := settings.filterMap Setting.dataItem?
  forms := settings.filterMap Setting.formItem?
  upload := lastWord? .uploadFile settings
  inQuery := isOn .get settings
  head := isOn .head settings

theorem lastWord?_append (flag : Flag) (front back : List Setting) :
    lastWord? flag (front ++ back) = (lastWord? flag back).or (lastWord? flag front) := by
  unfold lastWord?
  rw [List.filter_append, List.getLast?_append]
  cases (back.filter fun s => s.flag == flag).getLast? with
  | none => rfl
  | some s => rfl

/-- One more setting has the last word of its own flag, and of no other. -/
theorem lastWord?_concat (flag : Flag) (settings : List Setting) (s : Setting) :
    lastWord? flag (settings ++ [s]) =
      if s.flag = flag then some s.word else lastWord? flag settings := by
  rw [lastWord?_append]
  by_cases h : s.flag = flag
  · rw [if_pos h]
    simp [lastWord?, h]
  · rw [if_neg h]
    simp [lastWord?, h]

theorem isOn_concat (flag : Flag) (settings : List Setting) (s : Setting) :
    isOn flag (settings ++ [s]) = if s.flag = flag then !s.negated else isOn flag settings := by
  unfold isOn
  rw [List.filter_append, List.getLast?_append]
  by_cases h : s.flag = flag
  · rw [if_pos h]
    simp [h]
  · rw [if_neg h]
    simp [h]

theorem fieldsOf_concat (settings : List Setting) (s : Setting) :
    fieldsOf (settings ++ [s]) =
      fieldsOf settings ++ (s.headerField?.bind Except.toOption).toList := by
  unfold fieldsOf
  rw [List.filterMap_append, List.filterMap_append]
  cases h : s.headerField? with
  | none => simp [h]
  | some field => cases field <;> simp [h, Except.toOption]

theorem ofSettings_nil : ofSettings [] = empty := rfl

/-- What one more setting changes in the draft of those before it. -/
theorem ofSettings_concat (settings : List Setting) (s : Setting) :
    ofSettings (settings ++ [s]) =
      { url := if s.flag = .url then some s.word else (ofSettings settings).url
        method := if s.flag = .method then some (Setting.methodOf s.word)
          else (ofSettings settings).method
        fields := (ofSettings settings).fields ++ (s.headerField?.bind Except.toOption).toList
        credentials := if s.flag = .user then some (Setting.credentialsOf s.word)
          else (ofSettings settings).credentials
        data := (ofSettings settings).data ++ s.dataItem?.toList
        forms := (ofSettings settings).forms ++ s.formItem?.toList
        upload := if s.flag = .uploadFile then some s.word else (ofSettings settings).upload
        inQuery := if s.flag = .get then !s.negated else (ofSettings settings).inQuery
        head := if s.flag = .head then !s.negated else (ofSettings settings).head } := by
  have hone {β : Type} (f : Setting → Option β) : [s].filterMap f = (f s).toList := by
    cases h : f s <;> simp [h]
  simp only [ofSettings, lastWord?_concat, isOn_concat, fieldsOf_concat, List.filterMap_append,
    hone, apply_ite (Option.map _), Option.map_some]

/-! ## One setting -/

/-- One more setting, read into the draft of those before it, makes the draft of all of them and
gives its warning, unless it is a blank method. -/
theorem read_ofSettings (settings : List Setting) (s : Setting) :
    (ofSettings settings).read s =
      if s.asksForEmptyMethod then .fail (.invalidArgument s.name .emptyMethod)
      else ⟨.ok (ofSettings (settings ++ [s])), s.warning?.toList⟩ := by
  rw [ofSettings_concat]
  generalize ofSettings settings = d
  cases hflag : s.flag with
  | method =>
    -- the one setting that may end the reading
    cases hblank : s.word.trim.isEmpty <;>
      simp [read, Setting.asksForEmptyMethod, Setting.headerField?, Setting.dataItem?,
        Setting.formItem?, Setting.warning?, Outcome.ok, hflag, hblank]
  | header =>
    cases hfield : Header.read s.word <;>
      simp [read, addField, Setting.asksForEmptyMethod, Setting.headerField?, Setting.dataItem?,
        Setting.formItem?, Setting.warning?, Except.toOption, Outcome.ok, hflag, hfield]
  | cookie =>
    cases hfield : s.word.contains '=' <;>
      simp [read, addField, Setting.asksForEmptyMethod, Setting.headerField?, Setting.dataItem?,
        Setting.formItem?, Setting.warning?, Except.toOption, Outcome.ok, hflag, hfield]
  | _ =>
    simp [read, addField, Setting.asksForEmptyMethod, Setting.headerField?, Setting.dataItem?,
      Setting.formItem?, Setting.warning?, Except.toOption, Outcome.ok, hflag]

end Draft

/-! ## All settings -/

namespace Request

/-- The reading of settings one by one: their warnings, up to the first method option with a blank
value, which ends it. -/
def readSettings (settings : List Setting) : Outcome Unit :=
  (Outcome.warn ((settings.takeWhile fun s => !s.asksForEmptyMethod).filterMap
    Setting.warning?)).andThen fun _ =>
      match settings.find? Setting.asksForEmptyMethod with
      | some s => .fail (.invalidArgument s.name .emptyMethod)
      | none => .ok ()

theorem readSettings_cons (s : Setting) (rest : List Setting) :
    readSettings (s :: rest) =
      if s.asksForEmptyMethod then .fail (.invalidArgument s.name .emptyMethod)
      else (Outcome.warn s.warning?.toList).andThen fun _ => readSettings rest := by
  unfold readSettings
  rw [List.takeWhile_cons, List.find?_cons]
  cases s.asksForEmptyMethod with
  | true => rfl
  | false =>
    have hwarn (a b : List Warning) : Outcome.warn (a ++ b) =
        (Outcome.warn a).andThen fun _ => Outcome.warn b := rfl
    have hfirst (accepted : List Setting) : (s :: accepted).filterMap Setting.warning? =
        s.warning?.toList ++ accepted.filterMap Setting.warning? := by
      cases h : s.warning? <;> simp [h]
    simp only [Bool.not_false, if_true, Bool.false_eq_true, if_false, hfirst, hwarn,
      Outcome.andThen_assoc]

end Request

namespace Draft

/-- A run over settings, begun in the draft of those before them, ends in the draft of all, or
where the first blank method stands. -/
theorem readAll_ofSettings (before settings : List Setting) :
    (ofSettings before).readAll settings =
      (Request.readSettings settings).andThen fun _ => .ok (ofSettings (before ++ settings)) := by
  induction settings generalizing before with
  | nil =>
    rw [List.append_nil]
    rfl
  | cons s rest ih =>
    rw [readAll, read_ofSettings, Request.readSettings_cons]
    cases s.asksForEmptyMethod with
    | true => rfl
    | false =>
      -- the draft of all settings so far is where the rest of the run begins
      have hnext := ih (before ++ [s])
      rw [List.append_assoc, List.singleton_append] at hnext
      rw [if_neg Bool.false_ne_true, if_neg Bool.false_ne_true, Outcome.andThen_assoc, ← hnext]
      rfl

/-- The whole run. -/
theorem readAll_empty (settings : List Setting) :
    empty.readAll settings =
      (Request.readSettings settings).andThen fun _ => .ok (ofSettings settings) := by
  rw [← ofSettings_nil]
  exact readAll_ofSettings [] settings

end Draft

namespace Request

/-- Settings that can be read make the request of their draft. -/
theorem ofSettings_eq_readSettings (settings : List Setting) :
    ofSettings settings =
      (readSettings settings).andThen fun _ => (Draft.ofSettings settings).request := by
  rw [ofSettings, Draft.readAll_empty, Outcome.andThen_assoc]
  refine congrArg (Outcome.andThen _) (funext fun _ => ?_)
  rfl

end Request
end CurlScribe
