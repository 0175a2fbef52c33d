import CurlScribe.Proofs.Setting.Grammar
import CurlScribe.Proofs.Text.Runs

/-!
# What becomes of the words of a command

The settings of a command are well formed, say every word of it once and in order, and are read
back when they are written one by one. All of this is true group by group, and a command is a row
of groups.
-/

namespace CurlScribe

namespace FlagSpec

/-- The option that a name denotes as a command writes it, and whether the name turns it off. -/
def ofName? : Text → Option (FlagSpec × Bool)
  | '-' :: '-' :: name => ofLongOrNegated? name
  | ['-', c] => (ofShort? c).map fun spec => (spec, false)
  | _ => none

/-- A letter is found under its name, and is never negated. -/
theorem ofName?_short (o : Setting.Short) : ofName? o.name = some (o.spec, false) := by
  have hname : ofName? o.name = (ofShort? o.letter).map fun spec => (spec, false) := by
    unfold ofName? Setting.Short.name
    split
    next h => exact absurd (List.cons.inj (List.cons.inj h).2).1 o.letter_ne_dash
    next h => rw [(List.cons.inj (List.cons.inj h).2).1]
    next h => exact absurd rfl (h o.letter)
  rw [hname, o.denotes]
  rfl

/-- An option is found by its own long name. -/
theorem long_eq_of_ofLong? {name : Text} {spec : FlagSpec} (h : ofLong? name = some spec) :
    spec.long = name := by
  simpa using List.find?_some h

/-- A name that turns an option off is the long name of a switch behind `--no-`. -/
theorem eq_of_ofName?_negated {name : Text} {spec : FlagSpec}
    (h : ofName? name = some (spec, true)) :
    ofLong? spec.long = some spec ∧ spec.takesValue = false ∧
      name = "--no-".toList ++ spec.long := by
  unfold ofName? at h
  split at h
  next name =>
    unfold ofLongOrNegated? at h
    split at h
    next => cases h
    next =>
      split at h
      next found hfound =>
        obtain ⟨off, hoff, hlong⟩ := Option.bind_eq_some_iff.1 hfound
        split at h
        next => cases h
        next htakes =>
          cases h
          obtain rfl := long_eq_of_ofLong? hlong
          exact ⟨hlong, by simpa using htakes, by rw [Text.stripPrefix?_eq_some hoff]; rfl⟩
      next => cases h
  next =>
    obtain ⟨found, -, heq⟩ := Option.map_eq_some_iff.1 h
    cases heq
  next => cases h

end FlagSpec

namespace Setting

/-! ## Well-formed settings -/

/-- A URL without a name, or a setting whose name denotes an option of its flag, with a value if
that option takes one. -/
inductive IsWellFormed : Setting → Prop
  | positional (url : Word) : IsWellFormed (positional url)
  | named {s : Setting} {spec : FlagSpec}
    (denotes : FlagSpec.ofName? s.name = some (spec, s.negated)) (flag : s.flag = spec.flag)
    (value : s.value.isSome = spec.takesValue) : IsWellFormed s

/-- The words that say a setting: its name unless it is positional, and its value. -/
def said (s : Setting) : List Word :=
  (if s.name = [] then [] else [Word.ofText s.name]) ++ s.value.toList

/-- The setting with the name `--url` if it is positional. -/
def spelledOut (s : Setting) : Setting :=
  if s.name = [] then { s with name := "--url".toList } else s

/-- The setting of a letter is well-formed if it has a value just when the letter takes one. -/
theorem IsWellFormed.short (o : Short) {value : Option Word}
    (h : value.isSome = o.spec.takesValue) : (o.setting value).IsWellFormed :=
  .named (FlagSpec.ofName?_short o) rfl h

theorem isWellFormed_of_mem_turnedOn {switches : List Switch} {s : Setting}
    (h : s ∈ turnedOn switches) : s.IsWellFormed := by
  obtain ⟨o, -, rfl⟩ := List.mem_map.1 h
  exact .short o.toShort o.isSwitch.symm

theorem isWellFormed_of_mem_attached {switches : List Switch} {last : Taker} {value : Word}
    {s : Setting} (h : s ∈ turnedOn switches ++ [last.setting (some value)]) :
    s.IsWellFormed := by
  rcases List.mem_append.1 h with h | h
  · exact isWellFormed_of_mem_turnedOn h
  · obtain rfl := List.mem_singleton.1 h
    exact .short last.toShort last.takes.symm

/-- Every setting that a group of words describes is well-formed. -/
theorem Group.isWellFormed {g : Group} : ∀ s ∈ g.settings, s.IsWellFormed := by
  intro s hs
  cases g with
  | positional url plain =>
    obtain rfl := List.mem_singleton.1 hs
    exact .positional url
  | long option value takes =>
    obtain rfl := List.mem_singleton.1 hs
    exact .named option.denotes rfl takes
  | cluster switches nonempty => exact isWellFormed_of_mem_turnedOn hs
  | attached switches last value nonempty normal => exact isWellFormed_of_mem_attached hs
  | following switches last value => exact isWellFormed_of_mem_attached hs

theorem Line.isWellFormed {l : Line} : ∀ s ∈ l.settings, s.IsWellFormed := by
  intro s hs
  rcases List.mem_append.1 hs with hs | hs
  · obtain ⟨g, -, hs⟩ := List.mem_flatMap.1 hs
    exact g.isWellFormed s hs
  · obtain ⟨url, -, rfl⟩ := List.mem_map.1 hs
    exact .positional url

/-! ## Settings written one by one -/

/-- A setting with a name is read back from its words. -/
theorem ofWords_named {s : Setting} {spec : FlagSpec}
    (denotes : FlagSpec.ofName? s.name = some (spec, s.negated)) (hflag : s.flag = spec.flag)
    (hvalue : s.value.isSome = spec.takesValue) (rest : List Word) :
    ofWords (Word.ofText s.name :: (s.value.toList ++ rest)) = prepend [s] (ofWords rest) := by
  obtain ⟨_, name, value, negated⟩ := s
  obtain rfl := hflag
  dsimp only at denotes hvalue ⊢
  unfold FlagSpec.ofName? at denotes
  split at denotes
  next name => exact ofWords_long rest ⟨name, spec, negated, denotes⟩ value hvalue
  next =>
    obtain ⟨found, hfound, heq⟩ := Option.map_eq_some_iff.1 denotes
    cases heq
    exact ofWords_short rest ⟨_, spec, hfound⟩ value hvalue
  next => cases denotes

/-- A well-formed setting is read back from the words that say it, with `--url` in front of a
positional URL. -/
theorem ofWords_said {s : Setting} (h : s.IsWellFormed) (rest : List Word) :
    ofWords (s.spelledOut.said ++ rest) = prepend [s.spelledOut] (ofWords rest) := by
  cases h with
  | positional url => exact @ofWords_named (spelledOut _) (.value "url" none .url) rfl rfl rfl rest
  | named denotes flag value =>
    have hname : s.name ≠ [] := by
      intro hnil
      rw [hnil] at denotes
      cases denotes
    rw [spelledOut, if_neg hname, said, if_neg hname]
    exact ofWords_named denotes flag value rest

/-- Settings that are spelled out one by one are read back. -/
theorem ofWords_flatMap_said {settings : List Setting} (h : ∀ s ∈ settings, s.IsWellFormed) :
    ofWords (settings.flatMap fun s => s.spelledOut.said) = .ok (settings.map spelledOut) := by
  induction settings with
  | nil => rfl
  | cons s settings ih =>
    obtain ⟨hs, hsettings⟩ := List.forall_mem_cons.1 h
    rw [List.flatMap_cons, ofWords_said hs, ih hsettings]
    rfl

theorem urls_map_spelledOut (settings : List Setting) :
    urls (settings.map spelledOut) = urls settings := by
  have hflag (s : Setting) : s.spelledOut.flag = s.flag := by
    unfold spelledOut
    split <;> rfl
  have hword (s : Setting) : s.spelledOut.word = s.word := by
    unfold spelledOut
    split <;> rfl
  unfold urls
  rw [List.filter_map, List.map_map]
  simp only [Function.comp_def, hflag, hword]

/-! ## Words taken apart -/

/-- The words of the group with clusters taken apart into names of options and a value. -/
def Group.expanded : Group → List Word
  | positional url _ => [url]
  | long option value _ => Word.ofText option.written :: value.toList
  | cluster switches _ => switches.map fun o => Word.ofText o.name
  | attached switches last value _ _ =>
    (switches.map fun o => Word.ofText o.name) ++ [Word.ofText last.name, value]
  | following switches last value =>
    (switches.map fun o => Word.ofText o.name) ++ [Word.ofText last.name, value]

/-- The words of the command line with clusters taken apart and without the mark. -/
def Line.expanded (l : Line) : List Word :=
  l.groups.flatMap Group.expanded ++ l.behindMark.getD []

/-- What switches in one word say is what each says in a word of its own. -/
theorem flatMap_said_turnedOn (switches : List Switch) :
    (turnedOn switches).flatMap said = switches.map fun o => Word.ofText o.name := by
  induction switches with
  | nil => rfl
  | cons o switches ih => exact congrArg (Word.ofText o.name :: ·) ih

theorem flatMap_said_attached (switches : List Switch) (last : Taker) (value : Word) :
    (turnedOn switches ++ [last.setting (some value)]).flatMap said =
      (switches.map fun o => Word.ofText o.name) ++ [Word.ofText last.name, value] := by
  rw [List.flatMap_append, flatMap_said_turnedOn]
  rfl

/-- What a group says is what its words are taken apart into. -/
theorem Group.flatMap_said (g : Group) : g.settings.flatMap said = g.expanded := by
  cases g with
  | positional url plain => rfl
  | long option value takes => exact List.append_nil _
  | cluster switches nonempty => exact flatMap_said_turnedOn switches
  | attached switches last value nonempty normal => exact flatMap_said_attached switches last value
  | following switches last value => exact flatMap_said_attached switches last value

theorem Line.flatMap_said (l : Line) : l.settings.flatMap said = l.expanded := by
  have hgroups : (l.groups.flatMap Group.settings).flatMap said =
      l.groups.flatMap Group.expanded := by
    rw [List.flatMap_assoc]
    exact congrArg List.flatten (List.map_congr_left fun g _ => g.flatMap_said)
  rw [Line.settings, List.flatMap_append, hgroups, List.flatMap_map, Line.expanded]
  exact congrArg (_ ++ ·) (List.flatMap_pure_eq_map id _ |>.trans (List.map_id _))

/-! ## The account of a command -/

/-- How the settings of a command account for its words. -/
structure IsAccountedFor (words : List Word) (settings : List Setting) : Prop where
  /-- One setting is a URL, and no other. -/
  oneUrl : ∃ s, settings.filter (fun s => s.flag == .url) = [s]
  wellFormed : ∀ s ∈ settings, s.IsWellFormed
  /-- What is negated is a switch that is written with `--no-`. -/
  negated : ∀ s ∈ settings, s.negated = true → ∃ spec : FlagSpec,
    FlagSpec.ofLong? spec.long = some spec ∧ spec.takesValue = false ∧ s.flag = spec.flag ∧
      s.name = "--no-".toList ++ spec.long ∧ s.value = none
  /-- Written one by one, the settings are read back. -/
  readBack : resolve (settings.flatMap fun s => s.spelledOut.said) = .ok (settings.map spelledOut)
  /-- The words say the settings in order and nothing else. -/
  said : ∃ l : Line, l.words = words ∧ l.settings = settings ∧
    settings.flatMap Setting.said = l.expanded

theorem exists_filter_url {settings : List Setting} {url : Word} (h : urls settings = [url]) :
    ∃ s, settings.filter (fun s => s.flag == .url) = [s] := by
  obtain ⟨s, hs, -⟩ := List.map_eq_singleton_iff.1 h
  exact ⟨s, hs⟩

/-- A negated setting is a long switch behind `no-`. -/
theorem IsWellFormed.eq_of_negated {s : Setting} (h : s.IsWellFormed)
    (hnegated : s.negated = true) :
    ∃ spec : FlagSpec, FlagSpec.ofLong? spec.long = some spec ∧ spec.takesValue = false ∧
      s.flag = spec.flag ∧ s.name = "--no-".toList ++ spec.long ∧ s.value = none := by
  cases h with
  | positional url => cases hnegated
  | @named _ spec denotes flag value =>
    rw [hnegated] at denotes
    obtain ⟨hlong, htakes, hname⟩ := FlagSpec.eq_of_ofName?_negated denotes
    exact ⟨spec, hlong, htakes, flag, hname, by simpa [htakes] using value⟩

/-- The settings that a command resolves to account for its words. Words are in normal form, as
all words of tokens are. -/
theorem isAccountedFor_of_resolve {words : List Word} {settings : List Setting}
    (hw : ∀ w ∈ words, w.IsNormal) (h : resolve words = .ok settings) :
    IsAccountedFor words settings := by
  obtain ⟨hwords, url, hurl⟩ := resolve_eq_ok.1 h
  obtain ⟨l, rfl, rfl⟩ := (ofWords_eq_ok hw).1 hwords
  exact {
    oneUrl := exists_filter_url hurl
    wellFormed := l.isWellFormed
    negated := fun s hs => (l.isWellFormed s hs).eq_of_negated
    readBack := resolve_eq_ok.2 ⟨ofWords_flatMap_said l.isWellFormed, url,
      (urls_map_spelledOut l.settings).trans hurl⟩
    said := ⟨l, rfl, rfl, l.flatMap_said⟩ }

/-- `-sXPOST -d$DATA --no-silent -- -x` says `-s`, `-X POST`, `-d $DATA`, `--no-silent` and the URL
`-x`. -/
theorem isAccountedFor_of_resolve_cluster :
    let value := Word.ofReference ⟨"DATA".toList, false⟩
    let words := [Word.ofString "-sXPOST", Word.ofString "-d" ++ value,
      Word.ofString "--no-silent", Word.ofString "--", Word.ofString "-x"]
    let settings : List Setting := [
      ⟨.ignored "silent".toList, "-s".toList, none, false⟩,
      ⟨.method, "-X".toList, some (Word.ofString "POST"), false⟩,
      ⟨.data .ascii, "-d".toList, some value, false⟩,
      ⟨.ignored "silent".toList, "--no-silent".toList, none, true⟩,
      positional (Word.ofString "-x")]
    resolve words = .ok settings ∧
      ∃ l : Line, l.words = words ∧
        l.expanded = [Word.ofString "-s", Word.ofString "-X", Word.ofString "POST",
          Word.ofString "-d", value, Word.ofString "--no-silent", Word.ofString "-x"] := by
  intro value words settings
  have hnormal : ∀ w ∈ words, w.IsNormal := by decide +kernel
  have hresolve : resolve words = .ok settings := by decide +kernel
  obtain ⟨l, hwords, -, hsaid⟩ := (isAccountedFor_of_resolve hnormal hresolve).said
  exact ⟨hresolve, l, hwords, hsaid.symm.trans (by decide +kernel)⟩

end Setting
end CurlScribe
