import CurlScribe.Conversion
import CurlScribe.Proofs.Setting.Grammar
import CurlScribe.Proofs.Shell.Printer

/-!
# Printing requests

The command that makes a request, with one option for everything that the request says. This module
defines it and shows that its words are read as the options that were printed; what request those
options make is another matter.
-/

namespace CurlScribe

/-! ## Options of a request -/

namespace Setting

/-- An option with a value. -/
def option (flag : Flag) (name : String) (value : Word) : Setting :=
  ⟨flag, name.toList, some value, false⟩

end Setting

open Setting (option)

namespace Header

/-- The field as the value of a header option. -/
def line (h : Header) : Word :=
  if h.value.isEmpty then h.name.pushChar ';' else h.name.pushText ": ".toList ++ h.value

end Header

namespace Credentials

/-- The credentials as the value of a user option. -/
def line (c : Credentials) : Word := c.user.pushChar ':' ++ c.password

end Credentials

namespace FormPart

/-- The option that adds the part. -/
def setting : FormPart → Setting
  | field name value => option .formString "--form-string" (name.pushChar '=' ++ value)
  | file name filename path =>
    option .form "-F"
      ((name.pushText "=@".toList ++ path).pushText ";filename=".toList ++ filename)
  | fileContent name path => option .form "-F" (name.pushText "=<".toList ++ path)

end FormPart

namespace Body

/-- The options that give the body. -/
def settings : Body → List Setting
  | empty => []
  | raw content _ => [option (.data .raw) "--data-raw" content]
  | urlEncoded pairs => [option (.data .raw) "--data-raw" (encoded pairs)]
  | multipart parts => parts.map FormPart.setting
  | file path none => [option .uploadFile "-T" path]
  | file path (some _) => [option (.data .binary) "--data-binary" (Word.ofString "@" ++ path)]

end Body

namespace Request

/-- The options of the printed request in order. -/
def settings (r : Request) : List Setting :=
  r.method.toList.map (option .method "-X") ++ r.headers.map (fun h => option .header "-H" h.line)
    ++ r.credentials.toList.map (fun c => option .user "-u" c.line) ++ r.body.settings
    ++ [option .url "--url" r.url]

/-- The request as a command. -/
def command (r : Request) : Text :=
  Text.join [' '] ("curl".toList :: r.settings.flatMap fun s => [s.name, s.word.quoted])

end Request

/-! ## Reading printed options -/

namespace Setting

/-- The meaning of the option called `name` if it takes a value. -/
def valueFlag? : Text → Option Flag
  | ['-', c] => ((FlagSpec.ofShort? c).filter FlagSpec.takesValue).map FlagSpec.flag
  | '-' :: '-' :: name => ((FlagSpec.ofLong? name).filter FlagSpec.takesValue).map FlagSpec.flag
  | _ => none

/-- An option and its value are read back whatever the value is, also if it looks like an option
itself. -/
theorem ofWords_cons {name : Text} {flag : Flag} (h : valueFlag? name = some flag) (value : Word)
    (rest : List Word) :
    ofWords (Word.ofText name :: value :: rest) =
      prepend [⟨flag, name, some value, false⟩] (ofWords rest) := by
  unfold valueFlag? at h
  split at h
  · next c =>
    obtain ⟨spec, hs, rfl⟩ := Option.map_eq_some_iff.1 h
    obtain ⟨hs, hv⟩ := Option.filter_eq_some_iff.1 hs
    exact ofWords_short rest ⟨c, spec, hs⟩ (some value) hv.symm
  · next name _ =>
    obtain ⟨spec, hs, rfl⟩ := Option.map_eq_some_iff.1 h
    obtain ⟨hs, hv⟩ := Option.filter_eq_some_iff.1 hs
    have hnegated : FlagSpec.ofLongOrNegated? name = some (spec, false) := by
      rw [FlagSpec.ofLongOrNegated?, hs]
    exact ofWords_long rest ⟨name, spec, false, hnegated⟩ (some value) hv.symm
  · exact absurd h (by simp)

/-- The characters that a command reads as themselves wherever they stand. -/
def isPlainChar (c : Char) : Bool := !("# \t\r\n'\"\\$".toList.contains c)

/-- An option that a command can say: its name is that of an option with a value, which is a normal
word, and needs no quotes. -/
structure IsPrintable (s : Setting) : Prop where
  eq_option : s = ⟨s.flag, s.name, some s.word, false⟩
  isOption : valueFlag? s.name = some s.flag
  isPlain : s.name.all isPlainChar = true
  isNormal : s.word.IsNormal
  hasNames : s.word.HasNames

theorem ofWords_settings {settings : List Setting} (h : ∀ s ∈ settings, s.IsPrintable) :
    ofWords (settings.flatMap fun s => [Word.ofText s.name, s.word]) = .ok settings := by
  induction settings with
  | nil => rfl
  | cons s settings ih =>
    have hs := h s List.mem_cons_self
    rw [List.flatMap_cons, List.cons_append, List.singleton_append, ofWords_cons hs.isOption,
      ← hs.eq_option, ih fun t ht => h t (List.mem_cons_of_mem _ ht)]
    rfl

open Shell Grammar

/-- A name without special characters spells itself. -/
theorem spells_name {t : Text} (hne : t ≠ []) (ht : t.all isPlainChar = true) :
    Spells t (t.map .char) := by
  cases t with
  | nil => exact absurd rfl hne
  | cons c t =>
    refine spells_plain ?_
    intro d hd hm
    have hplain := List.all_eq_true.1 ht d hd
    simp only [separators, List.mem_cons, List.mem_append, List.not_mem_nil, or_false] at hm
    rcases hm with rfl | (rfl | rfl | rfl | rfl) | rfl | rfl | rfl | rfl <;>
      exact absurd hplain (by decide)

theorem IsPrintable.name_ne_nil {s : Setting} (h : s.IsPrintable) : s.name ≠ [] := by
  intro hnil
  have ho := h.isOption
  rw [hnil] at ho
  exact absurd ho (by simp [valueFlag?])

/-- The words of the command that says the options, each with the atoms that it denotes. -/
def spelled (settings : List Setting) : List (Text × List Atom) :=
  ("curl".toList, "curl".toList.map .char) ::
    settings.flatMap fun s => [(s.name, s.name.map .char), (s.word.quoted, s.word.atoms)]

variable {settings : List Setting}

theorem spells_of_mem_spelled (h : ∀ s ∈ settings, s.IsPrintable) :
    ∀ p ∈ spelled settings, Spells p.1 p.2 := by
  intro p hp
  rcases List.mem_cons.1 hp with rfl | hp
  · exact spells_name (by decide) (by decide)
  · obtain ⟨s, hs, hm⟩ := List.mem_flatMap.1 hp
    have hprint := h s hs
    rcases List.mem_cons.1 hm with rfl | hm
    · exact spells_name hprint.name_ne_nil hprint.isPlain
    · obtain rfl := List.mem_singleton.1 hm
      exact spells_quoted hprint.hasNames

theorem map_fst_spelled (settings : List Setting) :
    (spelled settings).map Prod.fst =
      "curl".toList :: settings.flatMap fun s => [s.name, s.word.quoted] := by
  simp [spelled, List.map_flatMap]

/-- The words of the tokens: the name of the program, and the options with their values. -/
theorem map_ofAtoms_spelled (h : ∀ s ∈ settings, s.word.IsNormal) :
    ((spelled settings).map Prod.snd).map Word.ofAtoms =
      Word.ofText "curl".toList :: settings.flatMap fun s => [Word.ofText s.name, s.word] := by
  have hflat : (settings.flatMap fun s => [Word.ofAtoms (s.name.map .char),
      Word.ofAtoms s.word.atoms]) = settings.flatMap fun s => [Word.ofText s.name, s.word] := by
    refine congrArg List.flatten (List.map_congr_left ?_)
    intro s hs
    rw [Word.ofAtoms_atoms (h s hs), ← Word.ofText_eq_ofAtoms]
  simp [spelled, List.map_flatMap, hflat, Word.ofText_eq_ofAtoms]

end Setting

namespace Request

/-- A command that says options, one of them a URL, is read as these options. -/
theorem settingsOf_join {settings : List Setting} {url : Word}
    (h : ∀ s ∈ settings, s.IsPrintable) (hu : Setting.urls settings = [url]) :
    settingsOf (Text.join [' '] ("curl".toList :: settings.flatMap fun s =>
      [s.name, s.word.quoted])) = .ok settings := by
  have hline := Shell.commandLine_join (Setting.spells_of_mem_spelled h)
  obtain ⟨tokens, ht, hwords⟩ := Shell.tokenize_of_commandLine hline
  rw [Setting.map_fst_spelled] at ht
  rw [Setting.map_ofAtoms_spelled fun s hs => (h s hs).isNormal] at hwords
  unfold settingsOf
  rw [ht]
  show Setting.resolve (withoutProgram (tokens.map Shell.Token.word)) = _
  rw [hwords, withoutProgram, if_pos (by decide), Setting.resolve, Setting.ofWords_settings h]
  simp only [hu]

end Request
end CurlScribe
