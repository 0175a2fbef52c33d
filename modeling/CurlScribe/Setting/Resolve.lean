import CurlScribe.Error
import CurlScribe.Flag.Table
import CurlScribe.Setting.Basic

/-!
# From words to settings

A word that begins with a literal `-` and has more after it is a long option, or a cluster of short
ones of which the last may take the rest of the word as its value. Every other word is a URL, and
so is every word after `--`. A command has exactly one URL.
-/

namespace CurlScribe
namespace Setting

/-! ## Words that are options -/

/-- How a word is read. -/
inductive Role where
  /-- The URL. -/
  | url
  /-- The mark after which all words are URLs. -/
  | endOfOptions
  /-- An option by its long name, given without the dashes. -/
  | long (name : Text)
  /-- Short options: the literal text after the dash and the parts after that text. -/
  | cluster (letters : Text) (rest : List WordPart)
  /-- A long option that contains a reference. -/
  | unreadable
deriving DecidableEq, Repr

/-- The role of a word that stands where an option may stand. -/
def Role.ofWord (w : Word) : Role :=
  match w.parts with
  | [.text ['-']] => .url
  | [.text ['-', '-']] => .endOfOptions
  | [.text ('-' :: '-' :: name)] => .long name
  | .text ('-' :: '-' :: _) :: _ => .unreadable
  | .text ('-' :: letters) :: rest => .cluster letters rest
  | _ => .url

/-- What a cluster of short options comes to: its settings, and the option at its end that takes
the next word as its value, if there is one. -/
structure Cluster where
  settings : List Setting
  pending : Option (Flag × Text)
deriving DecidableEq, Repr

/-- Read the short options `letters` before the parts `rest`; `word` is the whole cluster. -/
def readCluster (word : Word) (rest : List WordPart) : Text → Except Error Cluster
  | [] => if rest.isEmpty then .ok ⟨[], none⟩ else .error (.unknownFlag word.written)
  | c :: letters =>
    match FlagSpec.ofShort? c with
    | none => .error (.unknownFlag ['-', c])
    | some spec =>
      if spec.takesValue then
        match WordPart.ofText letters ++ rest with
        | [] => .ok ⟨[], some (spec.flag, ['-', c])⟩
        | attached => .ok ⟨[⟨spec.flag, ['-', c], some ⟨attached⟩, false⟩], none⟩
      else
        match readCluster word rest letters with
        | .error e => .error e
        | .ok cluster =>
          .ok { cluster with settings := ⟨spec.flag, ['-', c], none, false⟩ :: cluster.settings }

/-! ## Whole commands -/

/-- Settings in front of those that the rest of a command comes to. -/
def prepend (settings : List Setting) : Except Error (List Setting) → Except Error (List Setting)
  | .ok others => .ok (settings ++ others)
  | .error e => .error e

/-- The settings that words come to, in order, without regard to how many URLs there are. -/
def ofWords : List Word → Except Error (List Setting)
  | [] => .ok []
  | w :: rest =>
    match Role.ofWord w with
    | .url => prepend [positional w] (ofWords rest)
    | .endOfOptions => .ok (rest.map positional)
    | .unreadable => .error (.unknownFlag w.written)
    | .long name =>
      let written := '-' :: '-' :: name
      match FlagSpec.ofLongOrNegated? name with
      | none => .error (.unknownFlag written)
      | some (spec, negated) =>
        if spec.takesValue then
          match rest with
          | [] => .error (.missingArgument written)
          | value :: rest => prepend [⟨spec.flag, written, some value, negated⟩] (ofWords rest)
        else prepend [⟨spec.flag, written, none, negated⟩] (ofWords rest)
    | .cluster letters parts =>
      match readCluster w parts letters with
      | .error e => .error e
      | .ok ⟨settings, none⟩ => prepend settings (ofWords rest)
      | .ok ⟨settings, some (flag, name)⟩ =>
        match rest with
        | [] => .error (.missingArgument name)
        | value :: rest => prepend (settings ++ [⟨flag, name, some value, false⟩]) (ofWords rest)

/-- The URLs among settings. -/
def urls (settings : List Setting) : List Word :=
  (settings.filter fun s => s.flag == .url).map word

/-- The settings that words come to, if exactly one of them is a URL. -/
def resolve (words : List Word) : Except Error (List Setting) :=
  match ofWords words with
  | .error e => .error e
  | .ok settings =>
    match urls settings with
    | [_] => .ok settings
    | [] => .error .missingUrl
    | first :: second :: _ => .error (.multipleUrls first second)

end Setting
end CurlScribe
