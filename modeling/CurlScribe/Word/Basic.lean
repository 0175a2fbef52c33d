import CurlScribe.Text.CharClass

/-!
# Words

A word is what one argument of a command becomes once its quotes are removed: literal text that may
refer to environment variables. References are kept as data, so that a generated program can look
the variables up when it runs.

A word is in normal form when no part is empty text and no two neighbouring parts are text. The
operations below build normal words only, and two normal words that spell the same are equal.
-/

namespace CurlScribe

/-- A reference to an environment variable, as the command writes it. -/
structure Reference where
  name : Text
  braced : Bool
deriving DecidableEq, Repr, Inhabited

namespace Reference

/-- The reference as it stands in a command: `$NAME` or `${NAME}`. -/
def written (r : Reference) : Text :=
  if r.braced then '$' :: '{' :: (r.name ++ ['}']) else '$' :: r.name

end Reference

/-- A run of literal text or one reference. -/
inductive WordPart where
  | text (t : Text)
  | reference (r : Reference)
deriving DecidableEq, Repr, Inhabited

/-- Literal text interleaved with references to environment variables. -/
structure Word where
  parts : List WordPart
deriving DecidableEq, Repr, Inhabited

/-! ## Lists of parts -/

namespace WordPart

/-- The parts of a text alone: none if it is empty. -/
def ofText (t : Text) : List WordPart := if t.isEmpty then [] else [.text t]

/-- Text added at the end, joined to a text that already stands there. -/
def pushText (t : Text) : List WordPart → List WordPart
  | [] => ofText t
  | [.text s] => [.text (s ++ t)]
  | p :: rest => p :: pushText t rest

/-- One part added at the end. -/
def push (parts : List WordPart) : WordPart → List WordPart
  | .text t => pushText t parts
  | .reference r => parts ++ [.reference r]

end WordPart

namespace Word

/-! ## Building words -/

/-- The word without any text. -/
def empty : Word := ⟨[]⟩

/-- A word of literal text only. -/
def ofText (t : Text) : Word := ⟨WordPart.ofText t⟩

/-- A word of literal text only, given as a string. -/
def ofString (s : String) : Word := ofText s.toList

/-- A word that is one reference. -/
def ofReference (r : Reference) : Word := ⟨[.reference r]⟩

/-- Literal text added at the end. -/
def pushText (w : Word) (t : Text) : Word := ⟨WordPart.pushText t w.parts⟩

/-- One literal character added at the end. -/
def pushChar (w : Word) (c : Char) : Word := w.pushText [c]

/-- A reference added at the end. -/
def pushReference (w : Word) (r : Reference) : Word := ⟨w.parts ++ [.reference r]⟩

/-- The parts of the second word added after the first. -/
def append (v w : Word) : Word := ⟨w.parts.foldl WordPart.push v.parts⟩

instance : Append Word := ⟨append⟩

/-- The word whose parts are the given ones, brought into normal form. -/
def ofParts (parts : List WordPart) : Word := ⟨parts.foldl WordPart.push []⟩

/-! ## Questions about words -/

def isEmpty (w : Word) : Bool := w.parts.isEmpty

/-- Does the word refer to a variable at all? -/
def hasReference (w : Word) : Bool :=
  w.parts.any fun
    | .text _ => false
    | .reference _ => true

/-- The text of a word without references. -/
def literal? (w : Word) : Option Text :=
  match w.parts with
  | [] => some []
  | [.text t] => some t
  | _ => none

/-- Is the word exactly this literal text? -/
def isText (w : Word) (t : Text) : Bool := w.literal? == some t

/-- Is the word literal text that equals `t` up to the case of ASCII letters? -/
def isTextIgnoringCase (w : Word) (t : Text) : Bool :=
  match w.literal? with
  | some s => Text.sameIgnoringCase s t
  | none => false

/-- The references of the word in order. -/
def references (w : Word) : List Reference :=
  w.parts.filterMap fun
    | .text _ => none
    | .reference r => some r

/-- The names of the variables that the word refers to, in order. -/
def variableNames (w : Word) : List Text := w.references.map Reference.name

/-- The text of the word with `placeholder` for every reference. -/
def shape (placeholder : Text) (w : Word) : Text :=
  w.parts.flatMap fun
    | .text t => t
    | .reference _ => placeholder

/-- The word as a command would write it without any quoting. -/
def written (w : Word) : Text :=
  w.parts.flatMap fun
    | .text t => t
    | .reference r => r.written

/-- Does the word begin with the literal character `c`? -/
def startsWith (c : Char) (w : Word) : Bool :=
  match w.parts with
  | .text (d :: _) :: _ => d == c
  | _ => false

/-- Does the literal character `c` occur in the word? -/
def contains (c : Char) (w : Word) : Bool :=
  w.parts.any fun
    | .text t => t.contains c
    | .reference _ => false

/-- Apply `f` to every run of literal text. -/
def mapText (f : Text → Text) (w : Word) : Word :=
  ofParts (w.parts.map fun
    | .text t => .text (f t)
    | .reference r => .reference r)

end Word
end CurlScribe
