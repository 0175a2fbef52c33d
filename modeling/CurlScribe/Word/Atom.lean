import CurlScribe.Word.Basic

/-!
# Words as atoms

The flat view of a word: its literal characters and its references, one after the other. A word is
determined by its atoms once it is in normal form.
-/

namespace CurlScribe

/-- A literal character or a reference. -/
inductive Atom where
  | char (c : Char)
  | reference (r : Reference)
deriving DecidableEq, Repr, Inhabited

namespace WordPart

/-- The atoms of one part. -/
def atoms : WordPart → List Atom
  | .text t => t.map .char
  | .reference r => [.reference r]

/-- An atom put in front of parts, joined to a text that already stands there. -/
def consAtom : Atom → List WordPart → List WordPart
  | .char c, .text t :: rest => .text (c :: t) :: rest
  | .char c, parts => .text [c] :: parts
  | .reference r, parts => .reference r :: parts

end WordPart

namespace Word

/-- The literal characters and references of a word in order. -/
def atoms (w : Word) : List Atom := w.parts.flatMap WordPart.atoms

/-- The word in normal form with the given atoms. -/
def ofAtoms (as : List Atom) : Word := ⟨as.foldr WordPart.consAtom []⟩

end Word
end CurlScribe
