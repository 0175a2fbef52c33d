import CurlScribe.Word.Basic

/-!
# Generated code

What the styles share: the operands that a word becomes, code as fixed text with quoted text in
between, and the finished source with what it needs. How text is quoted is the only thing that may
depend on the text, so code is kept apart from it until the end.
-/

namespace CurlScribe

/-! ## Operands -/

/-- A part of the expression for a word: literal text, or the look-up of a variable. -/
inductive Operand where
  | literal (t : Text)
  | lookup (name : Text)
deriving DecidableEq, Repr, Inhabited

def Operand.ofPart : WordPart → Operand
  | .text t => .literal t
  | .reference r => .lookup r.name

/-- The operands whose values in a row are the value of the word; there is always one. -/
def Word.operands (w : Word) : List Operand :=
  if w.isEmpty then [.literal []] else w.parts.map Operand.ofPart

/-! ## Code -/

/-- A stretch of code: as it stands, or text to be quoted. -/
inductive Piece where
  | code (t : Text)
  | quoted (t : Text)
deriving DecidableEq, Repr, Inhabited

/-- Code as a row of stretches. -/
abbrev Code := List Piece

namespace Code

/-- Code as it stands. -/
def fixed (s : String) : Code := [.code s.toList]

/-- Quoted text. -/
def quoted (t : Text) : Code := [.quoted t]

/-- Stretches of code with `sep` between them. -/
def join (sep : String) (codes : List Code) : Code := (fixed sep).intercalate codes

/-- Codes between parentheses with commas between them. -/
def arguments (codes : List Code) : Code := fixed "(" ++ join ", " codes ++ fixed ")"

/-- The text of code in a language that quotes by `quote`. -/
def text (quote : Text → Text) (code : Code) : Text :=
  code.flatMap fun
    | .code t => t
    | .quoted t => quote t

end Code

/-! ## Imports -/

section Sorting

variable {α : Type} (key : α → Text)

/-- An entry put in front of the first one whose key does not come before its own. -/
def insertSorted (a : α) : List α → List α
  | [] => [a]
  | b :: rest => if key b < key a then b :: insertSorted a rest else a :: b :: rest

/-- The entries without those that stand right before their like. -/
def dropRepeats [DecidableEq α] : List α → List α
  | a :: b :: rest => if a = b then dropRepeats (b :: rest) else a :: dropRepeats (b :: rest)
  | short => short

/-- The entries in the order of their keys, each of them once. -/
def sortedOnce [DecidableEq α] (entries : List α) : List α :=
  dropRepeats (entries.foldr (insertSorted key) [])

end Sorting

/-! ## Sources -/

/-- A generated source, the modules that it imports in sorted order, and the packages beyond the
language's own library that it needs. -/
structure Source where
  text : Text
  imports : List Text
  dependencies : List Text
deriving DecidableEq, Repr, Inhabited

end CurlScribe
