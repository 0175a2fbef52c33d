import CurlScribe.Shell.Fragment

/-!
# The grammar of commands

What a command is, said without scanning it. Each relation takes the input, what its front denotes,
and the input after that front: `Fragment input as rest` says that `input` is one fragment that
denotes the atoms `as`, followed by `rest`. The rest is part of every relation because it decides
where a name, a run of digits or a word ends, and whether a backslash begins a continuation.
-/

namespace CurlScribe
namespace Shell
namespace Grammar

/-- The characters that end a word where they stand without quotes. -/
def separators : List Char := [' ', '\t', '\r', '\n']

/-- A backslash before a line break. -/
inductive Continuation : Text → Text → Prop
  | lineFeed (rest : Text) : Continuation ('\\' :: '\n' :: rest) rest
  | carriageReturn (rest : Text) : Continuation ('\\' :: '\r' :: '\n' :: rest) rest

/-! ## Dollars -/

/-- What stands after the dollar of a reference: a name, taken as long as possible, or a name
between braces. -/
inductive VariableName : Text → Reference → Text → Prop
  | plain {name rest : Text} (isName : Text.isName name = true)
      (isLongest : ∀ c more, rest = c :: more → Text.isNameChar c = false) :
      VariableName (name ++ rest) ⟨name, false⟩ rest
  | braced {name : Text} (rest : Text) (isName : Text.isName name = true) :
      VariableName ('{' :: (name ++ '}' :: rest)) ⟨name, true⟩ rest

/-- What stands after a dollar that opens no string: the rest of a reference, or nothing, when no
reference can begin here and the dollar denotes itself. -/
inductive Dollar : Text → Atom → Text → Prop
  | reference {input rest : Text} {r : Reference} (isVariable : VariableName input r rest) :
      Dollar input (.reference r) rest
  | lone {rest : Text}
      (noName : ∀ c more, rest = c :: more → c ≠ '{' ∧ Text.isNameStart c = false) :
      Dollar rest (.char '$') rest

/-! ## Escapes of `$'...'` strings -/

/-- The escapes of one letter and the characters that they denote. -/
def letterEscapes : List (Char × Char) := [
  ('n', '\n'), ('t', '\t'), ('r', '\r'), ('a', '\x07'), ('b', '\x08'), ('e', '\x1b'),
  ('E', '\x1b'), ('f', '\x0c'), ('v', '\x0b'), ('\\', '\\'), ('\'', '\''), ('"', '"'), ('?', '?')]

/-- The letters that hexadecimal digits follow, and how many may follow. -/
def hexEscapes : List (Char × Nat) := [('x', 2), ('u', 4), ('U', 8)]

/-- A run of one to `limit` digits, as many as there are, with the values `ds`. -/
structure DigitRun (value? : Char → Option Nat) (limit : Nat) (input : Text) (ds : List Nat)
    (rest : Text) : Prop where
  nonempty : ds ≠ []
  bounded : ds.length ≤ limit
  digits : ∃ run, input = run ++ rest ∧ run.map value? = ds.map some
  isLongest : ds.length = limit ∨ ∀ c more, rest = c :: more → value? c = none

/-- What stands after a backslash in a `$'...'` string, and the text that both denote. -/
inductive AnsiEscape : Text → Text → Text → Prop
  | letter {c d : Char} (rest : Text) (isEscape : (c, d) ∈ letterEscapes) :
      AnsiEscape (c :: rest) [d] rest
  | hexadecimal {c d : Char} {limit : Nat} {input rest : Text} {ds : List Nat}
      (isEscape : (c, limit) ∈ hexEscapes) (run : DigitRun Text.hexValue? limit input ds rest)
      (codePoint : d.toNat = ofDigits 16 ds) : AnsiEscape (c :: input) [d] rest
  | octal {d : Char} {input rest : Text} {ds : List Nat}
      (run : DigitRun Text.octalValue? 3 input ds rest) (codePoint : d.toNat = ofDigits 8 ds) :
      AnsiEscape input [d] rest
  | other {c : Char} (rest : Text) (noLetter : ∀ d, (c, d) ∉ letterEscapes)
      (noHex : ∀ limit, (c, limit) ∉ hexEscapes) (noOctal : Text.octalValue? c = none) :
      AnsiEscape (c :: rest) ['\\', c] rest

/-! ## Quoted strings, after their opening quotes -/

/-- The rest of a `"..."` string. -/
inductive DoubleQuoted : Text → List Atom → Text → Prop
  | close (rest : Text) : DoubleQuoted ('"' :: rest) [] rest
  | escape {c : Char} {input rest : Text} {as : List Atom} (isEscape : c ∈ ['"', '\\', '$', '\x60'])
      (tail : DoubleQuoted input as rest) : DoubleQuoted ('\\' :: c :: input) (.char c :: as) rest
  | continuation {input next rest : Text} {as : List Atom} (isContinuation : Continuation input next)
      (tail : DoubleQuoted next as rest) : DoubleQuoted input as rest
  | backslash {c : Char} {input rest : Text} {as : List Atom}
      (noEscape : c ∉ ['"', '\\', '$', '\x60'])
      (noContinuation : ∀ next, ¬ Continuation ('\\' :: c :: input) next)
      (tail : DoubleQuoted (c :: input) as rest) :
      DoubleQuoted ('\\' :: c :: input) (.char '\\' :: as) rest
  | dollar {a : Atom} {input next rest : Text} {as : List Atom} (isDollar : Dollar input a next)
      (tail : DoubleQuoted next as rest) : DoubleQuoted ('$' :: input) (a :: as) rest
  | plain {c : Char} {input rest : Text} {as : List Atom} (isPlain : c ∉ ['"', '\\', '$'])
      (tail : DoubleQuoted input as rest) : DoubleQuoted (c :: input) (.char c :: as) rest

/-- The rest of a `$'...'` string. -/
inductive AnsiQuoted : Text → List Atom → Text → Prop
  | close (rest : Text) : AnsiQuoted ('\'' :: rest) [] rest
  | escape {input cs next rest : Text} {as : List Atom} (isEscape : AnsiEscape input cs next)
      (tail : AnsiQuoted next as rest) : AnsiQuoted ('\\' :: input) (cs.map .char ++ as) rest
  | plain {c : Char} {input rest : Text} {as : List Atom} (isPlain : c ∉ ['\'', '\\'])
      (tail : AnsiQuoted input as rest) : AnsiQuoted (c :: input) (.char c :: as) rest

/-! ## Words -/

/-- One fragment of a word. -/
inductive Fragment : Text → List Atom → Text → Prop
  | plain {c : Char} (rest : Text) (isPlain : c ∉ separators ++ ['\'', '"', '\\', '$']) :
      Fragment (c :: rest) [.char c] rest
  | escaped {c : Char} {rest : Text}
      (noContinuation : ∀ next, ¬ Continuation ('\\' :: c :: rest) next) :
      Fragment ('\\' :: c :: rest) [.char c] rest
  | continuation {input rest : Text} (isContinuation : Continuation input rest) :
      Fragment input [] rest
  | singleQuoted {inside : Text} (rest : Text) (noQuote : '\'' ∉ inside) :
      Fragment ('\'' :: (inside ++ '\'' :: rest)) (inside.map .char) rest
  | doubleQuoted {input rest : Text} {as : List Atom} (isQuoted : DoubleQuoted input as rest) :
      Fragment ('"' :: input) as rest
  | localized {input rest : Text} {as : List Atom} (isQuoted : DoubleQuoted input as rest) :
      Fragment ('$' :: '"' :: input) as rest
  | ansiQuoted {input rest : Text} {as : List Atom} (isQuoted : AnsiQuoted input as rest) :
      Fragment ('$' :: '\'' :: input) as rest
  | dollar {a : Atom} {input rest : Text}
      (noQuote : ∀ c more, input = c :: more → c ≠ '\'' ∧ c ≠ '"') (isDollar : Dollar input a rest) :
      Fragment ('$' :: input) [a] rest

/-- Fragments in a row. -/
inductive Fragments : Text → List Atom → Text → Prop
  | nil (rest : Text) : Fragments rest [] rest
  | cons {input next rest : Text} {as bs : List Atom} (head : Fragment input as next)
      (tail : Fragments next bs rest) : Fragments input (as ++ bs) rest

/-- A word that is as long as possible: at least one fragment, where no comment and no continuation
begins, and then the end of the input or a separator. -/
structure MaximalWord (input : Text) (as : List Atom) (rest : Text) : Prop where
  noComment : ∀ more, input ≠ '#' :: more
  noContinuation : ∀ next, ¬ Continuation input next
  fragments : ∃ bs next cs, Fragment input bs next ∧ Fragments next cs rest ∧ as = bs ++ cs
  isLongest : ∀ c more, rest = c :: more → c ∈ separators

/-! ## Commands -/

/-- Blanks in a row. A comment reaches up to the next line feed or the end of the input. -/
inductive Blanks : Text → Text → Prop
  | nil (rest : Text) : Blanks rest rest
  | separator {c : Char} {next rest : Text} (isSeparator : c ∈ separators)
      (tail : Blanks next rest) : Blanks (c :: next) rest
  | continuation {input next rest : Text} (isContinuation : Continuation input next)
      (tail : Blanks next rest) : Blanks input rest
  | comment {inside next rest : Text} (noLineFeed : '\n' ∉ inside) (tail : Blanks next rest) :
      Blanks ('#' :: (inside ++ '\n' :: next)) rest
  | lastComment {inside : Text} (noLineFeed : '\n' ∉ inside) : Blanks ('#' :: inside) []

/-- A command, and what its words denote: words with blanks before, between and after them. -/
inductive CommandLine : Text → List (List Atom) → Prop
  | done {input : Text} (blanks : Blanks input []) : CommandLine input []
  | word {input start rest : Text} {as : List Atom} {ds : List (List Atom)}
      (blanks : Blanks input start) (isWord : MaximalWord start as rest)
      (tail : CommandLine rest ds) : CommandLine input (as :: ds)

end Grammar
end Shell
end CurlScribe
