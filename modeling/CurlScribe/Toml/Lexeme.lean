import CurlScribe.Text.CharClass

/-!
# The small parts of TOML documents

Blanks, comments, keys and strings. Each reader answers with what it has read and the text after
it, or with nothing if the text is not well formed.
-/

namespace CurlScribe
namespace Toml

/-! ## Blanks and comments -/

def isBlank (c : Char) : Bool := c == ' ' || c == '\t'

def skipBlank (t : Text) : Text := t.dropWhile isBlank

/-- A character that may stand in comments and strings. -/
def isPlain (c : Char) : Bool := c == '\t' || !Text.isAsciiControl c

/-- The text after blanks, line ends and comments; `comment` tells whether it begins inside a
comment. -/
def skipLines : Bool → Text → Option Text
  | _, [] => some []
  | _, '\n' :: rest => skipLines false rest
  | _, '\r' :: '\n' :: rest => skipLines false rest
  | true, c :: rest => if isPlain c then skipLines true rest else none
  | false, '#' :: rest => skipLines true rest
  | false, c :: rest => if isBlank c then skipLines false rest else some (c :: rest)

/-- The text after the end of a line, which a comment may precede. -/
def endLine : Bool → Text → Option Text
  | _, [] => some []
  | _, '\n' :: rest => some rest
  | _, '\r' :: '\n' :: rest => some rest
  | true, c :: rest => if isPlain c then endLine true rest else none
  | false, '#' :: rest => endLine true rest
  | false, c :: rest => if isBlank c then endLine false rest else none

/-! ## Strings -/

/-- Text in front of what a reader has read. -/
def prepend (lead : Text) : Option (Text × Text) → Option (Text × Text)
  | some (t, rest) => some (lead ++ t, rest)
  | none => none

/-- The contents of a string between single quotes, after the first. -/
def literalString : Text → Option (Text × Text)
  | '\'' :: rest => some ([], rest)
  | c :: rest => if isPlain c then prepend [c] (literalString rest) else none
  | [] => none

/-- The contents of a string between three single quotes, after them. Up to two more quotes may
stand before the closing ones. -/
def longLiteralString : Text → Option (Text × Text)
  | '\'' :: '\'' :: '\'' :: '\'' :: '\'' :: rest => some (['\'', '\''], rest)
  | '\'' :: '\'' :: '\'' :: '\'' :: rest => some (['\''], rest)
  | '\'' :: '\'' :: '\'' :: rest => some ([], rest)
  | '\n' :: rest => prepend ['\n'] (longLiteralString rest)
  | '\r' :: '\n' :: rest => prepend ['\r', '\n'] (longLiteralString rest)
  | c :: rest => if isPlain c then prepend [c] (longLiteralString rest) else none
  | [] => none

/-- The character that an escape of one letter denotes. -/
def letterEscape? : Char → Option Char
  | 'b' => some '\x08'
  | 't' => some '\t'
  | 'n' => some '\n'
  | 'f' => some '\x0c'
  | 'r' => some '\r'
  | 'e' => some '\x1b'
  | '"' => some '"'
  | '\\' => some '\\'
  | _ => none

/-- How many hexadecimal digits follow an escape letter. -/
def hexEscapeSize? : Char → Option Nat
  | 'x' => some 2
  | 'u' => some 4
  | 'U' => some 8
  | _ => none

/-- The character with the code point that all of the digits spell. -/
def scalarOf? (digits : Text) : Option Char :=
  match digits.foldl (fun sum c => sum.bind fun n => (Text.hexValue? c).map fun d => n * 16 + d)
      (some 0) with
  | some n => if n.isValidChar then some (Char.ofNat n) else none
  | none => none

/-- The character that a backslash before the given text denotes. -/
def escape? : Text → Option (Char × Text)
  | [] => none
  | c :: rest =>
    match letterEscape? c with
    | some d => some (d, rest)
    | none =>
      match hexEscapeSize? c with
      | none => none
      | some size =>
        if rest.length < size then none
        else (scalarOf? (rest.take size)).map fun d => (d, rest.drop size)

theorem length_escape_lt {t rest : Text} {c : Char} (h : escape? t = some (c, rest)) :
    rest.length < t.length := by
  unfold escape? at h
  split at h
  · simp at h
  · split at h
    · simp only [Option.some.injEq, Prod.mk.injEq] at h
      simp [← h.2]
    · split at h
      · simp at h
      · split at h
        · simp at h
        · obtain ⟨d, -, hd⟩ := Option.map_eq_some_iff.1 h
          simp only [Prod.mk.injEq] at hd
          simp only [← hd.2, List.length_drop, List.length_cons]
          omega

/-- The contents of a string between double quotes, after the first. -/
def basicString : Text → Option (Text × Text)
  | '"' :: rest => some ([], rest)
  | '\\' :: rest =>
    match _h : escape? rest with
    | some (c, after) => prepend [c] (basicString after)
    | none => none
  | c :: rest => if isPlain c then prepend [c] (basicString rest) else none
  | [] => none
termination_by t => t.length
decreasing_by all_goals grind [→ length_escape_lt]

/-- Does nothing but blanks stand before the end of the line? -/
def endsLine (t : Text) : Bool :=
  match skipBlank t with
  | '\n' :: _ => true
  | '\r' :: '\n' :: _ => true
  | _ => false

/-- The contents of a string between three double quotes, after them. A backslash at the end of a
line takes all blanks and line ends up to the next character with it; `skipping` tells whether the
text begins after such a one. -/
def longBasicString (skipping : Bool) : Text → Option (Text × Text)
  | [] => none
  | '\n' :: rest =>
    if skipping then longBasicString true rest else prepend ['\n'] (longBasicString false rest)
  | '\r' :: '\n' :: rest =>
    if skipping then longBasicString true rest
    else prepend ['\r', '\n'] (longBasicString false rest)
  | '"' :: '"' :: '"' :: '"' :: '"' :: rest => some (['"', '"'], rest)
  | '"' :: '"' :: '"' :: '"' :: rest => some (['"'], rest)
  | '"' :: '"' :: '"' :: rest => some ([], rest)
  | '\\' :: rest =>
    if endsLine rest then longBasicString true rest
    else match _h : escape? rest with
      | some (c, after) => prepend [c] (longBasicString false after)
      | none => none
  | c :: rest =>
    if skipping && isBlank c then longBasicString true rest
    else if isPlain c then prepend [c] (longBasicString false rest)
    else none
termination_by t => t.length
decreasing_by all_goals grind [→ length_escape_lt]

/-- The text without a line end at its start. -/
def dropFirstLineEnd : Text → Text
  | '\n' :: rest => rest
  | '\r' :: '\n' :: rest => rest
  | t => t

/-- The string that a text begins with. -/
def string? : Text → Option (Text × Text)
  | '"' :: '"' :: '"' :: rest => longBasicString false (dropFirstLineEnd rest)
  | '"' :: rest => basicString rest
  | '\'' :: '\'' :: '\'' :: rest => longLiteralString (dropFirstLineEnd rest)
  | '\'' :: rest => literalString rest
  | _ => none

/-! ## Keys -/

/-- A character of a key without quotes. -/
def isBareKeyChar (c : Char) : Bool := c.isAlphanum || c == '_' || c == '-'

/-- The part of a key that a text begins with. -/
def simpleKey? : Text → Option (Text × Text)
  | '"' :: rest => basicString rest
  | '\'' :: rest => literalString rest
  | t =>
    match t.takeWhile isBareKeyChar with
    | [] => none
    | key => some (key, t.dropWhile isBareKeyChar)

/-- The parts of the key that a text begins with, of which there are at most `fuel`. -/
def keyParts? : Nat → Text → Option (List Text × Text)
  | 0, _ => none
  | fuel + 1, t =>
    match simpleKey? (skipBlank t) with
    | none => none
    | some (part, rest) =>
      match skipBlank rest with
      | '.' :: more =>
        (keyParts? fuel more).map fun (parts, after) => (part :: parts, after)
      | after => some ([part], after)

/-- Keys have at most this many parts. -/
def keyLimit : Nat := 80

/-- The dotted key that a text begins with, and the text after it and the blanks behind it. -/
def key? (t : Text) : Option (List Text × Text) :=
  match keyParts? (t.length + 1) t with
  | none => none
  | some (parts, after) => if parts.length ≤ keyLimit then some (parts, after) else none

end Toml
end CurlScribe
