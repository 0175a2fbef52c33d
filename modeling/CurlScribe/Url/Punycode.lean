import CurlScribe.Text.CharClass

/-!
# Punycode

Any label in ASCII: its ASCII characters, and then the others as numbers, each of which says how far
it is from the one before to the place and code point of the next. A number is written with 36
digits, from the lowest on; whether a digit ends it depends on thresholds that follow the size of
the numbers.
-/

namespace CurlScribe
namespace Punycode

/-! ## Digits and thresholds -/

/-- The digit with a value below 36. -/
def digit (value : Nat) : Char :=
  if value < 26 then Char.ofNat ('a'.toNat + value) else Char.ofNat ('0'.toNat + (value - 26))

/-- The value of a digit in lower case. -/
def digitValue? (c : Char) : Option Nat :=
  if 'a' ≤ c && c ≤ 'z' then some (c.toNat - 'a'.toNat)
  else if c.isDigit then some (c.toNat - '0'.toNat + 26)
  else none

/-- The threshold for a digit: those below it end a number. `place` grows by 36 with each digit. -/
def threshold (bias place : Nat) : Nat := min 26 (max 1 (place - bias))

theorem threshold_bounds (bias place : Nat) :
    1 ≤ threshold bias place ∧ threshold bias place ≤ 26 := by
  unfold threshold
  omega

/-- The number divided by 35 until it is at most 455, and 36 for each time. -/
def scaleDown (n steps : Nat) : Nat × Nat :=
  if 455 < n then scaleDown (n / 35) (steps + 36) else (n, steps)
termination_by n
decreasing_by exact Nat.div_lt_self (by omega) (by omega)

/-- The bias after a number, when `count` characters are there. -/
def adapt (n count : Nat) (isFirst : Bool) : Nat :=
  -- the first number spans all that lies below a script, later ones only steps within it
  let damped := if isFirst then n / 700 else n / 2
  let (rest, steps) := scaleDown (damped + damped / count) 0
  steps + 36 * rest / (rest + 38)

/-! ## Writing -/

/-- The digits of a number from `place` on. -/
def digitsFrom (bias place n : Nat) : Text :=
  let t := threshold bias place
  if n < t then [digit n]
  else digit (t + (n - t) % (36 - t)) :: digitsFrom bias (place + 36) ((n - t) / (36 - t))
termination_by n
decreasing_by
  have h := threshold_bounds bias place
  have : (n - threshold bias place) / (36 - threshold bias place) ≤ n - threshold bias place :=
    Nat.div_le_self _ _
  omega

/-- How far a label has been written: the digits, the number to be written next, the bias, and how
many characters are written and how many of them are ASCII. -/
structure Writer where
  digits : Text
  distance : Nat
  bias : Nat
  written : Nat
  ascii : Nat
deriving DecidableEq, Repr

namespace Writer

/-- Pass a character of the label while the characters with the code point `code` are written. -/
def pass (code : Nat) (w : Writer) (c : Char) : Writer :=
  if c.toNat < code then { w with distance := w.distance + 1 }
  else if c.toNat = code then
    { w with
      digits := w.digits ++ digitsFrom w.bias 36 w.distance
      distance := 0
      bias := adapt w.distance (w.written + 1) (w.written == w.ascii)
      written := w.written + 1 }
  else w

/-- Write the characters with the given code points, which grow from one to the next and are not
below `next`. -/
def writeAll (label : Text) (w : Writer) (next : Nat) : List Nat → Writer
  | [] => w
  | code :: rest =>
    -- each code point that is skipped could have stood at any of the places so far
    let reached := { w with distance := w.distance + (code - next) * (w.written + 1) }
    let passed := label.foldl (pass code) reached
    writeAll label { passed with distance := passed.distance + 1 } (code + 1) rest

end Writer

/-- A number put into a list that grows, unless it is there. -/
def insertCode (n : Nat) : List Nat → List Nat
  | [] => [n]
  | m :: rest =>
    if n < m then n :: m :: rest
    else if n = m then m :: rest
    else m :: insertCode n rest

/-- The code points of a label that are not ASCII, in order. -/
def codesOf (label : Text) : List Nat :=
  ((label.filter fun c => !Text.isAscii c).map Char.toNat).foldr insertCode []

/-- The coded form of a label. -/
def encode (label : Text) : Text :=
  let ascii := label.filter Text.isAscii
  let start : Writer := ⟨[], 0, 72, ascii.length, ascii.length⟩
  let lead := if ascii.isEmpty then [] else ascii ++ ['-']
  lead ++ (start.writeAll label 0x80 (codesOf label)).digits

/-! ## Reading -/

/-- How far a label has been read: its characters so far, the code point and the position that have
been reached, the position where the current number began, the weight and the place of its next
digit, and the bias. -/
structure Reader where
  label : Text
  code : Nat
  position : Nat
  start : Nat
  weight : Nat
  place : Nat
  bias : Nat
deriving DecidableEq, Repr

/-- Numbers are not larger than this. -/
def limit : Nat := 0x100000000

namespace Reader

/-- Put the character in that a number which ended at `position` leads to. -/
def insert? (r : Reader) (position : Nat) : Option Reader :=
  let count := r.label.length + 1
  let code := r.code + position / count
  let place := position % count
  if code.isValidChar then
    some { r with
      label := r.label.take place ++ Char.ofNat code :: r.label.drop place
      code := code
      position := place + 1
      start := place + 1
      weight := 1
      place := 36
      bias := adapt (position - r.start) count (r.start == 0) }
  else none

/-- Read one more digit. -/
def read? (r : Reader) (c : Char) : Option Reader :=
  match digitValue? c with
  | none => none
  | some value =>
    let position := r.position + value * r.weight
    let t := threshold r.bias r.place
    if position ≥ limit then none
    else if value < t then r.insert? position
    else if r.weight * (36 - t) ≥ limit then none
    else some { r with
      position := position, weight := r.weight * (36 - t), place := r.place + 36 }

/-- Read digits up to the end, which must be that of a number. -/
def readAll? (r : Reader) : Text → Option Text
  | [] => if r.place = 36 then some r.label else none
  | c :: rest =>
    match r.read? c with
    | none => none
    | some r => r.readAll? rest

end Reader

/-- The ASCII characters of a coded form, and its digits. -/
def parts (t : Text) : Text × Text :=
  match Text.splitLast (· == '-') t with
  | none => ([], t)
  | some ([], _) => ([], t)
  | some (ascii, digits) => (ascii, digits)

/-- The label that a text is the coded form of. -/
def decode? (t : Text) : Option Text :=
  let (ascii, digits) := parts t
  if ascii.all Text.isAscii then
    Reader.readAll? ⟨ascii, 0x80, 0, 0, 1, 36, 72⟩ digits
  else none

end Punycode
end CurlScribe
