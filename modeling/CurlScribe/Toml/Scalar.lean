import CurlScribe.Text.CharClass

/-!
# Numbers, dates and truth values in TOML documents

A configuration has no use for these values, but they may stand where it does not look. What a
number means is not looked into: digits may be missing after the mark of a base, and what follows an
underscore and a digit in a whole number is free.
-/

namespace CurlScribe
namespace Toml

/-! ## Digits -/

/-- The text after a row of digits and underscores with at least one digit. A number of several
digits does not begin with a zero unless `zeroFirst` allows it. -/
def digits? (zeroFirst : Bool) (t : Text) : Option Text :=
  let isPart (c : Char) : Bool := c.isDigit || c == '_'
  let count := (t.takeWhile isPart).countP Char.isDigit
  if count = 0 || (!zeroFirst && 1 < count && t.head? == some '0') then none
  else some (t.dropWhile isPart)

/-- A digit of any base. -/
def isAnyDigit (c : Char) : Bool := (Text.hexValue? c).isSome

/-- Do these pieces, all of which follow an underscore, begin with digits, and end with them where
another underscore follows? -/
def piecesFit (isDigit : Char → Bool) : List Text → Bool
  | [] => true
  | [last] => last.head?.any isDigit
  | piece :: rest => piece.head?.any isDigit && piece.getLast?.any isDigit && piecesFit isDigit rest

/-- Do all underscores of a number stand between digits? One may also follow a sign. -/
def underscoresFit (isDigit : Char → Bool) (t : Text) : Bool :=
  match Text.split (· == '_') t with
  | [] => true
  | [_] => true
  | first :: rest =>
    (first.length == 1 || first.getLast?.any isDigit) && piecesFit isDigit rest

/-! ## Numbers -/

/-- The text without a sign at its start. -/
def dropSign : Text → Text
  | '+' :: rest => rest
  | '-' :: rest => rest
  | t => t

/-- The text after the decimals that a text may begin with. -/
def decimals? : Text → Option Text
  | '.' :: rest => digits? true rest
  | t => some t

/-- The text after the power of ten that a text may begin with. -/
def exponent? : Text → Option Text
  | 'e' :: rest => digits? true (dropSign rest)
  | 'E' :: rest => digits? true (dropSign rest)
  | t => some t

/-- Is the text a number with decimals or a power of ten, but for its underscores? -/
def isFraction (t : Text) : Bool := ((digits? false t).bind decimals?).bind exponent? == some []

/-- The digits of the base that a letter marks. -/
def baseDigits? : Char → Option (Char → Bool)
  | 'x' => some fun c => (Text.hexValue? c).isSome
  | 'o' => some fun c => (Text.octalValue? c).isSome
  | 'b' => some fun c => c == '0' || c == '1'
  | _ => none

/-- Is the text a number in a marked base? -/
def isBased : Text → Bool
  | '0' :: mark :: digits =>
    match baseDigits? mark with
    | some isDigit =>
      digits.all (fun c => isDigit c || c == '_') && underscoresFit isAnyDigit digits
    | none => false
  | _ => false

/-- Is the text a decimal number? -/
def isDecimal (t : Text) : Bool :=
  let unsigned := dropSign t
  let zeroFirst := unsigned.head? == some '0'
  match unsigned.dropWhile Char.isDigit with
  | [] => !unsigned.isEmpty && (!zeroFirst || unsigned.length == 1)
  | c :: rest =>
    if (c :: rest).any fun c => c == '.' || c == 'e' || c == 'E' then
      isFraction unsigned && underscoresFit Char.isDigit t
    else c == '_' && !zeroFirst && underscoresFit isAnyDigit t

/-- Is the text a number of any kind? -/
def isNumber (t : Text) : Bool :=
  isBased t || isDecimal t || ["inf", "nan"].any fun name => dropSign t == name.toList

/-! ## Dates and times -/

/-- The number that exactly `count` digits spell, and the text after them. -/
def fixed? : Nat → Text → Option (Nat × Text)
  | 0, t => some (0, t)
  | _ + 1, [] => none
  | count + 1, c :: rest =>
    if c.isDigit then
      (fixed? count rest).map fun (n, after) => ((c.toNat - '0'.toNat) * 10 ^ count + n, after)
    else none

/-- The text after a mark. -/
def after? (mark : Char) : Text → Option Text
  | [] => none
  | c :: rest => if c = mark then some rest else none

/-- How many days a month has. -/
def daysIn (year month : Nat) : Nat :=
  if month = 2 then
    if year % 4 = 0 && (year % 100 != 0 || year % 400 = 0) then 29 else 28
  else if [4, 6, 9, 11].contains month then 30
  else 31

/-- The text after a date. -/
def date? (t : Text) : Option Text := do
  let (year, t) ← fixed? 4 t
  let (month, t) ← fixed? 2 (← after? '-' t)
  let (day, t) ← fixed? 2 (← after? '-' t)
  if 1 ≤ month && month ≤ 12 && 1 ≤ day && day ≤ daysIn year month then some t else none

/-- The text after hours and minutes. -/
def minutes? (t : Text) : Option Text := do
  let (hour, t) ← fixed? 2 t
  let (minute, t) ← fixed? 2 (← after? ':' t)
  if hour ≤ 23 && minute ≤ 59 then some t else none

/-- The text after the decimals of a second, which have no underscores. -/
def fraction? : Text → Option Text
  | '.' :: c :: rest => if c.isDigit then some (rest.dropWhile Char.isDigit) else none
  | '.' :: [] => none
  | t => some t

/-- The text after a time, which may leave out its seconds. -/
def time? (t : Text) : Option Text := do
  let t ← minutes? t
  match t with
  | ':' :: rest =>
    let (second, t) ← fixed? 2 rest
    if second ≤ 60 then fraction? t else none
  | t => some t

/-- The text after the offset that a text may begin with. -/
def offset? : Text → Option Text
  | 'Z' :: rest => some rest
  | 'z' :: rest => some rest
  | '+' :: rest => minutes? rest
  | '-' :: rest => minutes? rest
  | t => some t

/-- The text after a date, with a time or without one, or after a time. -/
def moment? (t : Text) : Option Text :=
  match date? t with
  | none => time? t
  | some rest =>
    match rest with
    | 'T' :: rest => (time? rest).bind offset?
    | 't' :: rest => (time? rest).bind offset?
    | ' ' :: c :: more => if c.isDigit then (time? (c :: more)).bind offset? else some rest
    | rest => some rest

/-! ## Values -/

/-- Do digits and then a dash or a colon begin the text? -/
def beginsMoment (t : Text) : Bool :=
  match t.head?, t.dropWhile Char.isDigit with
  | some first, c :: _ => first.isDigit && (c == '-' || c == ':')
  | _, _ => false

/-- A character that does not end a value without quotes. -/
def isBareValueChar (c : Char) : Bool := !"=,[]\x7b\x7d \t#\r\n".toList.contains c

/-- The value without quotes that a text begins with. A blank between a date and a time belongs to
it. -/
def bareValue (t : Text) : Text :=
  let first := t.takeWhile isBareValueChar
  match t.dropWhile isBareValueChar with
  | ' ' :: c :: rest =>
    if c.isDigit && date? first == some [] then
      first ++ ' ' :: (c :: rest).takeWhile isBareValueChar
    else first
  | _ => first

/-- Is the text a value that is no string, array or table? -/
def isScalar (t : Text) : Bool :=
  t == "true".toList || t == "false".toList
    || (if beginsMoment t then moment? t == some [] else isNumber t)

/-- The text after a value that is no string, array or table. -/
def scalar? (t : Text) : Option Text :=
  let value := bareValue t
  if isScalar value then some (t.drop value.length) else none

end Toml
end CurlScribe
