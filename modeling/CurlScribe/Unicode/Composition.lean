import CurlScribe.Unicode.CombiningClass
import CurlScribe.Unicode.Packed
import CurlScribe.Text.CharClass

/-!
# Composition

One way of writing for each text: a letter and the marks on it become one character where there is
one for them. Texts are taken apart into letters and marks, the marks are put in order of their
classes, and what fits is put together again.
-/

namespace CurlScribe
namespace Unicode

/-! ## Pairs -/

/-- A character and the two that it is made of. -/
structure Composite where
  whole : Char
  first : Char
  second : Char
deriving DecidableEq, Repr

/-- A number with a sign: even ones count up from 0, odd ones down. -/
def shifted (n code : Nat) : Nat := if code % 2 = 0 then n + code / 2 else n - (code + 1) / 2

/-- The composites whose numbers are given one after another, each relative to the one before,
put in front of others. -/
def readComposites (before : Nat) (found : List Composite) : List Nat → List Composite
  | gap :: first :: second :: rest =>
    let whole := shifted before gap
    readComposites whole
      (⟨Char.ofNat whole, Char.ofNat (shifted whole first), Char.ofNat second⟩ :: found) rest
  | _ => found

/-- All composites but for those that are never put together. Each comes before its first part, if
that is a composite too. -/
def composites : List Composite := readComposites 0 [] (unpack [
  "sAnd4ACnf4BCoB4CCoD4DCoF4ICoH4KEoH5HCoF4ACoH4BCoJ4CCoL4ICoF4ACoH4BCoJ4CCoL4IEoF4DCoF4ACoH4BC",
  "oJ4CCoL4DCoN4IGoH4ACoJ4BCoL4CCoN4ICoH4BGnd4ACnf4BCoB4CCoD4DCoF4ICoH4KEoH5HCoF4ACoH4BCoJ4CCoL",
  "4ICoF4ACoH4BCoJ4CCoL4IEoF4DCoF4ACoH4BCoJ4CCoL4DCoN4IGoH4ACoJ4BCoL4CCoN4ICoH4BEoL4ICrd4ECpf4E",
  "CsB4GCqD4GCsF5ICqH5ICsF4BCqH4BCsJ4CCqL4CCsN4HCqP4HCsR4MCqT4MCsT4MCqV4MGsZ4ECqb4ECsd4GCqf4GCt",
  "B4HCrD4HCtF5ICrH5ICtJ4MCrL4MCtJ4CCrL4CCtN4GCrP4GCtR4HCrT4HCtV5HCrX5HCtX4CCrZ4CGtd4DCrf4DCuB4",
  "ECsD4ECuF4GCsH4GCuJ5ICsL5ICuN4HIuT4CCsV4CCuV5HCsX5HEuZ4BCsb4BCud5HCsf5HCvB4MCtD4MKvJ4BCtL4BC",
  "vN5HCtP5HCvR4MCtT4MIvZ4ECtb4ECvd4GCtf4GCwB4LCuD4LGwD4BCuF4BCwH5HCuJ5HCwL4MCuN4MCwN4BCuP4BCwR",
  "4CCuT4CCwV5HCuX5HCwZ4MCub4MCwb5HCud5HCwf4MCvB4MGxF4DCvH4DCxJ4ECvL4ECxN4GCvP4GCxR4KCvT4KCxV4L",
  "CvX4LCxZ5ICvb5ICxZ4CCvb4CCxZ4CCvb4CCxd4ICxd4BCvf4BCyB4HCwD4HCyF4MCwH4MiE1B4bCzD4bc1T4bCzV4bh",
  "a4X4MC2Z4MC4L4MC2N4MC4D4MC2F4MC3b4MC1d4McxX4ECvZ4EG5d4MC3f4MC5Z4MC3b4MC5V5IC3X5IGjN4MCqG4MC4",
  "L4MI6Z4BC4b4BG6T4AC4V4AGzL4BCxN4BCyL4BCwN4BC7d4PC5f4PC8B4RC6D4RC7d4PC5f4PC8B4RC6D4RC7d4PC5f4",
  "PC8B4RC6D4RC7Z4PC5b4PC7d4RC5f4RC7b4PC5d4PC7f4RC6B4RC7d4PC5f4PC8B4RC6D4RC8J5GC6L5GC8L5GC6N5GG",
  "9L4MC7N4MO+J4HC8L4HC+F5HC8H5HK9d4HC7f4HG9R4EC7T4E1EhtZ4BCW4BEa4BCc4BCe4BEhG4BEhO4BChU4BhWhB4",
  "ICL4ICK4BCQ4BCS4BCU4BhWhB4ICL4ICZ4BCP4BCJ4BKB4BCD4IiYhK4AChI4IEhA4BIB4IKc4BCW4AChK4GWB4GiAB4",
  "GhOhV4AChX4IEhf4BIB4IKiD4BCiJ4AChV4GhQD4PCD4PkUqV4GCoX4Gcrf4GCqB4GCsD4ICqF4IGsB4GCqD4GGD4ICD",
  "4ICsL4ICqN4ICsN4ICqP4IGsT4ECqV4ECsX4ICqZ4ICsP4ICqR4IGD4ICD4ICrd4ICpf4ICsV4ECqX4ECsZ4ICqb4ICs",
  "d4LCqf4LCsZ4ICqb4IGsZ4ICqb4IySKhyTCIhyUCiIhyUCEhyVCiIhyUpUhKhyUEBhyUhCBhyUhlMBipcQBipcGBipcp",
  "OHiteCJiuX3YBi6WGHi5eCJi6XkQDi+XjMHi9eCHi9eCLi+XnYDjiWnQBjmVOBjmVCDjmWEHjmCoAHjpeCHjpeCLjqXo",
  "cBjuKEFjuPEJjufhkQBkhOluABm5VEBm5VEBm5VEBm5VEBm5VIBm5ViSBm5VEBm5VGDm5VCDm5VEBm5Vhrau7d5FCu5f",
  "5FCu7f4HCu6B4HCu8D5DCu6F5DCu8H5RCu6J5RGu8L4HCu6N4HCu8P5DCu6R5DCu8T5RCu6V5RCu8X5HCu6Z5HCu8b5N",
  "Cu6d5NKu9F5NCu7H5NCu9J5QCu7L5QGu9P4HCu7R4HCu9R4ECu7T4ECu9T4HCu7V4HCu9X5DCu7Z5DCu9b4ICu7d4ICu",
  "9f5HCu8B5HCu+D5OCu8F5OCu+F5QCu8H5QGu+J4BCu8L4BCu+N5DCu8P5DCu+R5RCu8T5RCu+T5DCu8V5DGu+b5RCu8d",
  "5RCu+f5NCu9B5NCu-B4BCu9D4BCu-F4HCu9H4HCu-J5DCu9L5DCu-L4HCu9N4HCu-P5DCu9R5DCu-T5RCu9V5RCu-X5N",
  "Cu9Z5NSvgH4BCu+J4BCvgL4HCu+N4HCvgL4HCu+N4HCvgP5DCu+R5DGvgX5RCu+Z5RCvgZ4HCu+b4HCvgd5DCu+f5DOv",
  "hL4HCu-N4HCvhP5DCu-R5DCvhT5RCu-V5RCvhX5NCu-Z5NCvhZ5ECu-b5ECvhd5QCu-f5QCviB5NCvgD5NKviL4DCvgN",
  "4DCviP5DCvgR5DCviR4ACvgT4ACviV4BCvgX4BCviZ4ICvgb4ICvid4HCvgf4HCvjB5DCvhD5DCvjD4HCvhF4HCvjH4I",
  "CvhJ4ICvjJ4HCvhL4HCvjL4CCvhN4CCvjP5DCvhR5DCvjT5RCvhV5RCvib5RCviF4ICviB4KCvhf4KEuxX4HKvld5DCv",
  "jf5DCvmB4JCvkD4JhKvnF5DCvlH5DCvnJ4JCvlL4JCvnN4DCvlP4DWvnd4JCvlf4JCvoB5DCvmD5DCvnZ5DCvlb5DCvn",
  "d4JCvlf4JhKvod5DCvmf5DCvpB4JCvnD4JWvpR4ACvnT4ACvpV5DCvnX5DCvpZ4JCvnb4JCvpd4DCvnf4DOt0d4TCt0f",
  "4UOt3N4TCt3P4UOt1V4TCt1X4UOt4F4TCt4H4UOt2R4TCt2T4UOt5B4TCt5D4UOt3N4TCt3P4UOt5d4TCt5f4UOt4B4T",
  "Ct4D4UOt6R4TCt6T4UOt4V4TCt4X4UQt7H4UOt5N4TCt5P4UOt7d4TCt7f4UOt7d4AEt7Z4AEt7Z4AEt7Z4AEt7R4AEt",
  "7J4AEt7F4AjIt-d4GCt-f4EEugD6FGugJ6CEuiN4GCuiP4ECuiR4AEuiV6FKvxR6CEugX6FGugd6CEujF4AEujF4AEuj",
  "J6FCb4ACd4BCf6CCuhN4GCuhP4EKuhZ6CEujd4GCujf4ECukB4AGiC4ACiA4BChe6CCuhV4GCuhX4EGuiF4TCuiH4UCu",
  "iB6CEukF4GCukH4ECukJ4AEukV4UCv0J4AMuiT6FGuiZ6CEulR4AEulB4AEulF6F5cT5YCR5YhGhT5YheG5YCM5YCG5Y",
  "jKB5YKB5YGB5YhQB5YEB5YhWJ5YGB5YGD5YEB5YhOxiF5YEB5YWhf5YCxjD5YCxjB5YCX5YCX5YGD5YCD5YGD5YCD5YO",
  "L5YCL5YGD5YCD5YGD5YCD5YiGT5YCJ5YCJ5YCH5YjCmH5YCmH5YClB5YClB5YOjP5YCjP5YCjP5YCjP5Ym1eBskZEBsk",
  "ZEBskZEBskZEBskZEBskZEBskZEBskZEBskZEBskZEBskZEBskZGBskZEBskZEBskZOBskZCDskaEBskZCDskaEBskZC",
  "DskaEBskZCDskaEBskZCDskahOkbskZUBskZcBskZEBskZEBskZEBskZEBskZEBskZEBskZEBskZEBskZEBskZEBskZE",
  "BskZGBskZEBskZEBskZOBskZCDskaEBskZCDskaEBskZCDskaEBskZCDskaEBskZCDskahOkbskZGPskZCPskZCPskZC",
  "PskZIBskZjqsWS4HhWT4HlrMBiklaEBiklaeLiklaoGGikpHCGikpHhhYHik5eCJik6XjOBik+JEBik9bSFik+CGBik+",
  "JjIFik+CEJik9YCLik+JvGDillaCFillQEJilldvYDiltPCDiltPh3aFimpQhj+SFi4oeCHi4pJCJi4ofCKi4ofCNi4p",
  "AmkGBi7rHCLi7rHl15HvR4ECtT4ECvV4BCtX4BCvZ4MCtb4MCvd4ACtf4AExT4ECvV4ECkM4ECkM4EWD4ECD4EazJ4BC",
  "xL4Bie1H4ECzJ4EC1N4ECzP4EGD4ECD4E1ejU4BiAhW4BkxWBjmVxEBjuKoiWu0B4BCuyD4BWuwD4ACuwD4ACuwH4BCu",
  "wH4BKt-H4GCt-H4GhCu1d4BCuzf4BSD4ECD4EhGu3N4BCu1P4BCu3R4ICu1T4ICuwH4ACuwH4ACuwL4BCuwL4BSD4ECD",
  "4EOuwT4HCuwT4HCuwL4HCuwL4HCL4HCL4Heuwf4BCuwf4BCuwf4ICuwf4IiSu+D4BCu8F4BCu+H4ACu8J4ACu+L4JCu8",
  "N4JCu+P4DCu8R4DCX4CCX4CCu6X4BCu6X4BCu6b4ACu6b4ACu6f4JCu6f4JCu7D4DCu7D4DChL4GChL4GOu-H4BCu9J4",
  "BCu-L4ACu9N4ACu-P4JCu9R4JCu-T4DCu9V4DCb4CCb4CSu-X4BCu9Z4BCu-b4ACu9d4ACu-f4JCu+B4JCvgD4DCu+F4",
  "DCX4CCX4CCuzT4BCuzT4BCuzX4ACuzX4ACuzb4JCuzb4JCuzf4DCuzf4DCu0D5DCu0D5DKuzR4BCuzR4BCuzV4ACuzV4",
  "ACuzZ4JCuzZ4JCuzd4DCuzd4DCu0B5DCu0B5DhCD4ACD4ACH4BCH4BCL6CCL6CGD4ACD4ACH4BCH4BCL6CCL6CGD4ACD",
  "4ACH4BCH4BKD4ACD4ACH4BCH4BKD4ACD4ACH4BCH4BCL6CCL6CGD4ACD4ACH4BCH4BCL6CCL6CGD4ACD4ACH4BCH4BCL",
  "6CCL6CGD4ACD4ACH4BCH4BCL6CCL6CGD4ACD4ACH4BCH4BKD4ACD4ACH4BCH4BKD4ACD4ACH4BCH4BCL6CCL6CID4AEH",
  "4BEL6CGD4ACD4ACH4BCH4BCL6CCL6CGD4ACD4ACH4BCH4BCL6CCL6ChCnf6FCnf6FOnf6FCnf6FOmf6FCmf6FOmf6FCm",
  "f6FOjf6FCjf6FOjf6FCjf6FSkD6FEugP6FGB6FWkb6FEuhL6FGB6FWugP4AKugZ6CWuhN4AKuhX6CWnL6FEuiL6FGB6F",
  "lgyeJi4ofCJi4ofCNi4pAmkEBi7rHlm+Pnf6FCnf6FCnf6FCnf6FCnf6FCnf6FGnf6FCnf6FCnf6FCnf6FCnf6FCnf6F",
  "Gmf6FCmf6FCmf6FCmf6FCmf6FCmf6FGmf6FCmf6FCmf6FCmf6FCmf6FCmf6FGjf6FCjf6FCjf6FCjf6FCjf6FCjf6FGj",
  "f6FCjf6FCjf6FCjf6FCjf6FCjf6F"])

/-! ## Syllables -/

/-- The parts of a Korean syllable, which follow from its place in a regular table of 19 times 21
times 28 syllables. -/
def syllableParts? (c : Char) : Option Text :=
  let n := c.toNat
  if 0xAC00 ≤ n && n < 0xAC00 + 11172 then
    let place := n - 0xAC00
    let last := place % 28
    let letters := [Char.ofNat (0x1100 + place / 588), Char.ofNat (0x1161 + place % 588 / 28)]
    some (if last = 0 then letters else letters ++ [Char.ofNat (0x11A7 + last)])
  else none

/-- The Korean syllable with these two parts. -/
def syllableOf? (first second : Char) : Option Char :=
  let a := first.toNat
  let b := second.toNat
  if 0x1100 ≤ a && a < 0x1100 + 19 && 0x1161 ≤ b && b < 0x1161 + 21 then
    some (Char.ofNat (0xAC00 + ((a - 0x1100) * 21 + (b - 0x1161)) * 28))
  else if 0xAC00 ≤ a && a < 0xAC00 + 11172 && (a - 0xAC00) % 28 = 0
      && 0x11A7 < b && b < 0x11A7 + 28 then
    some (Char.ofNat (a + (b - 0x11A7)))
  else none

/-! ## Taking apart -/

/-- The parts of a character by the composites given. A part is taken apart by those behind. -/
def partsBy : List Composite → Char → Text
  | [], c => [c]
  | p :: rest, c => if p.whole = c then partsBy rest p.first ++ [p.second] else partsBy rest c

/-- The parts of a character. -/
def parts (c : Char) : Text :=
  match syllableParts? c with
  | some t => t
  | none => if Text.isAscii c then [c] else partsBy composites c

/-- A mark put before text in order, behind the marks of smaller classes. -/
def putInOrder (c : Char) : Text → Text
  | [] => [c]
  | d :: rest =>
    if 0 < combiningClass d && combiningClass d < combiningClass c then d :: putInOrder c rest
    else c :: d :: rest

/-- The text with its marks in order. -/
def inOrder : Text → Text
  | [] => []
  | c :: rest => if combiningClass c = 0 then c :: inOrder rest else putInOrder c (inOrder rest)

/-! ## Putting together -/

/-- The character that is made of two. -/
def compose? (first second : Char) : Option Char :=
  match syllableOf? first second with
  | some c => some c
  | none => (composites.find? fun p => p.first == first && p.second == second).map Composite.whole

/-- The text after a letter, put together with it where that is possible. Marks that stay on their
own are kept in `marks`; they block those behind them that are not of a larger class. -/
def composeFrom (letter : Char) (marks : Text) : Text → Text
  | [] => letter :: marks
  | c :: rest =>
    let blocked : Bool := match marks.getLast? with
      | some last => combiningClass c ≤ combiningClass last
      | none => false
    match if blocked then none else compose? letter c with
    | some whole => composeFrom whole marks rest
    | none =>
      if combiningClass c = 0 then letter :: marks ++ composeFrom c [] rest
      else composeFrom letter (marks ++ [c]) rest

/-- A text in order, put together. -/
def compose : Text → Text
  | [] => []
  | c :: rest => if combiningClass c = 0 then composeFrom c [] rest else c :: compose rest

/-- The composed form of a text. -/
def composed (t : Text) : Text :=
  if t.all Text.isAscii then t else compose (inOrder (t.flatMap parts))

end Unicode
end CurlScribe
