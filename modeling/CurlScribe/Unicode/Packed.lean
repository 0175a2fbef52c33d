/-!
# Packed tables

A property of characters changes seldom from one code point to the next, so it is kept as the
lengths of the runs on which it is constant, from U+0000 on. The lengths are written in base 32 with
64 digits: the first 32 digits end a number, and the others say that it goes on.
-/

namespace CurlScribe
namespace Unicode

/-! ## Numbers -/

/-- The value of one of the 64 digits. -/
def digitValue (c : Char) : Nat :=
  if 'A' ≤ c && c ≤ 'Z' then c.toNat - 'A'.toNat
  else if 'a' ≤ c && c ≤ 'z' then c.toNat - 'a'.toNat + 26
  else if c.isDigit then c.toNat - '0'.toNat + 52
  else if c == '+' then 62
  else 63

/-- The numbers that have been read, and the one that is being read, after one more digit. -/
def unpackDigit : Array Nat × Nat → Char → Array Nat × Nat
  | (numbers, n), c =>
    let d := digitValue c
    if d < 32 then (numbers.push (n * 32 + d), 0) else (numbers, n * 32 + (d - 32))

/-- The numbers that rows of digits spell. -/
def unpack (rows : List String) : List Nat :=
  (rows.foldl (fun state row => row.toList.foldl unpackDigit state) (#[], 0)).1.toList

/-! ## Runs -/

/-- Is a number in the set whose members and other numbers come by turns in runs of these lengths?
The first run is outside the set unless `inside`. -/
def inRuns (inside : Bool) : List Nat → Nat → Bool
  | [], _ => false
  | length :: rest, n => if n < length then inside else inRuns (!inside) rest (n - length)

/-- The value at a number, when the runs are given as length and value by turns. -/
def valueInRuns : List Nat → Nat → Nat
  | length :: value :: rest, n => if n < length then value else valueInRuns rest (n - length)
  | _, _ => 0

end Unicode
end CurlScribe
