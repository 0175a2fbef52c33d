import CurlScribe.Text.CharClass

/-!
# IPv4 addresses

An address has up to four numbers with dots between them, each decimal, octal or hexadecimal. The
last number fills all bytes that the others leave.
-/

namespace CurlScribe
namespace Ipv4

/-- The number that digits of the given base spell, if all of them are such digits. -/
def digits? (value? : Char → Option Nat) (base : Nat) (t : Text) : Option Nat :=
  t.foldl (fun sum c => sum.bind fun n => (value? c).map fun d => n * base + d) (some 0)

/-- The number that a part spells: hexadecimal after `0x`, octal after `0`, else decimal. -/
def number? : Text → Option Nat
  | [] => none
  | '0' :: 'x' :: rest => digits? Text.hexValue? 16 rest
  | '0' :: 'X' :: rest => digits? Text.hexValue? 16 rest
  | '0' :: c :: rest => digits? Text.octalValue? 8 (c :: rest)
  | t => digits? Text.decimalValue? 10 t

/-- The parts of a domain, without an empty one at its end. -/
def parts (domain : Text) : List Text :=
  let all := Text.split (· == '.') domain
  if all.getLast? == some [] then all.dropLast else all

/-- Does the last part of a domain show that it is meant as an address? -/
def endsInNumber (domain : Text) : Bool :=
  match (parts domain).getLast? with
  | none => false
  | some last => (!last.isEmpty && last.all Char.isDigit) || (number? last).isSome

/-- The address with the given bytes before the last number. -/
def combine (bytes : List Nat) (last : Nat) : Option Nat :=
  if bytes.all (· ≤ 255) && last < Nat.pow 256 (4 - bytes.length) then
    some (bytes.foldr (fun b n => n / 256 + b * Nat.pow 256 3) 0 + last)
  else none

/-- The address that a domain spells. -/
def ofDomain? (domain : Text) : Option Nat :=
  let all := parts domain
  if all.length > 4 then none
  else match all.mapM number? with
    | none => none
    | some numbers =>
      match numbers.getLast? with
      | none => none
      | some last => combine numbers.dropLast last

/-- The address as four decimal numbers. -/
def text (address : Nat) : Text :=
  Text.join ['.'] ([16777216, 65536, 256, 1].map fun unit => Text.ofNat (address / unit % 256))

end Ipv4
end CurlScribe
