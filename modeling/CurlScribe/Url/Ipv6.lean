import CurlScribe.Text.CharClass

/-!
# IPv6 addresses

An address has eight pieces of up to four hexadecimal digits with colons between them. One run of
zero pieces may be left out, which leaves two colons, and the last two pieces may be written as an
IPv4 address.
-/

namespace CurlScribe
namespace Ipv6

/-! ## Reading -/

/-- The value of a piece: one to four hexadecimal digits. -/
def piece? (t : Text) : Option Nat :=
  if t.isEmpty || t.length > 4 then none
  else t.foldl (fun sum c => sum.bind fun n => (Text.hexValue? c).map fun d => n * 16 + d) (some 0)

/-- The value of a byte in decimal digits without a leading zero. -/
def byte? (t : Text) : Option Nat :=
  match t with
  | [] => none
  | '0' :: _ :: _ => none
  | t =>
    if t.length > 3 then none
    else match t.foldl (fun sum c =>
        sum.bind fun n => (Text.decimalValue? c).map fun d => n * 10 + d) (some 0) with
      | some n => if n ≤ 255 then some n else none
      | none => none

/-- The two pieces that an IPv4 address stands for. -/
def tail? (t : Text) : Option (List Nat) :=
  match (Text.split (· == '.') t).mapM byte? with
  | some [a, b, c, d] => some [a * 256 + b, c * 256 + d]
  | _ => none

/-- The pieces of one side of the gap. Only the last may be an IPv4 address. -/
def pieces? : List Text → Option (List Nat)
  | [] => some []
  | [last] => if last.contains '.' then tail? last else (piece? last).map fun n => [n]
  | t :: rest =>
    match piece? t, pieces? rest with
    | some n, some ns => some (n :: ns)
    | _, _ => none

/-- The pieces of a text without a gap; an empty text has none. -/
def side? (t : Text) : Option (List Nat) :=
  if t.isEmpty then some [] else pieces? (Text.split (· == ':') t)

/-- The eight pieces that an address spells. -/
def ofText? (t : Text) : Option (List Nat) :=
  match Text.splitAround [':', ':'] t with
  | none =>
    match side? t with
    | some pieces => if pieces.length = 8 then some pieces else none
    | none => none
  | some (before, after) =>
    if before.contains '.' then none
    else match side? before, side? after with
      | some front, some back =>
        if front.length + back.length < 8 then
          some (front ++ List.replicate (8 - front.length - back.length) 0 ++ back)
        else none
      | _, _ => none

/-! ## Writing -/

/-- Length of the run of zeros at the start. -/
def zeros (pieces : List Nat) : Nat := (pieces.takeWhile (· == 0)).length

/-- The place and the length of the first of the longest runs of zeros, where the pieces begin at
place `i`. -/
def longestRun (i : Nat) : List Nat → Nat × Nat
  | [] => (i, 0)
  | p :: rest =>
    let here := zeros (p :: rest)
    let (place, length) := longestRun (i + 1) rest
    if here ≥ length then (i, here) else (place, length)

/-- Pieces with colons between them. -/
def piecesText (pieces : List Nat) : Text := Text.join [':'] (pieces.map (Text.hex 1))

/-- The address between brackets, with two colons for the first of its longest runs of at least two
zeros. -/
def text (pieces : List Nat) : Text :=
  let (place, length) := longestRun 0 pieces
  let inner :=
    if length < 2 then piecesText pieces
    else piecesText (pieces.take place) ++ [':', ':'] ++ piecesText (pieces.drop (place + length))
  '[' :: (inner ++ [']'])

end Ipv6
end CurlScribe
