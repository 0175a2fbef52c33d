import CurlScribe.Encoding.Base64

/-!
# Bytes through Base64

The reader of the standard alphabet with padding. Four digits make three bytes; a last group with
one or two padding characters makes two bytes or one, and the bits that the padding stands for are
zero. It gives back all bytes that were written.
-/

namespace CurlScribe
namespace Base64

/-! ## Reading -/

/-- The number below 64 that a character stands for. -/
def value? (c : Char) : Option Nat :=
  if c.isUpper then some (c.toNat - 'A'.toNat)
  else if c.isLower then some (c.toNat - 'a'.toNat + 26)
  else if c.isDigit then some (c.toNat - '0'.toNat + 52)
  else if c = '+' then some 62
  else if c = '/' then some 63
  else none

/-- The number that characters spell after `n`, six bits each. -/
def number? (n : Nat) : Text → Option Nat
  | [] => some n
  | c :: rest =>
    match value? c with
    | none => none
    | some v => number? (n * 64 + v) rest

/-- The bytes that a text spells. The last group may be padded; the bits that it does not use are
zero. -/
def decode? : Text → Option Bytes
  | [] => some []
  | [a, b, '=', '='] =>
    match number? 0 [a, b] with
    | none => none
    | some n => if n % 16 = 0 then some [UInt8.ofNat (n / 16)] else none
  | [a, b, c, '='] =>
    match number? 0 [a, b, c] with
    | none => none
    | some n =>
      if n % 4 = 0 then some [UInt8.ofNat (n / 1024), UInt8.ofNat (n / 4 % 256)] else none
  | a :: b :: c :: d :: rest =>
    match number? 0 [a, b, c, d], decode? rest with
    | some n, some bytes =>
      some (UInt8.ofNat (n / 65536) :: UInt8.ofNat (n / 256 % 256) :: UInt8.ofNat (n % 256) :: bytes)
    | _, _ => none
  | _ => none

/-! ## Digits -/

theorem value?_digit : ∀ n < 64, value? (digit n) = some n := by decide

theorem digit_ne_padding : ∀ n < 64, digit n ≠ '=' := by decide

/-- A digit in front adds its six bits. -/
@[simp] theorem number?_digit {m n : Nat} (hn : n < 64) (rest : Text) :
    number? m (digit n :: rest) = number? (m * 64 + n) rest := by
  rw [number?, value?_digit n hn]

@[simp] theorem number?_nil (n : Nat) : number? n [] = some n := rfl

/-! ## Groups -/

/-- A group without padding makes three bytes. -/
theorem decode?_group {a b c d : Char} {rest : Text} (hd : d ≠ '=') :
    decode? (a :: b :: c :: d :: rest) =
      match number? 0 [a, b, c, d], decode? rest with
      | some n, some bytes =>
        some (UInt8.ofNat (n / 65536) :: UInt8.ofNat (n / 256 % 256) :: UInt8.ofNat (n % 256)
          :: bytes)
      | _, _ => none := by
  rw [decode?]
  · intro _ h
    exact absurd h hd
  · intro h
    exact absurd h hd

/-- The byte with a given value. -/
theorem ofNat_eq {n : Nat} {a : UInt8} (h : n = a.toNat) : UInt8.ofNat n = a := by
  rw [h, UInt8.ofNat_toNat]

/-- The reader inverts the writer. -/
theorem decode?_encode (bytes : Bytes) : decode? (encode bytes) = some bytes := by
  -- in each group the digits spell the number whose bytes were written, shifted by the padding
  induction bytes using encode.induct with
  | case1 => rfl
  | case2 a =>
    have ha := a.toNat_lt
    have hn : number? 0 [digit (a.toNat * 16 / 64), digit (a.toNat * 16 % 64)]
        = some (a.toNat * 16) := by
      simp (disch := omega) only [number?_digit, number?_nil]
      congr 1
      omega
    simp only [encode, decode?, hn]
    rw [if_pos (by omega), ofNat_eq (a := a) (by omega)]
  | case3 a b =>
    have ha := a.toNat_lt
    have hb := b.toNat_lt
    generalize hv : (a.toNat * 256 + b.toNat) * 4 = v
    have hn : number? 0 [digit (v / 4096), digit (v / 64 % 64), digit (v % 64)] = some v := by
      simp (disch := omega) only [number?_digit, number?_nil]
      congr 1
      omega
    -- the third digit is no padding, so the group is not read as one of a single byte
    have hc : digit (v % 64) ≠ '=' := digit_ne_padding _ (by omega)
    simp only [encode, hv]
    rw [decode?, hn]
    · dsimp only
      rw [if_pos (by omega), ofNat_eq (a := a) (by omega), ofNat_eq (a := b) (by omega)]
    · exact hc
  | case4 a b c rest ih =>
    have ha := a.toNat_lt
    have hb := b.toNat_lt
    have hc := c.toNat_lt
    generalize hv : (a.toNat * 256 + b.toNat) * 256 + c.toNat = v
    have hn : number? 0
        [digit (v / 262144), digit (v / 4096 % 64), digit (v / 64 % 64), digit (v % 64)]
        = some v := by
      simp (disch := omega) only [number?_digit, number?_nil]
      congr 1
      omega
    simp only [encode, hv]
    rw [decode?_group (digit_ne_padding _ (by omega)), hn, ih]
    simp only [ofNat_eq (a := a) (n := v / 65536) (by omega),
      ofNat_eq (a := b) (n := v / 256 % 256) (by omega),
      ofNat_eq (a := c) (n := v % 256) (by omega)]

example : decode? "dXNlcjpwYXNz".toList = some (Utf8.encode "user:pass".toList) := by decide

end Base64
end CurlScribe
