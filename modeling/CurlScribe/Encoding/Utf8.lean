import CurlScribe.Text.Basic

/-!
# UTF-8

Text as bytes and back. Two readings of bytes are needed: a strict one, for the contents of files,
and a lossy one, for percent-decoded text, in which every maximal run of bytes that begins a
well-formed sequence but does not finish it becomes one replacement character.
-/

namespace CurlScribe

/-- Bytes in order. -/
abbrev Bytes := List UInt8

namespace Utf8

/-- The replacement character U+FFFD. -/
def replacement : Char := Char.ofNat 0xFFFD

/-- The UTF-8 form of a text. -/
def encode (t : Text) : Bytes := t.flatMap String.utf8EncodeChar

/-! ## One sequence -/

/-- What a lead byte announces: the number of bytes that follow it, the bits that it contributes,
and the range in which the second byte must lie. -/
structure Lead where
  following : Nat
  bits : Nat
  lo : Nat
  hi : Nat

/-- The meaning of a byte at the start of a sequence of two bytes or more. The second byte of
`E0` and `F0` excludes overlong forms, that of `ED` surrogates, that of `F4` code points above
U+10FFFF. -/
def lead? (b : Nat) : Option Lead :=
  if 0xC2 ≤ b && b ≤ 0xDF then some ⟨1, b - 0xC0, 0x80, 0xBF⟩
  else if b == 0xE0 then some ⟨2, 0, 0xA0, 0xBF⟩
  else if b == 0xED then some ⟨2, 0xD, 0x80, 0x9F⟩
  else if 0xE1 ≤ b && b ≤ 0xEF then some ⟨2, b - 0xE0, 0x80, 0xBF⟩
  else if b == 0xF0 then some ⟨3, 0, 0x90, 0xBF⟩
  else if 0xF1 ≤ b && b ≤ 0xF3 then some ⟨3, b - 0xF0, 0x80, 0xBF⟩
  else if b == 0xF4 then some ⟨3, 4, 0x80, 0x8F⟩
  else none

/-- Read `count` bytes of a sequence that has contributed `bits` so far, the first of them within
`lo` and `hi` and the others within `80` and `BF`. The result is the code point, or nothing if a
byte is missing or out of range, and the bytes that were not read. -/
def following : Nat → Nat → Nat → Nat → Bytes → Option Nat × Bytes
  | 0, bits, _, _, rest => (some bits, rest)
  | _ + 1, _, _, _, [] => (none, [])
  | count + 1, bits, lo, hi, b :: rest =>
    if lo ≤ b.toNat && b.toNat ≤ hi then
      following count (bits * 64 + (b.toNat - 0x80)) 0x80 0xBF rest
    else (none, b :: rest)

/-- The sequence that begins with the byte `b` before `rest`: its character, or nothing if it is
malformed, and the bytes after it. -/
def next (b : UInt8) (rest : Bytes) : Option Char × Bytes :=
  if b.toNat < 0x80 then (some (Char.ofNat b.toNat), rest)
  else match lead? b.toNat with
    | none => (none, rest)
    | some l =>
      let (code, after) := following l.following l.bits l.lo l.hi rest
      (code.map Char.ofNat, after)

theorem length_following_le (count bits lo hi : Nat) (rest : Bytes) :
    (following count bits lo hi rest).2.length ≤ rest.length := by
  fun_induction following count bits lo hi rest with
  | case1 => simp
  | case2 => simp
  | case3 _ _ _ _ _ _ _ ih => simp only [List.length_cons]; omega
  | case4 => simp

/-- Reading a sequence never lengthens what is left. -/
theorem length_next_le (b : UInt8) (rest : Bytes) : (next b rest).2.length ≤ rest.length := by
  unfold next
  split
  · simp
  · split
    · simp
    · exact length_following_le ..

/-! ## Whole texts -/

/-- The text that the bytes spell, with a replacement character for each malformed sequence. -/
def decodeLossy : Bytes → Text
  | [] => []
  | b :: rest => ((next b rest).1.getD replacement) :: decodeLossy (next b rest).2
termination_by bytes => bytes.length
decreasing_by
  have := length_next_le b rest
  simp only [List.length_cons]
  omega

/-- The text that the bytes spell, if all of them are well formed. -/
def decode? : Bytes → Option Text
  | [] => some []
  | b :: rest =>
    match (next b rest).1 with
    | none => none
    | some c => (decode? (next b rest).2).map (c :: ·)
termination_by bytes => bytes.length
decreasing_by
  have := length_next_le b rest
  simp only [List.length_cons]
  omega

end Utf8
end CurlScribe
