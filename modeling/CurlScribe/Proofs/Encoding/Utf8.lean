import Mathlib.Tactic.IntervalCases
import CurlScribe.Encoding.Utf8

/-!
# Texts through UTF-8

Both readers give back every text that was written as bytes. A character has one to four
bytes; its first byte announces how many follow and the range of the second, and each of the bytes
that follow carries six bits.
-/

namespace CurlScribe
namespace Utf8

/-! ## Sizes -/

theorem length_encode (t : Text) : (encode t).length = Text.byteSize t := by
  induction t with
  | nil => rfl
  | cons c rest ih =>
    simp only [encode, List.flatMap_cons, List.length_append, String.length_utf8EncodeChar] at ih ⊢
    rw [ih, Text.byteSize]

/-! ## One sequence -/

/-- One more byte of a sequence, with the six bits `n`. -/
theorem following_succ {count bits lo hi n : Nat} {rest : Bytes}
    (hn : n < 64) (hlo : lo ≤ n + 128) (hhi : n + 128 ≤ hi) :
    following (count + 1) bits lo hi (UInt8.ofNat (n + 128) :: rest) =
      following count (bits * 64 + n) 0x80 0xBF rest := by
  have hb : (UInt8.ofNat (n + 128)).toNat = n + 128 := by
    rw [UInt8.toNat_ofNat']
    omega
  simp only [following, hb, Nat.add_sub_cancel]
  simp [hlo, hhi]

/-- What the first byte of a longer sequence announces, by the bits `n` that it carries. -/
theorem lead?_two {n : Nat} (h : 2 ≤ n) (h' : n < 32) :
    lead? (n + 192) = some ⟨1, n, 0x80, 0xBF⟩ := by
  interval_cases n <;> rfl

theorem lead?_three {n : Nat} (h : n < 16) :
    lead? (n + 224) =
      some ⟨2, n, if n = 0 then 0xA0 else 0x80, if n = 13 then 0x9F else 0xBF⟩ := by
  interval_cases n <;> rfl

theorem lead?_four {n : Nat} (h : n < 5) :
    lead? (n + 240) =
      some ⟨3, n, if n = 0 then 0x90 else 0x80, if n = 4 then 0x8F else 0xBF⟩ := by
  interval_cases n <;> rfl

/-- A first byte that is not ASCII leads to the bytes that follow it. -/
theorem next_lead {b : Nat} {l : Lead} {rest : Bytes} (hb : 128 ≤ b) (hb' : b < 256)
    (h : lead? b = some l) :
    next (UInt8.ofNat b) rest =
      ((following l.following l.bits l.lo l.hi rest).1.map Char.ofNat,
        (following l.following l.bits l.lo l.hi rest).2) := by
  have hn : (UInt8.ofNat b).toNat = b := UInt8.toNat_ofNat_of_lt' hb'
  simp only [next, hn, h]
  rw [if_neg (by omega)]

/-- The sequence of a character is read back, whatever stands after it. -/
theorem next_utf8EncodeChar (c : Char) (rest : Bytes) :
    ∃ b bs, String.utf8EncodeChar c = b :: bs ∧ next b (bs ++ rest) = (some c, rest) := by
  have hc : Char.ofNat c.val.toNat = c := Char.ofNat_toNat c
  -- surrogates and what lies above the last plane are no characters
  have hv : c.val.toNat < 0xD800 ∨ 0xDFFF < c.val.toNat ∧ c.val.toNat < 0x110000 := c.valid
  unfold String.utf8EncodeChar
  generalize c.val.toNat = v at hc hv
  have hcode {n : Nat} (h : n = v) :
      ((following 0 n 0x80 0xBF rest).1.map Char.ofNat, (following 0 n 0x80 0xBF rest).2)
        = (some c, rest) := by
    rw [following, Option.map_some, h, hc]
  -- by the number of bytes; each byte that follows the first takes the code point six bits further
  dsimp only
  split_ifs with h1 h2 h3
  · refine ⟨_, _, rfl, ?_⟩
    have hb : (UInt8.ofNat v).toNat = v := UInt8.toNat_ofNat_of_lt' (Nat.lt_of_le_of_lt h1 (by decide))
    simp only [next, hb, List.nil_append]
    rw [if_pos (by omega), hc]
  · refine ⟨_, _, rfl, ?_⟩
    rw [next_lead (by omega) (by omega) (lead?_two (by omega) (by omega))]
    simp only [List.cons_append, List.nil_append]
    rw [following_succ (by omega) (by omega) (by omega)]
    exact hcode (by omega)
  · refine ⟨_, _, rfl, ?_⟩
    rw [next_lead (by omega) (by omega) (lead?_three (by omega))]
    simp only [List.cons_append, List.nil_append]
    -- the range of the second byte leaves out overlong forms and surrogates, which this is not
    rw [following_succ (by omega) (by split <;> omega) (by split <;> omega),
      following_succ (by omega) (by omega) (by omega)]
    exact hcode (by omega)
  · refine ⟨_, _, rfl, ?_⟩
    rw [next_lead (by omega) (by omega) (lead?_four (by omega))]
    simp only [List.cons_append, List.nil_append]
    rw [following_succ (by omega) (by split <;> omega) (by split <;> omega),
      following_succ (by omega) (by omega) (by omega),
      following_succ (by omega) (by omega) (by omega)]
    exact hcode (by omega)

/-- A byte below 0x80 is the sequence of its character and stands in no other. -/
theorem toNat_of_mem {c : Char} {b : UInt8} (h : b ∈ String.utf8EncodeChar c)
    (hb : b.toNat < 0x80) : c.toNat = b.toNat := by
  have hv : c.val.toNat < 0x110000 := by
    rcases c.valid with h | h
    · exact Nat.lt_trans h (by decide)
    · exact h.2
  show c.val.toNat = b.toNat
  unfold String.utf8EncodeChar at h
  dsimp only at h
  generalize c.val.toNat = v at h hv ⊢
  -- in a sequence of more than one byte, all of them are at least 0x80
  split_ifs at h <;> simp only [List.mem_cons, List.not_mem_nil, or_false] at h
  · rw [h, UInt8.toNat_ofNat']
    omega
  · rcases h with rfl | rfl <;> rw [UInt8.toNat_ofNat'] at hb <;> omega
  · rcases h with rfl | rfl | rfl <;> rw [UInt8.toNat_ofNat'] at hb <;> omega
  · rcases h with rfl | rfl | rfl | rfl <;> rw [UInt8.toNat_ofNat'] at hb <;> omega

/-! ## Whole texts -/

/-- The bytes of a text begin with a sequence that is read as its first character. -/
theorem encode_cons (c : Char) (t : Text) :
    ∃ b bs, encode (c :: t) = b :: (bs ++ encode t) ∧
      next b (bs ++ encode t) = (some c, encode t) := by
  obtain ⟨b, bs, hbs, hnext⟩ := next_utf8EncodeChar c (encode t)
  refine ⟨b, bs, ?_, hnext⟩
  rw [encode, List.flatMap_cons, hbs, List.cons_append, ← encode]

/-- The strict reader inverts the writer. -/
theorem decode?_encode (t : Text) : decode? (encode t) = some t := by
  induction t with
  | nil => simp [encode, decode?]
  | cons c t ih =>
    obtain ⟨b, bs, hcons, hnext⟩ := encode_cons c t
    rw [hcons, decode?, hnext, ih]
    rfl

/-- The lossy reader inverts the writer as well. -/
theorem decodeLossy_encode (t : Text) : decodeLossy (encode t) = t := by
  induction t with
  | nil => simp [encode, decodeLossy]
  | cons c t ih =>
    obtain ⟨b, bs, hcons, hnext⟩ := encode_cons c t
    rw [hcons, decodeLossy, hnext, ih]
    rfl

end Utf8
end CurlScribe
