import CurlScribe.Encoding.Percent
import CurlScribe.Proofs.Encoding.Utf8

/-!
# Texts through percent coding

A text is read back from its percent-encoded form, whichever characters stand for themselves in it,
as long as `%` does not: then every `%` begins the two digits of a byte, and the bytes that are read
are those of the text.
-/

namespace CurlScribe
namespace Percent

/-! ## Escaped bytes -/

/-- The upper-case hexadecimal digit of a number below 16. -/
def digit (n : Nat) : Char := (Text.hexDigit n).toUpper

theorem upper_hex_two : ∀ n < 256,
    (Text.hex 2 n).map Char.toUpper = [digit (n / 16), digit (n % 16)] := by decide +kernel

theorem hexValue?_digit : ∀ n < 16, Text.hexValue? (digit n) = some n := by decide

theorem isAlphanum_digit : ∀ n < 16, (digit n).isAlphanum = true := by decide

theorem escapeByte_eq (b : UInt8) :
    escapeByte b = ['%', digit (b.toNat / 16), digit (b.toNat % 16)] := by
  rw [escapeByte, upper_hex_two b.toNat b.toNat_lt]

/-- An escaped byte is spelt with `%`, letters and digits. -/
theorem mem_escapeByte {b : UInt8} {c : Char} (h : c ∈ escapeByte b) :
    c = '%' ∨ c.isAlphanum = true := by
  have hb := b.toNat_lt
  rw [escapeByte_eq] at h
  simp only [List.mem_cons, List.not_mem_nil, or_false] at h
  rcases h with rfl | rfl | rfl
  · exact .inl rfl
  · exact .inr (isAlphanum_digit _ (by omega))
  · exact .inr (isAlphanum_digit _ (by omega))

/-- An escaped byte is read back, whatever stands after it. -/
theorem decodeBytes_escapeByte (b : UInt8) (rest : Text) :
    decodeBytes (escapeByte b ++ rest) = b :: decodeBytes rest := by
  have hb := b.toNat_lt
  have hvalue : 16 * (b.toNat / 16) + b.toNat % 16 = b.toNat := Nat.div_add_mod ..
  rw [escapeByte_eq]
  simp only [List.cons_append, List.nil_append, decodeBytes]
  rw [hexValue?_digit _ (by omega), hexValue?_digit _ (by omega)]
  dsimp only
  rw [hvalue, UInt8.ofNat_toNat]

theorem decodeBytes_escapeBytes (bytes : Bytes) (rest : Text) :
    decodeBytes (bytes.flatMap escapeByte ++ rest) = bytes ++ decodeBytes rest := by
  induction bytes with
  | nil => rfl
  | cons b bytes ih =>
    rw [List.flatMap_cons, List.append_assoc, decodeBytes_escapeByte, ih, List.cons_append]

/-! ## Characters -/

/-- A character other than `%` stands for itself. -/
theorem decodeBytes_cons {c : Char} (hc : c ≠ '%') (rest : Text) :
    decodeBytes (c :: rest) = String.utf8EncodeChar c ++ decodeBytes rest := by
  rw [decodeBytes]
  intro _ _ _ h
  exact absurd h hc

section Kept

variable {keep : Char → Bool}

theorem decodeBytes_escapeChar (hkeep : keep '%' = false) (c : Char) (rest : Text) :
    decodeBytes (escapeChar keep c ++ rest) = String.utf8EncodeChar c ++ decodeBytes rest := by
  unfold escapeChar
  split
  next hkept =>
    have hc : c ≠ '%' := by
      rintro rfl
      simp [hkeep] at hkept
    exact decodeBytes_cons hc rest
  next => exact decodeBytes_escapeBytes _ rest

/-- An encoded text is made of kept characters and escaped bytes. -/
theorem exists_of_mem_encode {t : Text} {c : Char} (h : c ∈ encode keep t) :
    (∃ b, c ∈ escapeByte b) ∨ c ∈ t ∧ Text.isAscii c = true ∧ keep c = true := by
  obtain ⟨d, hd, hc⟩ := List.mem_flatMap.1 h
  unfold escapeChar at hc
  split at hc
  next hkept =>
    obtain rfl := List.mem_singleton.1 hc
    rw [Bool.and_eq_true] at hkept
    exact .inr ⟨hd, hkept⟩
  next =>
    obtain ⟨b, -, hb⟩ := List.mem_flatMap.1 hc
    exact .inl ⟨b, hb⟩

/-! ## Whole texts -/

theorem decodeBytes_encode (hkeep : keep '%' = false) (t : Text) :
    decodeBytes (encode keep t) = Utf8.encode t := by
  induction t with
  | nil => rfl
  | cons c t ih =>
    rw [encode, List.flatMap_cons, decodeBytes_escapeChar hkeep, Utf8.encode, List.flatMap_cons]
    exact congrArg _ ih

/-- The reader inverts every writer that does not keep `%`. -/
theorem decode_encode (hkeep : keep '%' = false) (t : Text) : decode (encode keep t) = t := by
  rw [decode, decodeBytes_encode hkeep, Utf8.decodeLossy_encode]

end Kept

end Percent
end CurlScribe
