import CurlScribe.Proofs.Encoding.Percent
import CurlScribe.Proofs.Word.References
import CurlScribe.Proofs.Word.Refinement

/-!
# Texts through form encoding

Form encoding escapes every character that is not unreserved, and then writes a `+` for each space.
The two steps may be taken at once, character by character, because no other escaped bytes spell
that of a space and because a `%` of the text is escaped itself. A text is read back by undoing the
two steps in turn. A word is encoded run by run, so that its references stay where they are.
-/

namespace CurlScribe
namespace FormEncoding

/-! ## Characters -/

theorem isUnreserved_of_isAlphanum {c : Char} (h : c.isAlphanum = true) :
    isUnreserved c = true := by
  simp [isUnreserved, h]

/-- An escaped text is spelt with `%` and unreserved characters. -/
theorem mem_escaped {t : Text} {c : Char} (h : c ∈ Percent.encode isUnreserved t) :
    c = '%' ∨ isUnreserved c = true := by
  rcases Percent.exists_of_mem_encode h with ⟨b, hb⟩ | ⟨-, -, hkept⟩
  · exact (Percent.mem_escapeByte hb).imp_right isUnreserved_of_isAlphanum
  · exact .inr hkept

theorem mem_escapeChar {c d : Char} (h : d ∈ Percent.escapeChar isUnreserved c) :
    d = '%' ∨ isUnreserved d = true := by
  refine mem_escaped (t := [c]) ?_
  simpa [Percent.encode] using h

/-- A character of an encoded text. -/
def isEncodedChar (c : Char) : Bool := isUnreserved c || c == '%' || c == '+'

/-- An encoded text is spelt with unreserved characters, `%` and `+`. -/
theorem isEncodedChar_of_mem {t : Text} {c : Char} (h : c ∈ encode t) : isEncodedChar c = true := by
  obtain ⟨d, -, hc⟩ := List.mem_flatMap.1 h
  unfold encodeChar at hc
  split at hc
  · obtain rfl := List.mem_singleton.1 hc
    rfl
  · rcases mem_escapeChar hc with rfl | hkept
    · rfl
    · simp [isEncodedChar, hkept]

/-! ## Escaping first and writing spaces afterwards -/

/-- The text with `+` for the escaped bytes of each space. -/
def spacesAsPlus : Text → Text
  | '%' :: '2' :: '0' :: rest => '+' :: spacesAsPlus rest
  | c :: rest => c :: spacesAsPlus rest
  | [] => []

theorem spacesAsPlus_cons {c : Char} (hc : c ≠ '%') (rest : Text) :
    spacesAsPlus (c :: rest) = c :: spacesAsPlus rest := by
  rw [spacesAsPlus]
  intro _ h
  exact absurd h hc

/-- The digits of a byte are those of a space only if the byte is. -/
theorem digit_space : ∀ m < 16, ∀ n < 16,
    Percent.digit m = '2' → Percent.digit n = '0' → 16 * m + n = 0x20 := by decide

theorem digit_ne_percent : ∀ n < 16, Percent.digit n ≠ '%' := by decide

/-- No other escaped byte is taken for that of a space, whatever stands after it. -/
theorem spacesAsPlus_escapeByte {b : UInt8} (hb : b ≠ 0x20) (rest : Text) :
    spacesAsPlus (Percent.escapeByte b ++ rest) = Percent.escapeByte b ++ spacesAsPlus rest := by
  have hlt := b.toNat_lt
  have hhigh : b.toNat / 16 < 16 := by omega
  have hlow : b.toNat % 16 < 16 := by omega
  rw [Percent.escapeByte_eq]
  simp only [List.cons_append, List.nil_append]
  rw [spacesAsPlus, spacesAsPlus_cons (digit_ne_percent _ hhigh),
    spacesAsPlus_cons (digit_ne_percent _ hlow)]
  intro _ _ hdigits
  obtain ⟨h2, htail⟩ := List.cons.inj hdigits
  have hspace := digit_space _ hhigh _ hlow h2 (List.cons.inj htail).1
  have hvalue : b.toNat = 0x20 := by omega
  exact hb (UInt8.toNat_inj.1 hvalue)

theorem spacesAsPlus_escapeBytes {bytes : Bytes} (hbytes : ∀ b ∈ bytes, b ≠ 0x20) (rest : Text) :
    spacesAsPlus (bytes.flatMap Percent.escapeByte ++ rest) =
      bytes.flatMap Percent.escapeByte ++ spacesAsPlus rest := by
  induction bytes with
  | nil => rfl
  | cons b bytes ih =>
    obtain ⟨hb, hbytes⟩ := List.forall_mem_cons.1 hbytes
    rw [List.flatMap_cons, List.append_assoc, spacesAsPlus_escapeByte hb, ih hbytes,
      List.append_assoc]

theorem spacesAsPlus_escapeChar (c : Char) (rest : Text) :
    spacesAsPlus (Percent.escapeChar isUnreserved c ++ rest) =
      encodeChar c ++ spacesAsPlus rest := by
  by_cases hspace : c = ' '
  · subst hspace
    show spacesAsPlus ('%' :: '2' :: '0' :: rest) = '+' :: spacesAsPlus rest
    rw [spacesAsPlus]
  · rw [encodeChar, if_neg (by simpa using hspace), Percent.escapeChar]
    split
    next hkept =>
      have hc : c ≠ '%' := by
        rintro rfl
        exact absurd hkept (by decide)
      exact spacesAsPlus_cons hc rest
    next =>
      refine spacesAsPlus_escapeBytes ?_ rest
      rintro b hb rfl
      exact hspace (Char.toNat_inj.1 (Utf8.toNat_of_mem hb (by decide)))

/-- An encoded text is the escaped text with `+` for the escaped bytes of each space. -/
theorem encode_eq_spacesAsPlus (t : Text) :
    encode t = spacesAsPlus (Percent.encode isUnreserved t) := by
  induction t with
  | nil => rfl
  | cons c t ih =>
    rw [Percent.encode, List.flatMap_cons, spacesAsPlus_escapeChar, encode, List.flatMap_cons]
    exact congrArg _ ih

/-! ## Reading back -/

/-- A `+` stands for a space. -/
def plusAsSpace (c : Char) : Char := if c = '+' then ' ' else c

/-- The text that a form-encoded text stands for. -/
def decode (t : Text) : Text := Percent.decode (t.map plusAsSpace)

/-- Reading each `+` as a space leaves a text that is escaped, but for its spaces. -/
theorem map_plusAsSpace_encodeChar (c : Char) :
    (encodeChar c).map plusAsSpace =
      Percent.escapeChar (fun d => isUnreserved d || d == ' ') c := by
  by_cases hspace : c = ' '
  · subst hspace
    rfl
  · have hplus : ∀ d ∈ Percent.escapeChar isUnreserved c, plusAsSpace d = d := by
      intro d hd
      refine if_neg ?_
      rintro rfl
      rcases mem_escapeChar hd with h | h
      · exact absurd h (by decide)
      · exact absurd h (by decide)
    rw [encodeChar, if_neg (by simpa using hspace), List.map_congr_left hplus, List.map_id']
    simp [Percent.escapeChar, hspace]

/-- Every text is read back from its encoding. -/
theorem decode_encode (t : Text) : decode (encode t) = t := by
  have hescaped : (encode t).map plusAsSpace =
      Percent.encode (fun d => isUnreserved d || d == ' ') t := by
    rw [encode, List.map_flatMap]
    exact List.flatMap_congr fun c _ => map_plusAsSpace_encodeChar c
  rw [decode, hescaped, Percent.decode_encode (by decide)]

/-! ## Words -/

@[simp] theorem encodeWord_ofText (t : Text) :
    encodeWord (Word.ofText t) = Word.ofText (encode t) := Word.mapText_ofText rfl t

@[simp] theorem encodeWord_ofReference (r : Reference) :
    encodeWord (Word.ofReference r) = Word.ofReference r := rfl

theorem atoms_encodeWord (w : Word) :
    (encodeWord w).atoms = w.atoms.flatMap (Atom.mapChar encodeChar) :=
  Word.atoms_mapText encodeChar w

/-- The encoding of two words in a row is that of the first and that of the second. -/
theorem encodeWord_append (v w : Word) : encodeWord (v ++ w) = encodeWord v ++ encodeWord w := by
  have hleft : (encodeWord (v ++ w)).IsNormal := Word.isNormal_mapText _ _
  have hright : (encodeWord v ++ encodeWord w).IsNormal :=
    Word.isNormal_append (Word.isNormal_mapText _ _) _
  rw [← Word.ofAtoms_atoms hleft, ← Word.ofAtoms_atoms hright, Word.atoms_append,
    atoms_encodeWord, atoms_encodeWord, atoms_encodeWord, Word.atoms_append, List.flatMap_append]

/-- Every word is read back from its encoding, run by run. -/
theorem mapText_decode_encodeWord {w : Word} (hw : w.IsNormal) :
    (encodeWord w).mapText decode = w :=
  Word.mapText_mapText rfl decode_encode hw

end FormEncoding
end CurlScribe
