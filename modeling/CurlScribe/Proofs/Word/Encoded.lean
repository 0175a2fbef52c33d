import CurlScribe.Proofs.Word.Normal
import CurlScribe.Request.Body

/-!
# Encoded pairs

A pair is encoded as its key, a literal `=` and its value, and pairs are joined by a literal `&`.
What is encoded is in normal form as soon as the keys are.
-/

namespace CurlScribe
namespace Body

/-- A pair is encoded with an equals sign between its words. -/
theorem atoms_encodedPair (pair : Word × Word) :
    (encodedPair pair).atoms = pair.1.atoms ++ .char '=' :: pair.2.atoms := by
  simp [encodedPair]

/-- Pairs are encoded with ampersands between them. -/
theorem atoms_encoded (pairs : List (Word × Word)) :
    (encoded pairs).atoms =
      [Atom.char '&'].intercalate (pairs.map fun p => (encodedPair p).atoms) := by
  match pairs with
  | [] => rfl
  | [pair] => rw [encoded, List.map_singleton, List.intercalate_singleton]
  | pair :: next :: rest =>
    show ((encodedPair pair).pushChar '&' ++ encoded (next :: rest)).atoms = _
    rw [Word.atoms_append, Word.atoms_pushChar, atoms_encoded (next :: rest)]
    simp only [List.map_cons, List.intercalate_cons_cons]

theorem isNormal_encodedPair {pair : Word × Word} (h : pair.1.IsNormal) :
    (encodedPair pair).IsNormal := Word.isNormal_append (Word.isNormal_pushText h _) _

/-- The encoded text of normal words is normal. -/
theorem isNormal_encoded {pairs : List (Word × Word)} (h : ∀ p ∈ pairs, p.1.IsNormal) :
    (encoded pairs).IsNormal := by
  match pairs with
  | [] => trivial
  | [pair] => exact isNormal_encodedPair (h pair List.mem_cons_self)
  | pair :: _ :: _ =>
    have hp := isNormal_encodedPair (h pair List.mem_cons_self)
    exact Word.isNormal_append (Word.isNormal_pushText hp _) _

end Body
end CurlScribe
