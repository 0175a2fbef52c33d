import CurlScribe.Proofs.Word.Normal
import CurlScribe.Word.Cut

/-!
# References in words

Words are built, cut and trimmed at their literal text, and a reference stays what it is. The pieces
of a word have the references of the word between them, in order, so none is lost and none comes to
be.
-/

namespace CurlScribe

/-! ## Parts -/

namespace WordPart

def reference? : WordPart → Option Reference
  | .text _ => none
  | .reference r => some r

/-- The references of parts in order. -/
def referencesOf (parts : List WordPart) : List Reference := parts.filterMap reference?

@[simp] theorem referencesOf_nil : referencesOf [] = [] := rfl

@[simp] theorem referencesOf_text (t : Text) (parts : List WordPart) :
    referencesOf (.text t :: parts) = referencesOf parts := rfl

@[simp] theorem referencesOf_reference (r : Reference) (parts : List WordPart) :
    referencesOf (.reference r :: parts) = r :: referencesOf parts := rfl

/-- The references of two rows of parts stand one behind the other. -/
@[simp] theorem referencesOf_append (ps qs : List WordPart) :
    referencesOf (ps ++ qs) = referencesOf ps ++ referencesOf qs := List.filterMap_append

@[simp] theorem referencesOf_ofText (t : Text) : referencesOf (ofText t) = [] := by
  cases t <;> rfl

/-- Text at the end of parts, or joined to the text there, leaves the references as they are. -/
@[simp] theorem referencesOf_pushText (t : Text) (parts : List WordPart) :
    referencesOf (pushText t parts) = referencesOf parts := by
  fun_induction pushText t parts with
  | case1 => simp
  | case2 s => rfl
  | case3 p rest _ ih => cases p <;> simp [ih]

/-- Parts that are pushed onto others bring their references along, in order. -/
theorem referencesOf_foldl_push (ps qs : List WordPart) :
    referencesOf (qs.foldl push ps) = referencesOf ps ++ referencesOf qs := by
  induction qs generalizing ps with
  | nil => simp
  | cons q qs ih =>
    rw [List.foldl_cons, ih]
    cases q with
    | text t => simp [push]
    | reference r => simp [push]

/-- A cut at the first character of a kind loses no reference: only text is cut. -/
theorem referencesOf_splitFirst {p : Char → Bool} {parts head tail : List WordPart}
    (h : splitFirst p parts = some (head, tail)) :
    referencesOf head ++ referencesOf tail = referencesOf parts := by
  fun_induction splitFirst p parts generalizing head with
  | case1 => cases h
  | case2 t rest before after _ =>
    cases h
    simp
  | case3 t rest _ ih =>
    obtain ⟨⟨head, tail⟩, hrest, heq⟩ := Option.map_eq_some_iff.1 h
    cases heq
    simpa using ih hrest
  | case4 r rest ih =>
    obtain ⟨⟨head, tail⟩, hrest, heq⟩ := Option.map_eq_some_iff.1 h
    cases heq
    simp [← ih hrest]

/-- A cut at the last character of a kind loses no reference. -/
theorem referencesOf_splitLast {p : Char → Bool} {parts head tail : List WordPart}
    (h : splitLast p parts = some (head, tail)) :
    referencesOf head ++ referencesOf tail = referencesOf parts := by
  fun_induction splitLast p parts generalizing head with
  | case1 => cases h
  | case2 t rest head tail hrest ih =>
    cases h
    simpa using ih hrest
  | case3 t rest _ _ =>
    obtain ⟨⟨before, after⟩, -, heq⟩ := Option.map_eq_some_iff.1 h
    cases heq
    simp
  | case4 r rest ih =>
    obtain ⟨⟨head, tail⟩, hrest, heq⟩ := Option.map_eq_some_iff.1 h
    cases heq
    simp [← ih hrest]

/-- Texts that are put between pieces leave the references of the pieces in order. -/
theorem referencesOf_joinPieces (first : List WordPart) (more : List (List WordPart))
    (texts : List Text) :
    referencesOf (joinPieces first more texts).1 ++
        (joinPieces first more texts).2.flatMap referencesOf =
      referencesOf first ++ more.flatMap referencesOf := by
  fun_induction joinPieces first more texts with
  | case1 => rfl
  | case2 last => simp
  | case3 t ts _ next others heq ih =>
    rw [heq] at ih
    simpa using ih

/-- The pieces between all characters of a kind hold the references of the whole, in order. -/
theorem referencesOf_cutAll (p : Char → Bool) (parts : List WordPart) :
    referencesOf (cutAll p parts).1 ++ (cutAll p parts).2.flatMap referencesOf =
      referencesOf parts := by
  fun_induction cutAll p parts with
  | case1 => rfl
  | case2 t rest first more heq ih =>
    rw [heq] at ih
    rw [referencesOf_joinPieces, referencesOf_text]
    exact ih
  | case3 r rest first more heq ih =>
    rw [heq] at ih
    simpa using ih

/-- Only blanks in the text before the first reference are trimmed. -/
@[simp] theorem referencesOf_trimStart (parts : List WordPart) :
    referencesOf (trimStart parts) = referencesOf parts := by
  fun_induction trimStart parts with
  | case1 t rest _ ih => exact ih
  | case2 t rest _ => rfl
  | case3 parts _ => rfl

/-- Only blanks in the text behind the last reference are trimmed. -/
@[simp] theorem referencesOf_trimEnd (parts : List WordPart) :
    referencesOf (trimEnd parts) = referencesOf parts := by
  fun_induction trimEnd parts with
  | case1 => rfl
  | case2 t rest hrest ih =>
    rw [hrest] at ih
    simpa using ih
  | case3 t rest _ ih => exact ih
  | case4 r rest ih => simp [ih]

end WordPart

/-! ## Words -/

namespace Word
open WordPart

theorem references_eq (w : Word) : w.references = referencesOf w.parts := rfl

@[simp] theorem references_mk (parts : List WordPart) :
    references ⟨parts⟩ = referencesOf parts := rfl

@[simp] theorem references_ofText (t : Text) : (ofText t).references = [] :=
  referencesOf_ofText t

@[simp] theorem references_pushText (w : Word) (t : Text) :
    (w.pushText t).references = w.references := referencesOf_pushText t w.parts

@[simp] theorem references_pushChar (w : Word) (c : Char) :
    (w.pushChar c).references = w.references := references_pushText w [c]

@[simp] theorem references_append (v w : Word) :
    (v ++ w).references = v.references ++ w.references := referencesOf_foldl_push v.parts w.parts

/-- A change of the texts of a word leaves its references as they are. -/
@[simp] theorem references_mapText (f : Text → Text) (w : Word) :
    (w.mapText f).references = w.references := by
  rw [mapText, ofParts, references_mk, referencesOf_foldl_push, referencesOf_nil, List.nil_append,
    referencesOf, List.filterMap_map]
  refine congrArg (fun f => w.parts.filterMap f) (funext fun p => ?_)
  cases p <;> rfl

@[simp] theorem references_trimStart (w : Word) : w.trimStart.references = w.references :=
  referencesOf_trimStart w.parts

@[simp] theorem references_trimEnd (w : Word) : w.trimEnd.references = w.references :=
  referencesOf_trimEnd w.parts

@[simp] theorem references_trim (w : Word) : w.trim.references = w.references := by
  rw [trim, references_trimEnd, references_trimStart]

/-- The references of a word go to the two sides of a cut in order. -/
theorem references_splitWhere {p : Char → Bool} {w head tail : Word}
    (h : w.splitWhere p = some (head, tail)) :
    head.references ++ tail.references = w.references := by
  obtain ⟨⟨hs, ts⟩, hsplit, heq⟩ := Option.map_eq_some_iff.1 h
  cases heq
  exact referencesOf_splitFirst hsplit

/-- A cut at the first place of a character keeps all references. -/
theorem references_splitOnce {c : Char} {w head tail : Word}
    (h : w.splitOnce c = some (head, tail)) :
    head.references ++ tail.references = w.references := references_splitWhere h

/-- The references of a word go to the two sides of its last cut in order. -/
theorem references_splitLastWhere {p : Char → Bool} {w head tail : Word}
    (h : w.splitLastWhere p = some (head, tail)) :
    head.references ++ tail.references = w.references := by
  obtain ⟨⟨hs, ts⟩, hsplit, heq⟩ := Option.map_eq_some_iff.1 h
  cases heq
  exact referencesOf_splitLast hsplit

/-- A cut at the last place of a character keeps all references. -/
theorem references_splitOnceLast {c : Char} {w head tail : Word}
    (h : w.splitOnceLast c = some (head, tail)) :
    head.references ++ tail.references = w.references := references_splitLastWhere h

/-- The pieces of a word have its references, in order. -/
theorem references_split (c : Char) (w : Word) :
    (w.split c).flatMap references = w.references := by
  rw [split, List.flatMap_map, List.flatMap_cons]
  exact referencesOf_cutAll (· == c) w.parts

theorem references_dropLeading? {c : Char} {w rest : Word} (h : w.dropLeading? c = some rest) :
    rest.references = w.references := by
  unfold dropLeading? at h
  split at h
  next hparts =>
    split at h
    · cases h
      simp [references_eq, hparts]
    · cases h
  next => cases h

theorem references_dropTrailing? {c : Char} {w front : Word}
    (h : w.dropTrailing? c = some front) : front.references = w.references := by
  unfold dropTrailing? at h
  split at h
  next t hlast =>
    split at h
    · cases h
      obtain ⟨front, hparts⟩ := List.getLast?_eq_some_iff.1 hlast
      simp [references_eq, hparts]
    · cases h
  next => cases h

/-- The last segment of a path keeps the references behind the last slash, and no others. -/
theorem references_basename_suffix (w : Word) : w.basename.references <:+ w.references := by
  unfold basename
  split
  next head tail h => exact ⟨head.references, references_splitLastWhere h⟩
  next => exact List.suffix_rfl

/-- A word without references is literal. -/
theorem references_of_literal? {w : Word} {t : Text} (h : w.literal? = some t) :
    w.references = [] := by
  unfold literal? at h
  split at h
  next hparts => simp [references_eq, hparts]
  next hparts => simp [references_eq, hparts]
  next => cases h

end Word
end CurlScribe
