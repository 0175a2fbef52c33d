import CurlScribe.Target.Code
import Mathlib.Logic.Function.Basic

/-!
# Sorted imports

Modules are collected as the code comes to need them, with repetitions, and sorted at the end. The
sorted row has the same modules, and its keys ascend strictly, so none is repeated.
-/

namespace CurlScribe

section Sorting

variable {α : Type} {key : α → Text}

theorem mem_insertSorted {a b : α} {entries : List α} :
    b ∈ insertSorted key a entries ↔ b = a ∨ b ∈ entries := by
  induction entries with
  | nil => simp [insertSorted]
  | cons c rest ih =>
    rw [insertSorted]
    split
    · rw [List.mem_cons, ih, List.mem_cons, or_left_comm]
    · exact List.mem_cons

/-- An entry stops in front of the first one that may follow it, so a row in order stays in
order. -/
theorem pairwise_insertSorted (a : α) {entries : List α}
    (h : entries.Pairwise fun b c => ¬ key c < key b) :
    (insertSorted key a entries).Pairwise fun b c => ¬ key c < key b := by
  induction entries with
  | nil => exact List.pairwise_singleton _ _
  | cons c rest ih =>
    obtain ⟨hc, hrest⟩ := List.pairwise_cons.1 h
    rw [insertSorted]
    split
    next hca =>
      refine List.pairwise_cons.2 ⟨?_, ih hrest⟩
      intro b hb
      rcases mem_insertSorted.1 hb with rfl | hb
      · exact List.lt_asymm hca
      · exact hc b hb
    next hca =>
      refine List.pairwise_cons.2 ⟨?_, h⟩
      intro b hb
      rcases List.mem_cons.1 hb with rfl | hb
      · exact hca
      -- `b` comes after `c` and `c` not before `a`, so `b` is not before `a` either
      · intro hba
        have hcb : ¬ key b < key c := hc b hb
        exact hca (List.lt_of_le_of_lt hcb hba)

variable [DecidableEq α]

theorem mem_dropRepeats {a : α} {entries : List α} : a ∈ dropRepeats entries ↔ a ∈ entries := by
  fun_induction dropRepeats entries with
  | case1 b rest ih =>
    rw [ih]
    exact ⟨List.mem_cons_of_mem b, fun h => (List.mem_cons.1 h).elim (· ▸ List.mem_cons_self) id⟩
  | case2 b c rest _ ih => rw [List.mem_cons, ih, List.mem_cons (b := b)]
  | case3 short _ => rfl

/-- Of a row in order, the entries that are left ascend strictly if no two have one key. -/
theorem pairwise_dropRepeats (hkey : Function.Injective key) {entries : List α}
    (h : entries.Pairwise fun b c => ¬ key c < key b) :
    (dropRepeats entries).Pairwise fun b c => key b < key c := by
  fun_induction dropRepeats entries with
  | case1 b rest ih => exact ih (List.pairwise_cons.1 h).2
  | case2 b c rest hbc ih =>
    obtain ⟨hb, hrest⟩ := List.pairwise_cons.1 h
    have hlt : key b < key c := by
      refine List.not_le.1 fun hcb => hbc (hkey ?_)
      exact List.le_antisymm (hb c List.mem_cons_self) hcb
    refine List.pairwise_cons.2 ⟨?_, ih hrest⟩
    intro d hd
    rcases List.mem_cons.1 (mem_dropRepeats.1 hd) with rfl | hd
    · exact hlt
    · have hcd : ¬ key d < key c := (List.pairwise_cons.1 hrest).1 d hd
      exact List.not_le.1 fun hdb => hcd (List.lt_of_le_of_lt hdb hlt)
  | case3 short hshort =>
    match short, hshort with
    | [], _ => exact List.Pairwise.nil
    | [b], _ => exact List.pairwise_singleton _ _
    | b :: c :: rest, hshort => exact absurd rfl (hshort b c rest)

/-- Sorting loses no entry and invents none. -/
theorem mem_sortedOnce {a : α} {entries : List α} :
    a ∈ sortedOnce key entries ↔ a ∈ entries := by
  rw [sortedOnce, mem_dropRepeats]
  induction entries with
  | nil => rfl
  | cons b rest ih => rw [List.foldr_cons, mem_insertSorted, ih, List.mem_cons]

/-- The sorted entries ascend strictly by their keys: each stands there once. -/
theorem pairwise_sortedOnce (hkey : Function.Injective key) (entries : List α) :
    (sortedOnce key entries).Pairwise fun a b => key a < key b := by
  refine pairwise_dropRepeats hkey ?_
  induction entries with
  | nil => exact List.Pairwise.nil
  | cons a rest ih => exact pairwise_insertSorted a ih

end Sorting

end CurlScribe
