import CurlScribe.Text.CharClass
import Mathlib.Data.List.DropRight

/-!
# Runs of characters

Where a text is cut at the first character of a class, what does not depend on case, and what
identifiers and digits are. These are the facts about texts that readers of words, names, numbers
and literals share.
-/

namespace CurlScribe
namespace Text

/-! ## Cutting -/

/-- A text that has a character of a class is cut where the first one stands. -/
theorem splitFirst_eq_some_iff {c : Char} {t before after : Text} :
    splitFirst (· == c) t = some (before, after) ↔
      t = before ++ c :: after ∧ c ∉ before := by
  induction t generalizing before with
  | nil => simp [splitFirst]
  | cons d t ih =>
    rw [splitFirst]
    by_cases hd : d = c
    · subst hd
      rw [if_pos (beq_self_eq_true d), Option.some.injEq, Prod.mk.injEq]
      constructor
      · rintro ⟨rfl, rfl⟩
        exact ⟨rfl, by simp⟩
      · rintro ⟨h, hn⟩
        cases before with
        | nil => exact ⟨rfl, by simpa using h⟩
        | cons e before => exact absurd (by rw [(List.cons.inj h).1]; simp) hn
    · rw [if_neg (by simpa using hd), Option.map_eq_some_iff]
      constructor
      · rintro ⟨⟨b, a⟩, hs, he⟩
        obtain ⟨rfl, rfl⟩ := Prod.mk.inj he
        obtain ⟨rfl, hn⟩ := ih.1 hs
        exact ⟨rfl, by simp [Ne.symm hd, hn]⟩
      · rintro ⟨h, hn⟩
        cases before with
        | nil => exact absurd (List.cons.inj h).1 hd
        | cons e before =>
          obtain ⟨rfl, rfl⟩ := List.cons.inj h
          exact ⟨(before, after), ih.2 ⟨rfl, by simp_all⟩, rfl⟩

theorem splitFirst_of_not_mem {c : Char} {t : Text} (h : c ∉ t) :
    splitFirst (· == c) t = none := by
  refine Option.eq_none_iff_forall_ne_some.2 fun (before, after) hs => ?_
  obtain ⟨rfl, -⟩ := splitFirst_eq_some_iff.1 hs
  exact h (List.mem_append_right before List.mem_cons_self)

theorem stripPrefix?_eq_some {lead t rest : Text} (h : stripPrefix? lead t = some rest) :
    t = lead ++ rest := by
  fun_induction stripPrefix? lead t with
  | case1 t => exact Option.some.inj h
  | case2 => exact absurd h (by simp)
  | case3 c lead t ih => rw [ih h, List.cons_append]
  | case4 => exact absurd h (by simp)

theorem stripPrefix?_append (lead rest : Text) : stripPrefix? lead (lead ++ rest) = some rest := by
  induction lead with
  | nil => rw [List.nil_append, stripPrefix?]
  | cons c lead ih => rw [List.cons_append, stripPrefix?, if_pos rfl, ih]

theorem hasInfix_eq_true_iff {part t : Text} : hasInfix part t = true ↔ part <:+: t := by
  induction t with
  | nil => rw [hasInfix, List.isEmpty_iff, List.infix_nil]
  | cons c t ih =>
    rw [hasInfix, Bool.or_eq_true, List.isPrefixOf_iff_prefix, ih, List.infix_cons_iff]

/-- A text that is cut around a separator is what the pieces make up with it. -/
theorem splitAround_eq_some {sep t before after : Text}
    (h : splitAround sep t = some (before, after)) : t = before ++ sep ++ after := by
  induction t generalizing before with
  | nil =>
    obtain ⟨rest, hs, he⟩ := Option.map_eq_some_iff.1 h
    obtain ⟨rfl, rfl⟩ := Prod.mk.inj he
    exact stripPrefix?_eq_some hs
  | cons c t ih =>
    rw [splitAround] at h
    split at h
    · next hs =>
      obtain ⟨rfl, rfl⟩ := Prod.mk.inj (Option.some.inj h)
      exact stripPrefix?_eq_some hs
    · obtain ⟨⟨b, a⟩, hs, he⟩ := Option.map_eq_some_iff.1 h
      obtain ⟨rfl, rfl⟩ := Prod.mk.inj he
      rw [ih hs]
      simp

/-- What stands before the first separator does not hold it. -/
theorem not_infix_of_splitAround {sep t before after : Text} (hsep : sep ≠ [])
    (h : splitAround sep t = some (before, after)) : ¬sep <:+: before := by
  induction t generalizing before with
  | nil =>
    obtain ⟨rest, -, he⟩ := Option.map_eq_some_iff.1 h
    obtain ⟨rfl, rfl⟩ := Prod.mk.inj he
    simpa using hsep
  | cons c t ih =>
    rw [splitAround] at h
    split at h
    · obtain ⟨rfl, rfl⟩ := Prod.mk.inj (Option.some.inj h)
      simpa using hsep
    next hstrip =>
      obtain ⟨⟨b, a⟩, hs, he⟩ := Option.map_eq_some_iff.1 h
      obtain ⟨rfl, rfl⟩ := Prod.mk.inj he
      rw [List.infix_cons_iff, not_or]
      refine ⟨?_, ih hs⟩
      intro ⟨more, hmore⟩
      rw [splitAround_eq_some hs, List.append_assoc, ← List.cons_append, ← hmore,
        List.append_assoc, stripPrefix?_append] at hstrip
      cases hstrip

/-- A separator of two characters is found behind a text that does not hold it. -/
theorem splitAround_pair {p q : Char} (hpq : p ≠ q) {t : Text} (h : ¬[p, q] <:+: t) (rest : Text) :
    splitAround [p, q] (t ++ p :: q :: rest) = some (t, rest) := by
  induction t with
  | nil =>
    show splitAround [p, q] (p :: q :: rest) = _
    rw [splitAround, stripPrefix?, if_pos rfl, stripPrefix?, if_pos rfl, stripPrefix?]
  | cons c t ih =>
    rw [List.infix_cons_iff, not_or] at h
    have hstrip : stripPrefix? [p, q] (c :: (t ++ p :: q :: rest)) = none := by
      -- the separator is not found early: its first character is followed by no second one
      by_cases hc : p = c
      · subst hc
        rw [stripPrefix?, if_pos rfl]
        cases t with
        | nil => exact if_neg (Ne.symm hpq)
        | cons d t =>
          have hd : q ≠ d := by
            intro hd
            exact h.1 ⟨t, by rw [hd]; rfl⟩
          exact if_neg hd
      · rw [stripPrefix?, if_neg hc]
    rw [List.cons_append, splitAround, hstrip, ih h.2]
    rfl

/-- A pair of characters does not come about behind a text without its second character. -/
theorem not_infix_pair_append {p q : Char} {s t : Text} (hs : ¬[p, q] <:+: s) (ht : q ∉ t) :
    ¬[p, q] <:+: s ++ t := by
  induction s with
  | nil =>
    intro h
    exact ht (h.subset (by simp))
  | cons c s ih =>
    rw [List.infix_cons_iff, not_or] at hs
    rw [List.cons_append, List.infix_cons_iff, not_or]
    refine ⟨?_, ih hs.2⟩
    intro h
    rw [List.cons_prefix_cons] at h
    obtain ⟨rfl, h⟩ := h
    cases s with
    | nil => exact ht (h.subset (by simp))
    | cons d s =>
      obtain ⟨rfl, -⟩ := List.cons_prefix_cons.1 h
      exact hs.1 ⟨s, rfl⟩

theorem splitLast_eq_none {c : Char} {t : Text} (h : c ∉ t) : splitLast (· == c) t = none := by
  induction t with
  | nil => rfl
  | cons d t ih =>
    rw [List.mem_cons, not_or] at h
    rw [splitLast, ih h.2]
    exact if_neg (by simpa using Ne.symm h.1)

/-- A text is cut at the last character that satisfies a class if none does behind it. -/
theorem splitLast_append {c : Char} {after : Text} (h : c ∉ after) (before : Text) :
    splitLast (· == c) (before ++ c :: after) = some (before, after) := by
  induction before with
  | nil =>
    show splitLast (· == c) (c :: after) = _
    rw [splitLast, splitLast_eq_none h]
    exact if_pos (beq_self_eq_true c)
  | cons d before ih => rw [List.cons_append, splitLast, ih]

/-- The pieces of a text are those of its characters. -/
theorem split_eq_splitOn (c : Char) (t : Text) : split (· == c) t = t.splitOn c := by
  induction t with
  | nil => rfl
  | cons d t ih =>
    rw [List.splitOn_cons_eq_if_modifyHead, ← ih, split, cutAll]
    by_cases hd : (d == c) = true
    · simp [hd, split]
    · simp [hd, split]

/-- A run that satisfies a class up to an element that does not is what is taken from the front. -/
theorem takeWhile_dropWhile_append {α : Type} {p : α → Bool} {run rest : List α}
    (hr : ∀ a ∈ run, p a = true) (hs : ∀ a more, rest = a :: more → p a = false) :
    (run ++ rest).takeWhile p = run ∧ (run ++ rest).dropWhile p = rest := by
  rw [List.takeWhile_append_of_pos hr, List.dropWhile_append_of_pos hr]
  cases rest with
  | nil => simp
  | cons a more =>
    have ha := hs a more rfl
    rw [List.takeWhile_cons_of_neg (by simp [ha]), List.dropWhile_cons_of_neg (by simp [ha])]
    simp

/-- A list with an element is cut around the last one that equals it. -/
theorem exists_last_of_mem {α : Type} {a : α} {as : List α} (h : a ∈ as) :
    ∃ front back, as = front ++ a :: back ∧ a ∉ back := by
  obtain ⟨back, front, hrev, hback⟩ := List.eq_append_cons_of_mem (List.mem_reverse.2 h)
  refine ⟨front.reverse, back.reverse, ?_, by simpa using hback⟩
  rw [← List.reverse_reverse as, hrev]
  simp

/-- What is left after a run does not go on with it. -/
theorem eq_false_of_dropWhile {p : Char → Bool} {t more : Text} {c : Char}
    (h : t.dropWhile p = c :: more) : p c = false := by
  have hhead := List.head?_dropWhile_not p t
  rw [h] at hhead
  simpa using hhead

/-- Nothing is dropped from the front if what stands first is kept. -/
theorem dropWhile_eq_self {α : Type} {p : α → Bool} {as : List α}
    (h : ∀ a ∈ as.head?, p a = false) : as.dropWhile p = as := by
  cases as with
  | nil => rfl
  | cons a as => rw [List.dropWhile_cons_of_neg (by simpa using h a rfl)]

/-- What stands first stays unless it is of the class and nothing is kept behind it. -/
theorem rdropWhile_cons {α : Type} (p : α → Bool) (a : α) (as : List α) :
    (a :: as).rdropWhile p =
      if as.rdropWhile p = [] ∧ p a = true then [] else a :: as.rdropWhile p := by
  unfold List.rdropWhile
  rw [List.reverse_cons, List.dropWhile_append]
  -- the first counts only if the whole tail has been dropped
  by_cases has : as.reverse.dropWhile p = []
  · by_cases ha : p a = true
    · simp [has, ha]
    · simp [has, ha]
  · simp [has]

theorem dropEndWhile_cons (p : Char → Bool) (c : Char) (t : Text) :
    dropEndWhile p (c :: t) =
      if dropEndWhile p t = [] ∧ p c = true then [] else c :: dropEndWhile p t :=
  rdropWhile_cons p c t

/-- Trimming leaves a text that no character of the class begins or ends. -/
theorem trimWhere_eq_self {p : Char → Bool} {t : Text} (hs : ∀ c ∈ t.head?, p c = false)
    (he : ∀ c ∈ t.getLast?, p c = false) : trimWhere p t = t := by
  have hback : t.reverse.dropWhile p = t.reverse :=
    dropWhile_eq_self (by rw [List.head?_reverse]; exact he)
  rw [trimWhere, dropEndWhile, dropWhile_eq_self hs, hback, List.reverse_reverse]

/-! ## ASCII case -/

/-- What is the same for both cases of the 26 letters is the same for both cases of any
character. -/
theorem apply_toLower {α : Type} {f : Char → α}
    (h : ∀ n ≤ 90, 65 ≤ n → f (Char.ofNat n).toLower = f (Char.ofNat n)) (c : Char) :
    f c.toLower = f c := by
  by_cases hletter : c.val ≥ 'A'.val ∧ c.val ≤ 'Z'.val
  · have hsame := h c.toNat hletter.2 hletter.1
    rwa [Char.ofNat_toNat] at hsame
  · have hlower : c.toLower = c := dif_neg hletter
    rw [hlower]

/-! ## Identifiers -/

theorem isNameChar_of_isNameStart {c : Char} (h : isNameStart c = true) :
    isNameChar c = true := by
  simp only [isNameStart, isNameChar, Char.isAlphanum, Bool.or_eq_true] at h ⊢
  exact h.imp .inl id

/-- An identifier begins with a letter or an underscore. -/
theorem isName_iff {name : Text} :
    isName name = true ↔
      ∃ c rest, name = c :: rest ∧ isNameStart c = true ∧
        ∀ d ∈ rest, isNameChar d = true := by
  cases name with
  | nil => simp [isName]
  | cons c rest =>
    simp only [isName, Bool.and_eq_true, List.all_eq_true]
    constructor
    · rintro ⟨hc, hr⟩
      exact ⟨c, rest, rfl, hc, hr⟩
    · rintro ⟨_, _, h, hc, hr⟩
      obtain ⟨rfl, rfl⟩ := List.cons.inj h
      exact ⟨hc, hr⟩

theorem forall_isNameChar {name : Text} (h : isName name = true) :
    ∀ c ∈ name, isNameChar c = true := by
  obtain ⟨c, rest, rfl, hc, hr⟩ := isName_iff.1 h
  intro d hd
  rcases List.mem_cons.1 hd with rfl | hd
  · exact isNameChar_of_isNameStart hc
  · exact hr d hd

/-! ## Digits -/

theorem toNat_of_isDigit {c : Char} (h : c.isDigit = true) : 48 ≤ c.toNat ∧ c.toNat ≤ 57 := by
  obtain ⟨hl, hu⟩ := Bool.and_eq_true_iff.1 h
  exact ⟨of_decide_eq_true hl, of_decide_eq_true hu⟩

/-- The three ranges of hexadecimal digits, and what a digit is worth in each. -/
theorem hexValue?_cases {c : Char} {d : Nat} (h : hexValue? c = some d) :
    (48 ≤ c.toNat ∧ c.toNat ≤ 57 ∧ d = c.toNat - 48) ∨
      (97 ≤ c.toNat ∧ c.toNat ≤ 102 ∧ d = c.toNat - 87) ∨
      (65 ≤ c.toNat ∧ c.toNat ≤ 70 ∧ d = c.toNat - 55) := by
  unfold hexValue? at h
  split at h
  · next hdigit =>
    have hrange := toNat_of_isDigit hdigit
    have hd : c.toNat - 48 = d := Option.some.inj h
    omega
  split at h
  · next hletter =>
    obtain ⟨hl, hu⟩ := Bool.and_eq_true_iff.1 hletter
    have hlower : 97 ≤ c.toNat := of_decide_eq_true hl
    have hupper : c.toNat ≤ 102 := of_decide_eq_true hu
    have hd : c.toNat - 97 + 10 = d := Option.some.inj h
    omega
  split at h
  · next hletter =>
    obtain ⟨hl, hu⟩ := Bool.and_eq_true_iff.1 hletter
    have hlower : 65 ≤ c.toNat := of_decide_eq_true hl
    have hupper : c.toNat ≤ 70 := of_decide_eq_true hu
    have hd : c.toNat - 65 + 10 = d := Option.some.inj h
    omega
  · cases h

theorem octalValue?_eq {c : Char} {d : Nat} (h : octalValue? c = some d) :
    48 ≤ c.toNat ∧ c.toNat ≤ 55 ∧ d = c.toNat - 48 := by
  unfold octalValue? at h
  split at h
  · next hdigit =>
    obtain ⟨hl, hu⟩ := Bool.and_eq_true_iff.1 hdigit
    have hlower : 48 ≤ c.toNat := of_decide_eq_true hl
    have hupper : c.toNat ≤ 55 := of_decide_eq_true hu
    have hd : c.toNat - 48 = d := Option.some.inj h
    omega
  · cases h

end Text
end CurlScribe
