import CurlScribe.Proofs.Text.Runs
import CurlScribe.Proofs.Word.Normal
import CurlScribe.Word.Cut

/-!
# Cutting words at atoms

The operations that cut and trim words act on parts, and what they do is best said of atoms: the
word of `as ++ .char c :: bs` cut at `c` is the word of `as` and the word of `bs`. Each operation
gets an equation for one character in front of normal parts; the equations for whole words follow by
induction on the atoms.
-/

namespace CurlScribe

namespace Atom

/-- Is this a literal character of the class `p`? -/
def satisfies (p : Char → Bool) : Atom → Bool
  | char c => p c
  | reference _ => false

@[simp] theorem satisfies_char (p : Char → Bool) (c : Char) : (char c).satisfies p = p c := rfl

@[simp] theorem satisfies_reference (p : Char → Bool) (r : Reference) :
    (reference r).satisfies p = false := rfl

/-- The class of `c` alone is had by the atom `c` alone. -/
theorem satisfies_beq (c : Char) (a : Atom) : a.satisfies (· == c) = (a == char c) := by
  cases a with
  | reference r => rfl
  | char d => simp [Bool.beq_eq_decide_eq]

theorem satisfies_beq_self (c : Char) : (char c).satisfies (· == c) = true :=
  beq_self_eq_true c

/-- Where no atom is the character `c`, none is of the class of `c` alone. -/
theorem forall_satisfies_beq {c : Char} {as : List Atom} (h : .char c ∉ as) :
    ∀ a ∈ as, a.satisfies (· == c) = false := by
  intro a ha
  rw [satisfies_beq, beq_eq_false_iff_ne]
  rintro rfl
  exact h ha

/-- The text of an atom, with `placeholder` for a reference. -/
def shape (placeholder : Text) : Atom → Text
  | char c => [c]
  | reference _ => placeholder

/-- The text of an atom as a command would write it without any quoting. -/
def written : Atom → Text
  | char c => [c]
  | reference r => r.written

end Atom

/-! ## One character in front of normal parts -/

namespace WordPart

/-- A character in front of a text is one more character of it. -/
theorem consAtom_ofText (c : Char) (t : Text) :
    consAtom (.char c) (ofText t) = ofText (c :: t) := by
  cases t with
  | nil => rfl
  | cons d t => rfl

theorem ofText_of_ne_nil {t : Text} (h : t ≠ []) : ofText t = [.text t] := by
  cases t with
  | nil => exact absurd rfl h
  | cons c t => rfl

theorem ofText_append_of_isNormal {t : Text} {rest : List WordPart}
    (h : IsNormal (.text t :: rest)) : ofText t ++ rest = .text t :: rest := by
  rw [ofText_of_ne_nil h.1, List.singleton_append]

/-- A cut looks at the first character first. -/
theorem splitFirst_consAtom (p : Char → Bool) (c : Char) {parts : List WordPart}
    (h : IsNormal parts) :
    splitFirst p (consAtom (.char c) parts) =
      if p c then some ([], parts)
      else (splitFirst p parts).map fun (head, tail) => (consAtom (.char c) head, tail) := by
  -- the character joins the text in front, or is a text of its own before a reference or the end
  rcases consAtom_char_cases c parts with ⟨t, rest, rfl, he⟩ | ⟨hs, he⟩
  · rw [he, splitFirst, splitFirst, Text.splitFirst]
    by_cases hc : p c = true
    · rw [if_pos hc, if_pos hc]
      show some (([] : List WordPart), ofText t ++ rest) = _
      rw [ofText_append_of_isNormal h]
    · rw [if_neg hc, if_neg hc]
      cases Text.splitFirst p t with
      | none =>
        cases splitFirst p rest with
        | none => rfl
        | some q => rfl
      | some q =>
        show some (ofText (c :: q.1), ofText q.2 ++ rest) = _
        rw [← consAtom_ofText]
        rfl
  · rw [he, splitFirst, Text.splitFirst]
    by_cases hc : p c = true
    · rw [if_pos hc, if_pos hc]
      rfl
    · rw [if_neg hc, if_neg hc]
      show (splitFirst p parts).map _ = (splitFirst p parts).map _
      cases parts with
      | nil => rfl
      | cons q rest =>
        cases q with
        | reference r =>
          rw [splitFirst, Option.map_map, Option.map_map]
          rfl
        | text t => exact absurd hs (by simp [startsWithText])

/-- A later character of the class counts before the one in front. -/
theorem splitLast_consAtom (p : Char → Bool) (c : Char) {parts : List WordPart}
    (h : IsNormal parts) :
    splitLast p (consAtom (.char c) parts) =
      match splitLast p parts with
      | some (head, tail) => some (consAtom (.char c) head, tail)
      | none => if p c then some ([], parts) else none := by
  -- the character joins a text in front, or is a part of its own
  rcases consAtom_char_cases c parts with ⟨t, rest, rfl, he⟩ | ⟨hs, he⟩
  · rw [he, splitLast, splitLast, Text.splitLast]
    cases splitLast p rest with
    | some q => rfl
    | none =>
      cases Text.splitLast p t with
      | some q =>
        show some (ofText (c :: q.1), ofText q.2 ++ rest) = _
        rw [← consAtom_ofText]
        rfl
      | none =>
        by_cases hc : p c = true
        · simp only [hc, if_true, Option.map_some, Option.map_none]
          show some (([] : List WordPart), ofText t ++ rest) = _
          rw [ofText_append_of_isNormal h]
        · simp [hc]
  · rw [he, splitLast]
    cases parts with
    | nil =>
      by_cases hc : p c = true
      · simp [splitLast, Text.splitLast, hc, ofText]
      · simp [splitLast, Text.splitLast, hc]
    | cons part rest =>
      cases part with
      | reference r =>
        rw [splitLast]
        cases splitLast p rest with
        | some q => rfl
        | none =>
          by_cases hc : p c = true
          · simp [Text.splitLast, hc, ofText]
          · simp [Text.splitLast, hc]
      | text t => exact absurd hs (by simp [startsWithText])

/-- Trimming looks at the first character first. -/
theorem trimStart_consAtom (c : Char) (parts : List WordPart) :
    trimStart (consAtom (.char c) parts) =
      if Text.isBlank c then trimStart parts else consAtom (.char c) parts := by
  rcases consAtom_char_cases c parts with ⟨t, rest, rfl, he⟩ | ⟨-, he⟩
  · rw [he, trimStart, Text.trimStart, List.dropWhile_cons]
    by_cases hc : Text.isBlank c = true
    · rw [if_pos hc, if_pos hc]
      rfl
    · rw [if_neg hc, if_neg hc]
  · rw [he, trimStart, Text.trimStart, List.dropWhile_cons]
    by_cases hc : Text.isBlank c = true
    · rw [if_pos hc, if_pos hc]
      rfl
    · rw [if_neg hc, if_neg hc]

/-- Blanks at the end go with what follows them: a character stays if it is visible or something
is kept behind it. -/
theorem trimEnd_consAtom (c : Char) (parts : List WordPart) :
    trimEnd (consAtom (.char c) parts) =
      if trimEnd parts = [] ∧ Text.isBlank c = true then []
      else consAtom (.char c) (trimEnd parts) := by
  -- what holds of the text that the character joins when nothing is kept behind that text
  have hcons (t : Text) : ofText (Text.trimEnd (c :: t)) =
      if ofText (Text.trimEnd t) = [] ∧ Text.isBlank c = true then []
      else consAtom (.char c) (ofText (Text.trimEnd t)) := by
    have hnil {s : Text} : ofText s = [] ↔ s = [] := by
      cases s with
      | nil => simp [ofText]
      | cons d s => simp [ofText]
    simp only [hnil, consAtom_ofText, Text.trimEnd, Text.dropEndWhile_cons]
    exact apply_ite ofText _ _ _
  rcases consAtom_char_cases c parts with ⟨t, rest, rfl, he⟩ | ⟨hs, he⟩
  · rw [he, trimEnd, trimEnd]
    cases trimEnd rest with
    | nil => exact hcons t
    | cons q kept => simp [consAtom]
  · rw [he, trimEnd]
    cases parts with
    | nil => exact hcons []
    | cons q rest =>
      cases q with
      | reference r => simp [trimEnd, consAtom]
      | text t => exact absurd hs (by simp [startsWithText])

/-! ### Cutting at every occurrence -/

/-- The first piece begins with text only if the whole does. -/
theorem startsWithText_cutAll (p : Char → Bool) {parts : List WordPart}
    (h : startsWithText parts = false) : startsWithText (cutAll p parts).1 = false := by
  match parts with
  | [] => rfl
  | .reference r :: rest => rfl
  | .text t :: rest => exact absurd h (by simp [startsWithText])

theorem joinPieces_nil_cons (first : List WordPart) (more : List (List WordPart)) {ts : List Text}
    (h : ts ≠ []) :
    joinPieces first more ([] :: ts) =
      ([], (joinPieces first more ts).1 :: (joinPieces first more ts).2) := by
  cases ts with
  | nil => exact absurd rfl h
  | cons t ts => rfl

theorem joinPieces_cons_cons {first : List WordPart} (h : startsWithText first = false)
    (more : List (List WordPart)) (c : Char) (t : Text) (ts : List Text) :
    joinPieces first more ((c :: t) :: ts) =
      (consAtom (.char c) (joinPieces first more (t :: ts)).1,
        (joinPieces first more (t :: ts)).2) := by
  cases ts with
  | cons t' ts =>
    show (ofText (c :: t), _) = (consAtom (.char c) (ofText t), _)
    rw [consAtom_ofText]
    rfl
  | nil =>
    show (ofText (c :: t) ++ first, more) = (consAtom (.char c) (ofText t ++ first), more)
    cases t with
    | cons d t => rfl
    | nil =>
      -- the piece is the character alone, which may not merge with what follows
      rcases consAtom_char_cases c first with ⟨t', rest, rfl, -⟩ | ⟨-, he⟩
      · exact absurd h (by simp [startsWithText])
      · exact congrArg (·, more) he.symm

/-- A cut at a first character leaves an empty piece in front; any other character belongs to the
first piece. -/
theorem cutAll_consAtom (p : Char → Bool) (c : Char) {parts : List WordPart}
    (h : IsNormal parts) :
    cutAll p (consAtom (.char c) parts) =
      if p c then ([], (cutAll p parts).1 :: (cutAll p parts).2)
      else (consAtom (.char c) (cutAll p parts).1, (cutAll p parts).2) := by
  have hsplit (t : Text) : Text.split p (c :: t) =
      if p c then [] :: Text.split p t
      else (c :: (Text.cutAll p t).1) :: (Text.cutAll p t).2 := by
    unfold Text.split
    rw [Text.cutAll]
    by_cases hc : p c = true
    · simp [hc]
    · simp [hc]
  -- again the character joins a text in front, or is a part of its own
  rcases consAtom_char_cases c parts with ⟨t, rest, rfl, he⟩ | ⟨hs, he⟩
  · rw [he, cutAll, cutAll, hsplit]
    by_cases hc : p c = true
    · rw [if_pos hc, if_pos hc]
      exact joinPieces_nil_cons _ _ (by simp [Text.split])
    · rw [if_neg hc, if_neg hc]
      exact joinPieces_cons_cons (startsWithText_cutAll p h.2.1) _ _ _ _
  · rw [he, cutAll, hsplit]
    by_cases hc : p c = true
    · rw [if_pos hc, if_pos hc]
      rfl
    · rw [if_neg hc, if_neg hc]
      exact joinPieces_cons_cons (startsWithText_cutAll p hs) _ _ _ _

/-! ### One atom in front of the parts of atoms -/

/-- The first cut, by recursion on atoms. -/
theorem splitFirst_ofAtoms_cons (p : Char → Bool) (a : Atom) (as : List Atom) :
    splitFirst p (ofAtoms (a :: as)) =
      if a.satisfies p then some ([], ofAtoms as)
      else (splitFirst p (ofAtoms as)).map fun (head, tail) => (consAtom a head, tail) := by
  cases a with
  | reference r => rfl
  | char c => exact splitFirst_consAtom p c (isNormal_ofAtoms as)

/-- The last cut, by recursion on atoms: it is at the first atom only if none follows. -/
theorem splitLast_ofAtoms_cons (p : Char → Bool) (a : Atom) (as : List Atom) :
    splitLast p (ofAtoms (a :: as)) =
      match splitLast p (ofAtoms as) with
      | some (head, tail) => some (consAtom a head, tail)
      | none => if a.satisfies p then some ([], ofAtoms as) else none := by
  cases a with
  | char c => exact splitLast_consAtom p c (isNormal_ofAtoms as)
  | reference r =>
    rw [ofAtoms_cons, consAtom, splitLast]
    cases splitLast p (ofAtoms as) with
    | some q => rfl
    | none => rfl

/-- All cuts, by recursion on atoms. -/
theorem cutAll_ofAtoms_cons (p : Char → Bool) (a : Atom) (as : List Atom) :
    cutAll p (ofAtoms (a :: as)) =
      if a.satisfies p then ([], (cutAll p (ofAtoms as)).1 :: (cutAll p (ofAtoms as)).2)
      else (consAtom a (cutAll p (ofAtoms as)).1, (cutAll p (ofAtoms as)).2) := by
  cases a with
  | reference r => rfl
  | char c => exact cutAll_consAtom p c (isNormal_ofAtoms as)

/-! ### Cutting where an atom is of the class -/

/-- Without a character of the kind there is no cut. -/
theorem splitFirst_eq_none {p : Char → Bool} {as : List Atom}
    (h : ∀ a ∈ as, a.satisfies p = false) : splitFirst p (ofAtoms as) = none := by
  induction as with
  | nil => rfl
  | cons a as ih =>
    obtain ⟨ha, has⟩ := List.forall_mem_cons.1 h
    rw [splitFirst_ofAtoms_cons, ha, ih has]
    rfl

/-- Parts are cut at the first atom of the class. -/
theorem splitFirst_ofAtoms_append {p : Char → Bool} {as : List Atom} {b : Atom} (bs : List Atom)
    (h : ∀ a ∈ as, a.satisfies p = false) (hb : b.satisfies p = true) :
    splitFirst p (ofAtoms (as ++ b :: bs)) = some (ofAtoms as, ofAtoms bs) := by
  induction as with
  | nil =>
    rw [List.nil_append, splitFirst_ofAtoms_cons, if_pos hb]
    rfl
  | cons a as ih =>
    obtain ⟨ha, has⟩ := List.forall_mem_cons.1 h
    rw [List.cons_append, splitFirst_ofAtoms_cons, ha, ih has]
    rfl

theorem splitLast_eq_none {p : Char → Bool} {as : List Atom}
    (h : ∀ a ∈ as, a.satisfies p = false) : splitLast p (ofAtoms as) = none := by
  induction as with
  | nil => rfl
  | cons a as ih =>
    obtain ⟨ha, has⟩ := List.forall_mem_cons.1 h
    rw [splitLast_ofAtoms_cons, ih has]
    simp [ha]

/-- Parts are cut at the last atom of the class. -/
theorem splitLast_ofAtoms_append {p : Char → Bool} (as : List Atom) {b : Atom} {bs : List Atom}
    (hb : b.satisfies p = true) (h : ∀ a ∈ bs, a.satisfies p = false) :
    splitLast p (ofAtoms (as ++ b :: bs)) = some (ofAtoms as, ofAtoms bs) := by
  induction as with
  | nil =>
    rw [List.nil_append, splitLast_ofAtoms_cons, splitLast_eq_none h]
    simp [hb]
  | cons a as ih => rw [List.cons_append, splitLast_ofAtoms_cons, ih, ofAtoms_cons]

/-- The pieces of parts are those of their atoms. -/
theorem cutAll_ofAtoms (p : Char → Bool) (as : List Atom) :
    (cutAll p (ofAtoms as)).1 :: (cutAll p (ofAtoms as)).2 =
      (as.splitOnP (·.satisfies p)).map ofAtoms := by
  induction as with
  | nil => rfl
  | cons a as ih =>
    rw [cutAll_ofAtoms_cons, List.splitOnP_cons_eq_if_modifyHead]
    by_cases ha : a.satisfies p = true
    · simp [ha, ih]
    · simp only [ha, if_neg, Bool.false_eq_true, not_false_eq_true]
      -- the atom goes to the first piece, and there is one
      cases hs : as.splitOnP (·.satisfies p) with
      | nil => exact absurd ih (by simp [hs])
      | cons first more =>
        rw [hs, List.map_cons, List.cons.injEq] at ih
        rw [List.modifyHead_cons, List.map_cons, ofAtoms_cons, ih.1, ih.2]

end WordPart

/-! ## Whole words -/

namespace Word

/-! ### Questions -/

theorem shape_eq (placeholder : Text) (w : Word) :
    w.shape placeholder = w.atoms.flatMap (Atom.shape placeholder) := by
  obtain ⟨parts⟩ := w
  induction parts with
  | nil => rfl
  | cons p parts ih =>
    rw [show (Word.mk (p :: parts)).atoms = p.atoms ++ (Word.mk parts).atoms from rfl,
      List.flatMap_append, ← ih]
    cases p with
    | text t => simp [shape, Atom.shape, List.flatMap_map]
    | reference r => simp [shape, Atom.shape]

/-- A word is written atom by atom. -/
theorem written_eq (w : Word) : w.written = w.atoms.flatMap Atom.written := by
  obtain ⟨parts⟩ := w
  induction parts with
  | nil => rfl
  | cons p parts ih =>
    rw [show (Word.mk (p :: parts)).atoms = p.atoms ++ (Word.mk parts).atoms from rfl,
      List.flatMap_append, ← ih]
    cases p with
    | text t => simp [written, Atom.written, List.flatMap_map]
    | reference r => simp [written, Atom.written]

/-- A word contains a character if it is one of its atoms: names of variables do not count. -/
theorem contains_eq_true_iff {c : Char} {w : Word} : w.contains c = true ↔ .char c ∈ w.atoms := by
  obtain ⟨parts⟩ := w
  show (parts.any _) = true ↔ _ ∈ parts.flatMap WordPart.atoms
  rw [List.any_eq_true, List.mem_flatMap]
  refine exists_congr fun p => and_congr_right fun _ => ?_
  cases p with
  | text t => simp [WordPart.atoms]
  | reference r => simp [WordPart.atoms]

/-- A normal word that is one given text is the word of that text. -/
theorem eq_ofText_of_isText {w : Word} {t : Text} (hw : w.IsNormal) (h : w.isText t = true) :
    w = ofText t := by
  obtain ⟨parts⟩ := w
  match parts with
  | [] =>
    obtain rfl : [] = t := by simpa [isText, literal?] using h
    rfl
  | [.text s] =>
    obtain rfl : s = t := by simpa [isText, literal?] using h
    rw [ofText, WordPart.ofText_of_ne_nil hw.1]
  | .reference _ :: _ => simp [isText, literal?] at h
  | .text _ :: _ :: _ => simp [isText, literal?] at h

theorem isEmpty_eq_false {w : Word} (h : w ≠ empty) : w.isEmpty = false := by
  obtain ⟨parts⟩ := w
  cases parts with
  | nil => exact absurd rfl h
  | cons p parts => rfl

/-- A normal word begins with a character only if that is its first atom. -/
theorem startsWith_eq_false {w : Word} {c : Char} (hw : w.IsNormal)
    (h : w.atoms.head? ≠ some (.char c)) : w.startsWith c = false := by
  obtain ⟨parts⟩ := w
  match parts with
  | [] => rfl
  | .reference r :: rest => rfl
  | .text [] :: rest => exact absurd rfl hw.1
  | .text (d :: t) :: rest =>
    have hd : d ≠ c := by
      rintro rfl
      exact h rfl
    simpa [startsWith] using hd

/-! ### Cutting -/

theorem splitOnce_of_not_mem {c : Char} {as : List Atom} (h : .char c ∉ as) :
    (ofAtoms as).splitOnce c = none := by
  show (WordPart.splitFirst (· == c) (WordPart.ofAtoms as)).map _ = none
  rw [WordPart.splitFirst_eq_none (Atom.forall_satisfies_beq h)]
  rfl

/-- A word is cut where the character stands for the first time. -/
theorem splitOnce_append {c : Char} {as : List Atom} (bs : List Atom) (h : .char c ∉ as) :
    (ofAtoms (as ++ .char c :: bs)).splitOnce c = some (ofAtoms as, ofAtoms bs) := by
  show (WordPart.splitFirst (· == c) (WordPart.ofAtoms (as ++ .char c :: bs))).map _ = _
  rw [WordPart.splitFirst_ofAtoms_append bs (Atom.forall_satisfies_beq h)
    (Atom.satisfies_beq_self c)]
  rfl

/-- A word is cut at the first place of a character, and what is in front avoids it. -/
theorem splitOnce_eq_some_iff {c : Char} {as : List Atom} {head tail : Word} :
    (ofAtoms as).splitOnce c = some (head, tail) ↔
      ∃ front back, head = ofAtoms front ∧ tail = ofAtoms back ∧
        as = front ++ .char c :: back ∧ .char c ∉ front := by
  constructor
  · intro h
    by_cases hc : Atom.char c ∈ as
    · obtain ⟨front, back, rfl, hfront⟩ := List.eq_append_cons_of_mem hc
      rw [splitOnce_append back hfront] at h
      obtain ⟨rfl, rfl⟩ := Prod.mk.inj (Option.some.inj h)
      exact ⟨front, back, rfl, rfl, rfl, hfront⟩
    · rw [splitOnce_of_not_mem hc] at h
      exact absurd h (by simp)
  · rintro ⟨front, back, rfl, rfl, rfl, hfront⟩
    exact splitOnce_append back hfront

/-- Cutting a word at every occurrence is cutting its atoms. -/
theorem split_ofAtoms (c : Char) (as : List Atom) :
    (ofAtoms as).split c = (as.splitOn (.char c)).map ofAtoms := by
  have hparts := congrArg (List.map Word.mk) (WordPart.cutAll_ofAtoms (· == c) as)
  simp only [Atom.satisfies_beq, List.map_map] at hparts
  exact hparts

theorem split_of_not_mem {c : Char} {as : List Atom} (h : .char c ∉ as) :
    (ofAtoms as).split c = [ofAtoms as] := by
  rw [split_ofAtoms, List.splitOn_eq_singleton h, List.map_singleton]

/-- The first piece ends at the first place of the character. -/
theorem split_append {c : Char} {as : List Atom} (bs : List Atom) (h : .char c ∉ as) :
    (ofAtoms (as ++ .char c :: bs)).split c = ofAtoms as :: (ofAtoms bs).split c := by
  rw [split_ofAtoms, List.splitOn_append_cons_self_of_not_mem h, List.map_cons, split_ofAtoms]

theorem splitLastWhere_of_forall {p : Char → Bool} {as : List Atom}
    (h : ∀ a ∈ as, a.satisfies p = false) : (ofAtoms as).splitLastWhere p = none := by
  show (WordPart.splitLast p (WordPart.ofAtoms as)).map _ = none
  rw [WordPart.splitLast_eq_none h]
  rfl

/-- A word is cut where a character of the class stands for the last time. -/
theorem splitLastWhere_append {p : Char → Bool} (as : List Atom) {b : Atom} {bs : List Atom}
    (hb : b.satisfies p = true) (h : ∀ a ∈ bs, a.satisfies p = false) :
    (ofAtoms (as ++ b :: bs)).splitLastWhere p = some (ofAtoms as, ofAtoms bs) := by
  show (WordPart.splitLast p (WordPart.ofAtoms (as ++ b :: bs))).map _ = _
  rw [WordPart.splitLast_ofAtoms_append as hb h]
  rfl

theorem splitOnceLast_of_not_mem {c : Char} {as : List Atom} (h : .char c ∉ as) :
    (ofAtoms as).splitOnceLast c = none :=
  splitLastWhere_of_forall (Atom.forall_satisfies_beq h)

/-! ### First and last characters -/

theorem dropLeading?_ofAtoms_cons (c d : Char) (as : List Atom) :
    (ofAtoms (.char d :: as)).dropLeading? c = if d == c then some (ofAtoms as) else none := by
  have hn := WordPart.isNormal_ofAtoms as
  show Word.dropLeading? c ⟨WordPart.consAtom (.char d) (WordPart.ofAtoms as)⟩ =
    if d == c then some (Word.mk (WordPart.ofAtoms as)) else none
  rcases WordPart.consAtom_char_cases d (WordPart.ofAtoms as) with ⟨t, rest, hp, he⟩ | ⟨-, he⟩
  · rw [he, hp]
    show (if d == c then some (Word.mk (WordPart.ofText t ++ rest)) else none) = _
    rw [WordPart.ofText_append_of_isNormal (hp ▸ hn)]
  · rw [he]
    rfl

theorem dropLeading?_ofAtoms_self (c : Char) (as : List Atom) :
    (ofAtoms (.char c :: as)).dropLeading? c = some (ofAtoms as) := by
  rw [dropLeading?_ofAtoms_cons, if_pos (beq_self_eq_true c)]

theorem dropLeading?_ofAtoms_of_ne {c d : Char} (h : d ≠ c) (as : List Atom) :
    (ofAtoms (.char d :: as)).dropLeading? c = none := by
  rw [dropLeading?_ofAtoms_cons, if_neg (by simpa using h)]

/-- A character is dropped only where it is the first atom. -/
theorem dropLeading?_ofAtoms {c : Char} {as : List Atom} {w : Word}
    (h : (ofAtoms as).dropLeading? c = some w) : ∃ bs, as = .char c :: bs ∧ w = ofAtoms bs := by
  match as with
  | [] => simp [dropLeading?, empty] at h
  | .reference r :: as => simp [dropLeading?, ofAtoms, WordPart.consAtom] at h
  | .char d :: as =>
    rw [dropLeading?_ofAtoms_cons] at h
    split at h
    · next hd => exact ⟨as, by rw [beq_iff_eq.1 hd], (Option.some.inj h).symm⟩
    · exact absurd h (by simp)

/-- A character that was just added at the end is what stands there. -/
theorem dropTrailing?_pushChar_eq {w : Word} (h : w.IsNormal) (c d : Char) :
    (w.pushChar d).dropTrailing? c = if d == c then some w else none := by
  -- the character was pushed onto a text at the end, or stands there as a text of its own
  have hcases : (∃ front s, w.parts = front ++ [.text s] ∧ s ≠ [] ∧
      WordPart.pushText [d] w.parts = front ++ [.text (s ++ [d])]) ∨
      WordPart.pushText [d] w.parts = w.parts ++ [.text [d]] := by
    obtain ⟨parts⟩ := w
    show (∃ front s, parts = front ++ [.text s] ∧ s ≠ [] ∧
      WordPart.pushText [d] parts = front ++ [.text (s ++ [d])]) ∨
      WordPart.pushText [d] parts = parts ++ [.text [d]]
    replace h : WordPart.IsNormal parts := h
    fun_induction WordPart.pushText [d] parts with
    | case1 => exact .inr rfl
    | case2 s => exact .inl ⟨[], s, rfl, h.1, rfl⟩
    | case3 p rest hp ih =>
      have hr : WordPart.IsNormal rest := by
        cases p with
        | text t => exact h.2.2
        | reference r => exact h
      rcases ih hr with ⟨front, s, hf, hs, he⟩ | he
      · exact .inl ⟨p :: front, s, by rw [hf]; rfl, hs, by rw [he]; rfl⟩
      · exact .inr (by rw [he]; rfl)
  show Word.dropTrailing? c ⟨WordPart.pushText [d] w.parts⟩ = _
  rcases hcases with ⟨front, s, hf, hs, he⟩ | he
  · rw [he]
    simp only [dropTrailing?, List.getLast?_append, List.getLast?_singleton,
      Option.some_or, List.dropLast_concat]
    rw [WordPart.ofText_of_ne_nil hs, ← hf]
    rfl
  · rw [he]
    simp [dropTrailing?, WordPart.ofText]

/-- A character at the end is dropped again. -/
theorem dropTrailing?_pushChar {w : Word} (h : w.IsNormal) (c : Char) :
    (w.pushChar c).dropTrailing? c = some w := by
  rw [dropTrailing?_pushChar_eq h, if_pos (beq_self_eq_true c)]

/-! ### Absent characters -/

/-- The literal character `c` does not occur in the word. -/
def Avoids (c : Char) (w : Word) : Prop := Atom.char c ∉ w.atoms

instance (c : Char) (w : Word) : Decidable (w.Avoids c) := inferInstanceAs (Decidable (¬ _))

/-- Text that is pushed onto two words is pushed onto the second. -/
theorem append_pushText {u v w : Word} (hu : u.IsNormal) {t : Text} :
    (u ++ v).pushText t ++ w = u ++ (v.pushText t ++ w) := by
  have hleft : ((u ++ v).pushText t ++ w).IsNormal :=
    isNormal_append (isNormal_pushText (isNormal_append hu v) t) w
  have hright : (u ++ (v.pushText t ++ w)).IsNormal := isNormal_append hu _
  rw [← ofAtoms_atoms hleft, ← ofAtoms_atoms hright]
  simp

/-- A text is cut off again where its first character, which does not occur before it, stands. -/
theorem splitOnce_pushText_append {v w : Word} {c : Char} {t : Text} (hv : v.IsNormal)
    (h : v.Avoids c) :
    (v.pushText (c :: t) ++ w).splitOnce c = some (v, ofAtoms (t.map .char ++ w.atoms)) := by
  have hsplit := splitOnce_append (t.map .char ++ w.atoms) h
  rw [ofAtoms_atoms hv] at hsplit
  rw [← hsplit]
  congr 1
  exact eq_ofAtoms (isNormal_append (isNormal_pushText hv _) w) (by simp)

/-- Two words with a character between them are cut there, if the first avoids it. -/
theorem splitOnce_pushChar_append {v w : Word} {c : Char} (hv : v.IsNormal) (hw : w.IsNormal)
    (h : v.Avoids c) : (v.pushChar c ++ w).splitOnce c = some (v, w) := by
  rw [pushChar, splitOnce_pushText_append hv h, List.map_nil, List.nil_append, ofAtoms_atoms hw]

/-! ### Trimming -/

/-- To trim the start is to drop blank atoms from the front: a reference is not blank. -/
theorem trimStart_ofAtoms (as : List Atom) :
    (ofAtoms as).trimStart = ofAtoms (as.dropWhile fun a => a.satisfies Text.isBlank) := by
  have hparts : WordPart.trimStart (WordPart.ofAtoms as) =
      WordPart.ofAtoms (as.dropWhile fun a => a.satisfies Text.isBlank) := by
    induction as with
    | nil => rfl
    | cons a as ih =>
      cases a with
      | reference r => rfl
      | char c =>
        rw [WordPart.ofAtoms_cons, WordPart.trimStart_consAtom, ih, List.dropWhile_cons,
          Atom.satisfies_char]
        cases Text.isBlank c with
        | false => rfl
        | true => rfl
  exact congrArg Word.mk hparts

/-- To trim the end is to drop blank atoms from the back. -/
theorem trimEnd_ofAtoms (as : List Atom) :
    (ofAtoms as).trimEnd = ofAtoms (as.rdropWhile fun a => a.satisfies Text.isBlank) := by
  have hparts : WordPart.trimEnd (WordPart.ofAtoms as) =
      WordPart.ofAtoms (as.rdropWhile fun a => a.satisfies Text.isBlank) := by
    induction as with
    | nil => rfl
    | cons a as ih =>
      rw [Text.rdropWhile_cons]
      cases a with
      | reference r =>
        rw [WordPart.ofAtoms_cons, WordPart.consAtom, WordPart.trimEnd, ih]
        simp [WordPart.consAtom]
      | char c =>
        rw [WordPart.ofAtoms_cons, WordPart.trimEnd_consAtom, ih, Atom.satisfies_char]
        -- nothing is kept of the parts behind exactly if nothing is kept of their atoms
        simp only [WordPart.ofAtoms_eq_nil_iff]
        split
        · rfl
        · rfl
  exact congrArg Word.mk hparts

/-- Trimming the end leaves a word that no blank ends. -/
theorem trimEnd_eq_self {as : List Atom}
    (h : ∀ a ∈ as.getLast?, a.satisfies Text.isBlank = false) :
    (ofAtoms as).trimEnd = ofAtoms as := by
  rw [trimEnd_ofAtoms, List.rdropWhile_eq_self_iff.2]
  intro hne
  simpa using h _ (List.getLast?_eq_some_getLast hne)

/-- Trimming leaves a word that blanks neither begin nor end. -/
theorem trim_ofAtoms {as : List Atom} (hs : ∀ a ∈ as.head?, a.satisfies Text.isBlank = false)
    (he : ∀ a ∈ as.getLast?, a.satisfies Text.isBlank = false) : (ofAtoms as).trim = ofAtoms as := by
  rw [trim, trimStart_ofAtoms, Text.dropWhile_eq_self hs, trimEnd_eq_self he]

end Word
end CurlScribe
