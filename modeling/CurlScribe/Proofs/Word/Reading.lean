import CurlScribe.Proofs.Word.Refinement

/-!
# Reading words as rows of atoms

What is asked of a word, said of its atoms: what stands before and behind the first occurrence of a
character, whether the word is a given text in any case, and which blanks stand around it.
Statements about the values of options are made in these terms, and proved through the equations for
words here.
-/

namespace CurlScribe

namespace Atom

/-- What stands before the first literal `c`. -/
def before (c : Char) (as : List Atom) : List Atom := as.takeWhile (· != .char c)

/-- What stands behind the first literal `c`. -/
def behind (c : Char) (as : List Atom) : List Atom := (as.dropWhile (· != .char c)).tail

/-- What is before the first place of a character does not have it. -/
theorem not_mem_before (c : Char) (as : List Atom) : .char c ∉ before c as := by
  intro h
  simpa using List.mem_takeWhile_imp h

theorem before_behind_append {c : Char} {front : List Atom} (back : List Atom)
    (h : .char c ∉ front) : before c (front ++ .char c :: back) = front ∧
      behind c (front ++ .char c :: back) = back := by
  have hall : ∀ a ∈ front, (a != .char c) = true := by
    intro a ha
    rw [bne_iff_ne]
    rintro rfl
    exact h ha
  rw [before, behind, List.takeWhile_append_of_pos hall, List.dropWhile_append_of_pos hall]
  simp

/-- The two sides of the first place make up the row. -/
theorem before_append_behind {c : Char} {as : List Atom} (h : .char c ∈ as) :
    before c as ++ .char c :: behind c as = as := by
  obtain ⟨front, back, rfl, hfront⟩ := List.eq_append_cons_of_mem h
  obtain ⟨hbefore, hbehind⟩ := before_behind_append back hfront
  rw [hbefore, hbehind]

theorem before_of_not_mem {c : Char} {as : List Atom} (h : .char c ∉ as) : before c as = as := by
  rw [before, List.takeWhile_eq_self_iff]
  intro a ha
  rw [bne_iff_ne]
  rintro rfl
  exact h ha

/-- What stands before the first separator is the first piece. -/
theorem splitOn_eq_cons (c : Char) (as : List Atom) :
    as.splitOn (.char c) = before c as :: (as.splitOn (.char c)).tail := by
  by_cases h : .char c ∈ as
  · rw [← before_append_behind h,
      List.splitOn_append_cons_self_of_not_mem (not_mem_before c as), before_append_behind h]
    rfl
  · rw [List.splitOn_eq_singleton h, before_of_not_mem h]
    rfl

/-- The atom with its letter in lower case. -/
def lower : Atom → Atom
  | char c => .char c.toLower
  | reference r => .reference r

/-- Atoms that are characters in lower case come from characters. -/
theorem exists_text_of_map_lower {as : List Atom} {t : Text} (h : as.map lower = t.map .char) :
    ∃ s : Text, as = s.map .char ∧ Text.lower s = t := by
  induction as generalizing t with
  | nil => exact ⟨[], rfl, (List.map_eq_nil_iff.1 h.symm).symm⟩
  | cons a as ih =>
    obtain ⟨c, t, rfl, hc, ht⟩ := List.map_eq_cons_iff.1 h.symm
    obtain ⟨s, rfl, rfl⟩ := ih ht.symm
    cases a with
    | reference r => cases hc
    | char d => exact ⟨d :: s, rfl, congrArg (· :: Text.lower s) (Atom.char.inj hc).symm⟩

/-- Are the atoms the text `name`, which is given in lower case, up to the case of letters? -/
def Names (name : String) (as : List Atom) : Prop := as.map lower = name.toList.map .char

instance (name : String) (as : List Atom) : Decidable (Names name as) :=
  inferInstanceAs (Decidable (_ = _))

/-! ## Blanks -/

/-- All of the atoms are literal blanks. -/
def AreBlank (as : List Atom) : Prop := ∀ a ∈ as, a.satisfies Text.isBlank = true

instance (as : List Atom) : Decidable (AreBlank as) := inferInstanceAs (Decidable (∀ a ∈ as, _))

/-- The first of the atoms is no blank. -/
def StartVisibly (as : List Atom) : Prop := ∀ a ∈ as.head?, a.satisfies Text.isBlank = false

/-- The last of the atoms is no blank. -/
def EndVisibly (as : List Atom) : Prop := ∀ a ∈ as.getLast?, a.satisfies Text.isBlank = false

/-- A visible character is none of the blank atoms. -/
theorem not_mem_of_areBlank {as : List Atom} (h : AreBlank as) {c : Char}
    (hc : Text.isBlank c = false) : .char c ∉ as := by
  intro hmem
  have hblank := h _ hmem
  rw [satisfies_char, hc] at hblank
  cases hblank

/-- What is left of atoms without the blanks before them is what follows blanks and does not begin
with any. -/
theorem dropWhile_isBlank_eq_iff {as core : List Atom} :
    as.dropWhile (·.satisfies Text.isBlank) = core ↔
      StartVisibly core ∧ ∃ blanks, AreBlank blanks ∧ as = blanks ++ core := by
  constructor
  · rintro rfl
    refine ⟨?_, as.takeWhile (·.satisfies Text.isBlank), fun a ha => List.mem_takeWhile_imp ha,
      (List.takeWhile_append_dropWhile ..).symm⟩
    intro a ha
    have hhead := List.head?_dropWhile_not (·.satisfies Text.isBlank) as
    rw [Option.mem_def.1 ha] at hhead
    exact hhead
  · rintro ⟨hstart, blanks, hblanks, rfl⟩
    rw [List.dropWhile_append_of_pos hblanks, Text.dropWhile_eq_self hstart]

/-- What is left of atoms without the blanks behind them is what comes before blanks and does not
end with any. -/
theorem rdropWhile_isBlank_eq_iff {as core : List Atom} :
    as.rdropWhile (·.satisfies Text.isBlank) = core ↔
      EndVisibly core ∧ ∃ blanks, AreBlank blanks ∧ as = core ++ blanks := by
  rw [List.rdropWhile, List.reverse_eq_iff, dropWhile_isBlank_eq_iff, StartVisibly,
    List.head?_reverse, EndVisibly]
  refine and_congr_right fun _ => ?_
  constructor
  · rintro ⟨blanks, hblanks, hrev⟩
    refine ⟨blanks.reverse, fun a ha => hblanks a (List.mem_reverse.1 ha), ?_⟩
    rw [← List.reverse_reverse as, hrev]
    simp
  · rintro ⟨blanks, hblanks, rfl⟩
    exact ⟨blanks.reverse, fun a ha => hblanks a (List.mem_reverse.1 ha), by simp⟩

/-- The atoms are the core and blanks around it, none of which belong to the core. -/
structure IsCore (core as : List Atom) : Prop where
  startVisibly : StartVisibly core
  endVisibly : EndVisibly core
  padded : ∃ front back, AreBlank front ∧ AreBlank back ∧ as = front ++ core ++ back

/-- What is left of a row when both its ends are trimmed. -/
theorem trim_eq_iff {as core : List Atom} :
    (as.dropWhile (·.satisfies Text.isBlank)).rdropWhile (·.satisfies Text.isBlank) = core ↔
      IsCore core as := by
  rw [rdropWhile_isBlank_eq_iff]
  constructor
  · rintro ⟨hend, back, hback, hdrop⟩
    obtain ⟨hstart, front, hfront, rfl⟩ := dropWhile_isBlank_eq_iff.1 hdrop
    refine ⟨?_, hend, front, back, hfront, hback, (List.append_assoc ..).symm⟩
    intro a ha
    refine hstart a ?_
    obtain ⟨rest, rfl⟩ := List.head?_eq_some_iff.1 (Option.mem_def.1 ha)
    rfl
  · rintro ⟨hstart, hend, front, back, hfront, hback, rfl⟩
    cases core with
    | nil =>
      refine ⟨hend, [], by simp [AreBlank], ?_⟩
      rw [List.append_nil, List.dropWhile_append_of_pos hfront, List.dropWhile_eq_nil_iff.2 hback]
      rfl
    | cons a core =>
      refine ⟨hend, back, hback, ?_⟩
      rw [List.append_assoc, List.dropWhile_append_of_pos hfront]
      exact List.dropWhile_cons_of_neg (by simpa using hstart a rfl)

end Atom

namespace Word

/-- A cut at the first place of a character, if there is one. -/
theorem splitOnce_ofAtoms (c : Char) (as : List Atom) :
    (ofAtoms as).splitOnce c =
      if .char c ∈ as then some (ofAtoms (Atom.before c as), ofAtoms (Atom.behind c as))
      else none := by
  rw [splitOnce, splitWhere_ofAtoms]
  simp only [Atom.satisfies_beq, List.any_beq', List.contains_iff_mem]
  rfl

theorem startsWith_ofAtoms_cons (c : Char) (as : List Atom) :
    (ofAtoms (.char c :: as)).startsWith c = true := by
  show startsWith c ⟨WordPart.consAtom (.char c) (WordPart.ofAtoms as)⟩ = true
  rcases WordPart.consAtom_char_cases c (WordPart.ofAtoms as) with ⟨t, rest, -, he⟩ | ⟨-, he⟩
  · rw [he]
    exact beq_self_eq_true c
  · rw [he]
    exact beq_self_eq_true c

/-- A normal word begins with a character if that is its first atom. -/
theorem startsWith_eq_true_iff {w : Word} {c : Char} (hw : w.IsNormal) :
    w.startsWith c = true ↔ w.atoms.head? = some (.char c) := by
  constructor
  · intro h
    by_contra hhead
    rw [startsWith_eq_false hw hhead] at h
    cases h
  · intro h
    obtain ⟨rest, hrest⟩ := List.head?_eq_some_iff.1 h
    rw [← ofAtoms_atoms hw, hrest]
    exact startsWith_ofAtoms_cons c rest

theorem isEmpty_ofAtoms (as : List Atom) : (ofAtoms as).isEmpty = true ↔ as = [] := by
  rw [isEmpty, List.isEmpty_iff]
  exact WordPart.ofAtoms_eq_nil_iff

/-- A word without the blanks around it is the core of its atoms. -/
theorem exists_trim_eq {w : Word} (hw : w.IsNormal) :
    ∃ core, w.trim = ofAtoms core ∧ Atom.IsCore core w.atoms := by
  obtain ⟨as, rfl⟩ : ∃ as, w = ofAtoms as := ⟨w.atoms, (ofAtoms_atoms hw).symm⟩
  rw [atoms_ofAtoms, trim, trimStart_ofAtoms, trimEnd_ofAtoms]
  exact ⟨_, rfl, Atom.trim_eq_iff.1 rfl⟩

/-- A word is a text in any case exactly if its atoms are. -/
theorem isTextIgnoringCase_ofAtoms {as : List Atom} {t : Text} {name : String}
    (h : Text.lower t = name.toList) :
    (ofAtoms as).isTextIgnoringCase t = true ↔ Atom.Names name as := by
  rw [Atom.Names, ← h]
  constructor
  · intro hsame
    unfold isTextIgnoringCase at hsame
    split at hsame
    next s hs =>
      obtain rfl : as = s.map .char := by
        simpa using (literal?_eq_some_iff (isNormal_ofAtoms as)).1 hs
      rw [← beq_iff_eq.1 hsame, Text.lower, List.map_map, List.map_map]
      rfl
    next => cases hsame
  · intro hmap
    obtain ⟨s, rfl, hs⟩ := Atom.exists_text_of_map_lower hmap
    have hliteral : (ofAtoms (s.map .char)).literal? = some s := by
      rw [literal?_eq_some_iff (isNormal_ofAtoms _), atoms_ofAtoms]
    unfold isTextIgnoringCase
    rw [hliteral]
    exact beq_iff_eq.2 hs

/-- A word is a name up to case if its atoms are the characters of that name in some case. -/
theorem isTextIgnoringCase_iff {w : Word} (hw : w.IsNormal) {t : Text} {name : String}
    (h : Text.lower t = name.toList) :
    w.isTextIgnoringCase t = true ↔ Atom.Names name w.atoms := by
  rw [← isTextIgnoringCase_ofAtoms h, ofAtoms_atoms hw]

end Word
end CurlScribe
