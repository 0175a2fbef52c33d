import CurlScribe.Proofs.Word.Reading
import CurlScribe.Request.HeaderField

/-!
# Reading header fields

The value of a header option is a name and a value with a colon between them, or a name with a
semicolon behind it. Blanks may stand around the name, before the value and behind the semicolon.
An option that is written so gives the field that it says, whatever references the field has, and no
other option gives a field.
-/

namespace CurlScribe
namespace Header
open Atom

/-- A field of which no part could be taken for the marks and blanks around it. -/
structure IsTidy (h : Header) : Prop where
  name_normal : h.name.IsNormal
  value_normal : h.value.IsNormal
  name_nonempty : h.name ≠ Word.empty
  name_avoids : h.name.Avoids ':'
  name_starts : StartVisibly h.name.atoms
  name_ends : EndVisibly h.name.atoms
  value_starts : StartVisibly h.value.atoms

/-- How an option writes a field: a value behind a colon, or no value and a semicolon. -/
inductive IsWritten (h : Header) : List Atom → Prop
  | value {front middle lead : List Atom} (nonempty : h.value ≠ Word.empty)
    (blank : AreBlank (front ++ middle ++ lead)) :
    IsWritten h (front ++ h.name.atoms ++ middle ++ .char ':' :: (lead ++ h.value.atoms))
  | noValue {front middle back : List Atom} (empty : h.value = Word.empty)
    (blank : AreBlank (front ++ middle ++ back)) :
    IsWritten h (front ++ h.name.atoms ++ middle ++ .char ';' :: back)

/-! ## Reading rows of atoms -/

theorem startsWith_at_ofAtoms {as : List Atom} (hat : as.head? ≠ some (.char '@')) :
    (Word.ofAtoms as).startsWith '@' = false :=
  Word.startsWith_eq_false (Word.isNormal_ofAtoms as) (by rwa [Word.atoms_ofAtoms])

theorem read_of_colon {as : List Atom} {f : Header} (hat : as.head? ≠ some (.char '@'))
    (h : .char ':' ∈ as) :
    read (Word.ofAtoms as) = .ok f ↔ ∃ name value,
      f = ⟨Word.ofAtoms name, Word.ofAtoms value⟩ ∧ name ≠ [] ∧ value ≠ [] ∧
        IsCore name (before ':' as) ∧ StartVisibly value ∧
          ∃ lead, AreBlank lead ∧ behind ':' as = lead ++ value := by
  -- the two trimmed sides, which decide all that follows
  generalize hname : ((before ':' as).dropWhile (·.satisfies Text.isBlank)).rdropWhile
    (·.satisfies Text.isBlank) = name
  generalize hvalue : (behind ':' as).dropWhile (·.satisfies Text.isBlank) = value
  have hread : read (Word.ofAtoms as) =
      if (Word.ofAtoms name).isEmpty then
        .error ("header without a name ignored: ".toList ++ (Word.ofAtoms as).written)
      else if (Word.ofAtoms value).isEmpty then
        .error ((Word.ofAtoms as).written ++ " removes a header curl would add".toList)
      else .ok ⟨Word.ofAtoms name, Word.ofAtoms value⟩ := by
    rw [read, startsWith_at_ofAtoms hat, Word.splitOnce_ofAtoms, if_pos h]
    simp only [Bool.false_eq_true, if_false, Word.trim, Word.trimStart_ofAtoms,
      Word.trimEnd_ofAtoms, hname, hvalue]
  rw [hread]
  simp only [Word.isEmpty_ofAtoms]
  constructor
  · intro hok
    split at hok
    · cases hok
    · split at hok
      · cases hok
      next hn hv =>
        obtain rfl := Except.ok.inj hok
        exact ⟨name, value, rfl, hn, hv, trim_eq_iff.1 hname, dropWhile_isBlank_eq_iff.1 hvalue⟩
  · rintro ⟨name', value', rfl, hn, hv, hcore, hrest⟩
    obtain rfl := (trim_eq_iff.2 hcore).symm.trans hname
    obtain rfl := (dropWhile_isBlank_eq_iff.2 hrest).symm.trans hvalue
    rw [if_neg hn, if_neg hv]

theorem read_of_no_colon {as : List Atom} {f : Header} (hat : as.head? ≠ some (.char '@'))
    (h : .char ':' ∉ as) :
    read (Word.ofAtoms as) = .ok f ↔ ∃ name front,
      f = ⟨Word.ofAtoms name, Word.empty⟩ ∧ name ≠ [] ∧ IsCore name front ∧
        ∃ back, AreBlank back ∧ as = front ++ .char ';' :: back := by
  -- the field has to end in a semicolon, apart from blanks behind it
  generalize hend : as.rdropWhile (·.satisfies Text.isBlank) = visible
  generalize hname : (visible.dropLast.dropWhile (·.satisfies Text.isBlank)).rdropWhile
    (·.satisfies Text.isBlank) = name
  have hread : read (Word.ofAtoms as) =
      if visible.getLast? = some (.char ';') then
        if (Word.ofAtoms name).isEmpty then
          .error ("malformed header ignored: ".toList ++ (Word.ofAtoms as).written)
        else .ok ⟨Word.ofAtoms name, Word.empty⟩
      else .error ("malformed header ignored: ".toList ++ (Word.ofAtoms as).written) := by
    rw [read, startsWith_at_ofAtoms hat, Word.splitOnce_ofAtoms, if_neg h, Word.trimEnd_ofAtoms,
      hend, Word.dropTrailing?_eq_ite]
    by_cases hlast : visible.getLast? = some (.char ';')
    · rw [if_pos hlast, if_pos hlast]
      simp only [Bool.false_eq_true, if_false, Word.trim, Word.trimStart_ofAtoms,
        Word.trimEnd_ofAtoms, hname]
    · rw [if_neg hlast, if_neg hlast]
      rfl
  rw [hread]
  simp only [Word.isEmpty_ofAtoms]
  constructor
  · intro hok
    split at hok
    next hlast =>
      split at hok
      · cases hok
      next hn =>
        obtain rfl := Except.ok.inj hok
        obtain ⟨front, rfl⟩ := List.getLast?_eq_some_iff.1 hlast
        obtain ⟨-, back, hback, rfl⟩ := rdropWhile_isBlank_eq_iff.1 hend
        rw [List.dropLast_concat] at hname
        exact ⟨name, front, rfl, hn, trim_eq_iff.1 hname, back, hback, by simp⟩
    next => cases hok
  · rintro ⟨name', front, rfl, hn, hcore, back, hback, rfl⟩
    -- the semicolon is visible, so trimming stops at it
    have hends : EndVisibly (front ++ [.char ';']) := by
      intro a ha
      rw [List.getLast?_concat] at ha
      obtain rfl := Option.some.inj ha
      rfl
    have hvisible : front ++ [.char ';'] = visible :=
      (rdropWhile_isBlank_eq_iff.2 ⟨hends, back, hback, by simp⟩).symm.trans hend
    rw [← hvisible, List.dropLast_concat] at hname
    obtain rfl := (trim_eq_iff.2 hcore).symm.trans hname
    rw [← hvisible, if_pos List.getLast?_concat, if_neg hn]

/-! ## Reading words -/

section Written

variable {f : Header} (h : f.IsTidy) {front middle rest : List Atom}
  (hblank : AreBlank (front ++ middle ++ rest))

include h hblank

/-- A tidy field with blanks around its name has no colon in front of the mark. -/
theorem IsTidy.not_mem_front : .char ':' ∉ front ++ f.name.atoms ++ middle := by
  obtain ⟨hnames, -⟩ := List.forall_mem_append.1 hblank
  obtain ⟨hfront, hmiddle⟩ := List.forall_mem_append.1 hnames
  simp only [List.mem_append, not_or]
  exact ⟨⟨not_mem_of_areBlank hfront rfl, h.name_avoids⟩, not_mem_of_areBlank hmiddle rfl⟩

/-- The name of a tidy field is the core of what it makes with blanks around it. -/
theorem IsTidy.isCore_name : IsCore f.name.atoms (front ++ f.name.atoms ++ middle) := by
  obtain ⟨hnames, -⟩ := List.forall_mem_append.1 hblank
  obtain ⟨hfront, hmiddle⟩ := List.forall_mem_append.1 hnames
  exact ⟨h.name_starts, h.name_ends, front, middle, hfront, hmiddle, rfl⟩

end Written

/-- A name without a colon and the core of some atoms makes a tidy field. -/
theorem isTidy_ofAtoms {name value as : List Atom} (hname : name ≠ []) (hnone : .char ':' ∉ name)
    (hcore : IsCore name as) (hvalue : StartVisibly value) :
    IsTidy ⟨Word.ofAtoms name, Word.ofAtoms value⟩ where
  name_normal := Word.isNormal_ofAtoms name
  value_normal := Word.isNormal_ofAtoms value
  name_nonempty := fun h => hname (Word.ofAtoms_eq_empty_iff.1 h)
  name_avoids := by rwa [Word.Avoids, Word.atoms_ofAtoms]
  name_starts := by rw [Word.atoms_ofAtoms]; exact hcore.startVisibly
  name_ends := by rw [Word.atoms_ofAtoms]; exact hcore.endVisibly
  value_starts := by rwa [Word.atoms_ofAtoms]

/-- A tidy field is the row of its atoms. -/
theorem IsTidy.ofAtoms_atoms {f : Header} (h : f.IsTidy) :
    (⟨Word.ofAtoms f.name.atoms, Word.ofAtoms f.value.atoms⟩ : Header) = f := by
  rw [Word.ofAtoms_atoms h.name_normal, Word.ofAtoms_atoms h.value_normal]

theorem IsTidy.name_atoms_ne_nil {f : Header} (h : f.IsTidy) : f.name.atoms ≠ [] := by
  intro hnil
  refine h.name_nonempty ?_
  rw [← Word.ofAtoms_atoms h.name_normal, hnil]
  rfl

/-- Nothing that begins with `@` gives a field. -/
theorem read_of_at {raw : Word} (hraw : raw.IsNormal) (hat : raw.atoms.head? = some (.char '@')) :
    read raw = .error ("header file ignored: ".toList ++ raw.written) := by
  rw [read, (Word.startsWith_eq_true_iff hraw).2 hat]
  rfl

/-- With a colon, an option gives a field exactly if it is written as the field is. -/
theorem read_iff_isWritten_of_colon {as : List Atom} {f : Header}
    (hat : as.head? ≠ some (.char '@')) (hcolon : .char ':' ∈ as) :
    read (Word.ofAtoms as) = .ok f ↔ f.IsTidy ∧ f.IsWritten as := by
  rw [read_of_colon hat hcolon]
  constructor
  · rintro ⟨name, value, rfl, hname, hvalue, hcore, hstarts, lead, hlead, hbehind⟩
    obtain ⟨front, middle, hfront, hmiddle, hbefore⟩ := hcore.padded
    have hnone : .char ':' ∉ name := by
      intro hmem
      refine not_mem_before ':' as ?_
      rw [hbefore]
      exact List.mem_append_left _ (List.mem_append_right _ hmem)
    refine ⟨isTidy_ofAtoms hname hnone hcore hstarts, ?_⟩
    rw [← before_append_behind hcolon, hbefore, hbehind]
    have hwritten := IsWritten.value (h := ⟨Word.ofAtoms name, Word.ofAtoms value⟩)
      (fun h => hvalue (Word.ofAtoms_eq_empty_iff.1 h))
      (List.forall_mem_append.2 ⟨List.forall_mem_append.2 ⟨hfront, hmiddle⟩, hlead⟩)
    simpa only [Word.atoms_ofAtoms] using hwritten
  · rintro ⟨htidy, hwritten⟩
    cases hwritten with
    | @value front middle lead nonempty blank =>
      obtain ⟨hbefore, hbehind⟩ := before_behind_append (lead ++ f.value.atoms)
        (htidy.not_mem_front blank)
      refine ⟨f.name.atoms, f.value.atoms, htidy.ofAtoms_atoms.symm, htidy.name_atoms_ne_nil, ?_,
        ?_, htidy.value_starts, lead, (List.forall_mem_append.1 blank).2, hbehind⟩
      · intro hnil
        refine nonempty ?_
        rw [← Word.ofAtoms_atoms htidy.value_normal, hnil]
        rfl
      · rw [hbefore]
        exact htidy.isCore_name blank
    | @noValue front middle back empty blank =>
      -- neither the name nor the blanks have the colon
      rcases List.mem_append.1 hcolon with hmem | hmem
      · exact absurd hmem (htidy.not_mem_front blank)
      · rcases List.mem_cons.1 hmem with hmark | hmem
        · cases hmark
        · exact absurd hmem (not_mem_of_areBlank (List.forall_mem_append.1 blank).2 rfl)

/-- The same holds without a colon, where only a field without a value can be written. -/
theorem read_iff_isWritten_of_no_colon {as : List Atom} {f : Header}
    (hat : as.head? ≠ some (.char '@')) (hcolon : .char ':' ∉ as) :
    read (Word.ofAtoms as) = .ok f ↔ f.IsTidy ∧ f.IsWritten as := by
  rw [read_of_no_colon hat hcolon]
  constructor
  · rintro ⟨name, front, rfl, hname, hcore, back, hback, rfl⟩
    obtain ⟨lead, middle, hlead, hmiddle, rfl⟩ := hcore.padded
    have hnone : .char ':' ∉ name := by
      intro hmem
      refine hcolon (List.mem_append_left _ ?_)
      exact List.mem_append_left _ (List.mem_append_right _ hmem)
    have hstarts : StartVisibly [] := fun _ ha => nomatch ha
    refine ⟨isTidy_ofAtoms hname hnone hcore hstarts, ?_⟩
    have hwritten := IsWritten.noValue (h := ⟨Word.ofAtoms name, Word.empty⟩) rfl
      (List.forall_mem_append.2 ⟨List.forall_mem_append.2 ⟨hlead, hmiddle⟩, hback⟩)
    simpa only [Word.atoms_ofAtoms] using hwritten
  · rintro ⟨htidy, hwritten⟩
    cases hwritten with
    | @value front middle lead nonempty blank =>
      exact absurd (List.mem_append_right _ List.mem_cons_self) hcolon
    | @noValue front middle back empty blank =>
      refine ⟨f.name.atoms, _, ?_, htidy.name_atoms_ne_nil, htidy.isCore_name blank, back,
        (List.forall_mem_append.1 blank).2, rfl⟩
      rw [Word.ofAtoms_atoms htidy.name_normal, ← empty]

/-- An option gives a field exactly if it is written as the field is and does not begin with `@`. -/
theorem read_eq_ok_iff {raw : Word} (hraw : raw.IsNormal) {f : Header} :
    read raw = .ok f ↔ raw.atoms.head? ≠ some (.char '@') ∧ f.IsTidy ∧ f.IsWritten raw.atoms := by
  by_cases hat : raw.atoms.head? = some (.char '@')
  · rw [read_of_at hraw hat]
    exact ⟨nofun, fun h => absurd hat h.1⟩
  · obtain ⟨as, rfl⟩ : ∃ as, raw = Word.ofAtoms as := ⟨raw.atoms, (Word.ofAtoms_atoms hraw).symm⟩
    rw [Word.atoms_ofAtoms] at hat ⊢
    rw [and_iff_right hat]
    by_cases hcolon : .char ':' ∈ as
    · exact read_iff_isWritten_of_colon hat hcolon
    · exact read_iff_isWritten_of_no_colon hat hcolon

end Header
end CurlScribe
