import CurlScribe.Word.Atom

/-!
# Words in normal form

A word is in normal form when no part is empty text and no two neighbouring parts are text. Such a
word is the same thing as its list of atoms: `Word.ofAtoms` and `Word.atoms` are inverse to each
other, and pushing text, references and words is appending atoms.

The proofs go through `WordPart.consAtom`, the operation that `Word.ofAtoms` folds: an equation for
one atom in front of normal parts gives the equation for whole words by induction on the atoms.
-/

namespace CurlScribe

/-! ## Normal parts -/

namespace WordPart

/-- Does a text stand first? -/
def startsWithText : List WordPart → Bool
  | .text _ :: _ => true
  | _ => false

/-- No part is empty text, and no text stands before another. -/
def IsNormal : List WordPart → Prop
  | [] => True
  | .text t :: rest => t ≠ [] ∧ startsWithText rest = false ∧ IsNormal rest
  | .reference _ :: rest => IsNormal rest

instance decidableIsNormal : (parts : List WordPart) → Decidable (IsNormal parts)
  | [] => isTrue trivial
  | .text _ :: rest =>
    have := decidableIsNormal rest
    inferInstanceAs (Decidable (_ ∧ _ ∧ _))
  | .reference _ :: rest => decidableIsNormal rest

/-- The parts with the given atoms. -/
def ofAtoms (as : List Atom) : List WordPart := as.foldr consAtom []

/-- The atoms of parts in a row. -/
def atomsOf (parts : List WordPart) : List Atom := parts.flatMap atoms

@[simp] theorem ofAtoms_nil : ofAtoms [] = [] := rfl

@[simp] theorem ofAtoms_cons (a : Atom) (as : List Atom) :
    ofAtoms (a :: as) = consAtom a (ofAtoms as) := rfl

@[simp] theorem atomsOf_nil : atomsOf [] = [] := rfl

@[simp] theorem atomsOf_cons (p : WordPart) (parts : List WordPart) :
    atomsOf (p :: parts) = p.atoms ++ atomsOf parts := rfl

/-- The atoms of two rows of parts stand one behind the other. -/
@[simp] theorem atomsOf_append (ps qs : List WordPart) :
    atomsOf (ps ++ qs) = atomsOf ps ++ atomsOf qs := List.flatMap_append

@[simp] theorem atoms_text (t : Text) : (text t).atoms = t.map .char := rfl

@[simp] theorem atoms_reference (r : Reference) : (reference r).atoms = [.reference r] := rfl

/-- The atoms of a text are its characters, also of the empty text, which is no part. -/
theorem atomsOf_ofText (t : Text) : atomsOf (ofText t) = t.map .char := by
  cases t with
  | nil => rfl
  | cons c t => simp [ofText]

/-! ## One atom in front -/

/-- A character joins the text that it stands before, or begins one. -/
theorem consAtom_char_cases (c : Char) (parts : List WordPart) :
    (∃ t rest, parts = .text t :: rest ∧ consAtom (.char c) parts = .text (c :: t) :: rest) ∨
      (startsWithText parts = false ∧ consAtom (.char c) parts = .text [c] :: parts) := by
  match parts with
  | [] => exact .inr ⟨rfl, rfl⟩
  | .text t :: rest => exact .inl ⟨t, rest, rfl, rfl⟩
  | .reference r :: rest => exact .inr ⟨rfl, rfl⟩

/-- An atom in front of normal parts joins the text there, or is a part of its own. -/
theorem isNormal_consAtom (a : Atom) {parts : List WordPart} (h : IsNormal parts) :
    IsNormal (consAtom a parts) := by
  cases a with
  | reference r => exact h
  | char c =>
    rcases consAtom_char_cases c parts with ⟨t, rest, rfl, he⟩ | ⟨hs, he⟩
    · rw [he]
      exact ⟨by simp, h.2⟩
    · rw [he]
      exact ⟨by simp, hs, h⟩

/-- The atom in front is the first of the atoms. -/
theorem atomsOf_consAtom (a : Atom) (parts : List WordPart) :
    atomsOf (consAtom a parts) = a :: atomsOf parts := by
  cases a with
  | reference r => rfl
  | char c =>
    rcases consAtom_char_cases c parts with ⟨t, rest, rfl, he⟩ | ⟨-, he⟩
    · rw [he]
      rfl
    · rw [he]
      rfl

/-! ## Parts and atoms -/

/-- Parts that are built of atoms are normal. -/
theorem isNormal_ofAtoms (as : List Atom) : IsNormal (ofAtoms as) := by
  induction as with
  | nil => trivial
  | cons a as ih => exact isNormal_consAtom a ih

@[simp] theorem atomsOf_ofAtoms (as : List Atom) : atomsOf (ofAtoms as) = as := by
  induction as with
  | nil => rfl
  | cons a as ih => rw [ofAtoms_cons, atomsOf_consAtom, ih]

@[simp] theorem ofAtoms_eq_nil_iff {as : List Atom} : ofAtoms as = [] ↔ as = [] := by
  constructor
  · intro h
    rw [← atomsOf_ofAtoms as, h, atomsOf_nil]
  · rintro rfl
    rfl

/-- Characters put one by one in front of parts that no text begins are one text. -/
theorem foldr_consAtom_text {t : Text} {parts : List WordPart} (ht : t ≠ [])
    (hp : startsWithText parts = false) :
    (t.map Atom.char).foldr consAtom parts = .text t :: parts := by
  induction t with
  | nil => exact absurd rfl ht
  | cons c t ih =>
    rw [List.map_cons, List.foldr_cons]
    by_cases htn : t = []
    · subst htn
      rcases consAtom_char_cases c parts with ⟨t', rest, rfl, -⟩ | ⟨-, he⟩
      · exact absurd hp (by simp [startsWithText])
      · exact he
    · rw [ih htn]
      rfl

/-- Normal parts are known from their atoms. -/
theorem ofAtoms_atomsOf {parts : List WordPart} (h : IsNormal parts) :
    ofAtoms (atomsOf parts) = parts := by
  induction parts with
  | nil => rfl
  | cons p rest ih =>
    cases p with
    | reference r =>
      rw [atomsOf_cons, atoms_reference, List.singleton_append, ofAtoms_cons, ih h]
      rfl
    | text t =>
      obtain ⟨ht, hs, hr⟩ := h
      rw [atomsOf_cons, atoms_text, ofAtoms, List.foldr_append]
      show (t.map Atom.char).foldr consAtom (ofAtoms (atomsOf rest)) = _
      rw [ih hr]
      exact foldr_consAtom_text ht hs

/-- Normal parts are determined by their atoms. -/
theorem eq_ofAtoms {parts : List WordPart} {as : List Atom} (h : IsNormal parts)
    (ha : atomsOf parts = as) : parts = ofAtoms as := by
  rw [← ha, ofAtoms_atomsOf h]

/-! ## Pushing -/

theorem isNormal_ofText (t : Text) : IsNormal (ofText t) := by
  cases t with
  | nil => trivial
  | cons c t => exact ⟨by simp, rfl, trivial⟩

/-- Text at the end puts its characters behind the atoms. -/
theorem atomsOf_pushText (t : Text) (parts : List WordPart) :
    atomsOf (pushText t parts) = atomsOf parts ++ t.map .char := by
  fun_induction pushText t parts with
  | case1 => rw [atomsOf_ofText]; rfl
  | case2 s => simp
  | case3 p rest _ ih => rw [atomsOf_cons, atomsOf_cons, ih, List.append_assoc]

/-- What parts begin with is not changed by text at their end. -/
theorem startsWithText_pushText (t : Text) {parts : List WordPart} (hn : parts ≠ [])
    (h : startsWithText parts = false) : startsWithText (pushText t parts) = false := by
  match parts with
  | [] => exact absurd rfl hn
  | .reference r :: rest => rfl
  | .text s :: rest => exact absurd h (by simp [startsWithText])

/-- Text at the end of normal parts joins a text there, so the parts stay normal. -/
theorem isNormal_pushText (t : Text) {parts : List WordPart} (h : IsNormal parts) :
    IsNormal (pushText t parts) := by
  fun_induction pushText t parts with
  | case1 => exact isNormal_ofText t
  | case2 s => exact ⟨by simp [h.1], rfl, trivial⟩
  | case3 p rest hp ih =>
    cases p with
    | reference r => exact ih h
    | text s =>
      obtain ⟨hs, hr, hn⟩ := h
      have hne : rest ≠ [] := hp s rfl
      exact ⟨hs, startsWithText_pushText t hne hr, ih hn⟩

/-- A reference at the end of normal parts leaves them normal. -/
theorem isNormal_append_reference (r : Reference) {parts : List WordPart} (h : IsNormal parts) :
    IsNormal (parts ++ [.reference r]) := by
  induction parts with
  | nil => trivial
  | cons p rest ih =>
    cases p with
    | reference _ => exact ih h
    | text s =>
      refine ⟨h.1, ?_, ih h.2.2⟩
      match rest with
      | [] => rfl
      | .reference _ :: _ => rfl
      | .text _ :: _ => exact absurd h.2.1 (by simp [startsWithText])

theorem isNormal_push (p : WordPart) {parts : List WordPart} (h : IsNormal parts) :
    IsNormal (push parts p) := by
  cases p with
  | text t => exact isNormal_pushText t h
  | reference r => exact isNormal_append_reference r h

theorem atomsOf_push (p : WordPart) (parts : List WordPart) :
    atomsOf (push parts p) = atomsOf parts ++ p.atoms := by
  cases p with
  | text t => exact atomsOf_pushText t parts
  | reference r => exact atomsOf_append parts _

theorem isNormal_foldl_push (qs : List WordPart) {ps : List WordPart} (h : IsNormal ps) :
    IsNormal (qs.foldl push ps) := by
  induction qs generalizing ps with
  | nil => exact h
  | cons q qs ih => exact ih (isNormal_push q h)

/-- A function of text on one part. -/
def mapText (f : Text → Text) : WordPart → WordPart
  | .text t => .text (f t)
  | .reference r => .reference r

/-- Parts stay normal if no text becomes empty. -/
theorem isNormal_map {f : Text → Text} (hf : ∀ t, t ≠ [] → f t ≠ []) {parts : List WordPart}
    (h : IsNormal parts) : IsNormal (parts.map (mapText f)) := by
  induction parts with
  | nil => trivial
  | cons p parts ih =>
    cases p with
    | reference r => exact ih h
    | text t =>
      obtain ⟨ht, hstarts, hparts⟩ := h
      refine ⟨hf t ht, ?_, ih hparts⟩
      match parts with
      | [] => rfl
      | .reference r :: _ => rfl
      | .text s :: _ => cases hstarts

theorem atomsOf_foldl_push (ps qs : List WordPart) :
    atomsOf (qs.foldl push ps) = atomsOf ps ++ atomsOf qs := by
  induction qs generalizing ps with
  | nil => simp
  | cons q qs ih => rw [List.foldl_cons, ih, atomsOf_push, atomsOf_cons, List.append_assoc]

end WordPart

/-! ## Normal words -/

namespace Word

/-- No part is empty text, and no two neighbouring parts are text. -/
def IsNormal (w : Word) : Prop := WordPart.IsNormal w.parts

instance (w : Word) : Decidable w.IsNormal := WordPart.decidableIsNormal w.parts

theorem isNormal_ofAtoms (as : List Atom) : (ofAtoms as).IsNormal := WordPart.isNormal_ofAtoms as

@[simp] theorem atoms_ofAtoms (as : List Atom) : (ofAtoms as).atoms = as :=
  WordPart.atomsOf_ofAtoms as

theorem ofAtoms_atoms {w : Word} (h : w.IsNormal) : ofAtoms w.atoms = w := by
  show Word.mk (WordPart.ofAtoms (WordPart.atomsOf w.parts)) = w
  rw [WordPart.ofAtoms_atomsOf h]

/-- A normal word is the one that its atoms make up. -/
theorem eq_ofAtoms {w : Word} {as : List Atom} (h : w.IsNormal) (ha : w.atoms = as) :
    w = ofAtoms as := by
  rw [← ha, ofAtoms_atoms h]

@[simp] theorem ofAtoms_nil : ofAtoms [] = empty := rfl

theorem ofAtoms_eq_empty_iff {as : List Atom} : ofAtoms as = empty ↔ as = [] := by
  constructor
  · intro h
    exact WordPart.ofAtoms_eq_nil_iff.1 (congrArg parts h)
  · rintro rfl
    rfl

@[simp] theorem atoms_ofText (t : Text) : (ofText t).atoms = t.map .char :=
  WordPart.atomsOf_ofText t

@[simp] theorem atoms_pushText (w : Word) (t : Text) :
    (w.pushText t).atoms = w.atoms ++ t.map .char := WordPart.atomsOf_pushText t w.parts

@[simp] theorem atoms_pushChar (w : Word) (c : Char) :
    (w.pushChar c).atoms = w.atoms ++ [.char c] := atoms_pushText w [c]

@[simp] theorem atoms_append (v w : Word) : (v ++ w).atoms = v.atoms ++ w.atoms :=
  WordPart.atomsOf_foldl_push v.parts w.parts

theorem isNormal_ofText (t : Text) : (ofText t).IsNormal := WordPart.isNormal_ofText t

theorem isNormal_pushText {w : Word} (h : w.IsNormal) (t : Text) : (w.pushText t).IsNormal :=
  WordPart.isNormal_pushText t h

theorem isNormal_append {v : Word} (h : v.IsNormal) (w : Word) : (v ++ w).IsNormal :=
  WordPart.isNormal_foldl_push w.parts h

theorem isNormal_mapText (f : Text → Text) (w : Word) : (w.mapText f).IsNormal :=
  WordPart.isNormal_foldl_push _ trivial

/-- What is done to the text of a literal word, if it makes nothing of no text. -/
theorem mapText_ofText {f : Text → Text} (hf : f [] = []) (t : Text) :
    (ofText t).mapText f = ofText (f t) := by
  cases t with
  | nil =>
    rw [hf]
    rfl
  | cons c t => rfl

/-- Normal parts need not be brought into normal form. -/
theorem ofParts_eq {parts : List WordPart} (h : WordPart.IsNormal parts) :
    ofParts parts = ⟨parts⟩ := by
  have hnormal : (ofParts parts).IsNormal := WordPart.isNormal_foldl_push parts trivial
  have hatoms : (ofParts parts).atoms = (Word.mk parts).atoms :=
    WordPart.atomsOf_foldl_push [] parts
  rw [eq_ofAtoms hnormal hatoms, ofAtoms_atoms (w := ⟨parts⟩) h]

/-- What is done to the text of a word is undone if it is undone for every text. -/
theorem mapText_mapText {f g : Text → Text} (hnil : f [] = []) (h : ∀ t, g (f t) = t) {w : Word}
    (hw : w.IsNormal) : (w.mapText f).mapText g = w := by
  obtain ⟨parts⟩ := w
  have hf : ∀ t, t ≠ [] → f t ≠ [] := by
    intro t ht he
    have hsame : g (f t) = g (f []) := by rw [he, hnil]
    rw [h, h] at hsame
    exact ht hsame
  have hmap : mapText f ⟨parts⟩ = ⟨parts.map (WordPart.mapText f)⟩ :=
    ofParts_eq (WordPart.isNormal_map hf hw)
  have hback : (parts.map (WordPart.mapText f)).map (WordPart.mapText g) = parts := by
    rw [List.map_map]
    refine (List.map_congr_left fun p _ => ?_).trans (List.map_id _)
    cases p with
    | text t => exact congrArg WordPart.text (h t)
    | reference r => rfl
  rw [hmap]
  show ofParts ((parts.map (WordPart.mapText f)).map (WordPart.mapText g)) = _
  rw [hback, ofParts_eq hw]

/-- A literal word has the characters of its text as atoms. -/
theorem ofText_eq_ofAtoms (t : Text) : ofText t = ofAtoms (t.map .char) :=
  eq_ofAtoms (isNormal_ofText t) (atoms_ofText t)

/-! ## Text in front of a word -/

/-- Text in front of a word joins the text that the word begins with. -/
theorem ofText_append {front : Text} (hfront : front ≠ []) (t : Text) {rest : List WordPart}
    (hstarts : WordPart.startsWithText rest = false) (hrest : WordPart.IsNormal rest) :
    ofText front ++ ⟨WordPart.ofText t ++ rest⟩ = ⟨.text (front ++ t) :: rest⟩ := by
  -- both words are normal and have the same atoms
  have hnormal : IsNormal ⟨.text (front ++ t) :: rest⟩ := ⟨by simp [hfront], hstarts, hrest⟩
  have hatoms : (ofText front ++ ⟨WordPart.ofText t ++ rest⟩).atoms =
      atoms ⟨.text (front ++ t) :: rest⟩ := by
    rw [atoms_append, atoms_ofText]
    show _ ++ WordPart.atomsOf (WordPart.ofText t ++ rest) =
      WordPart.atomsOf (.text (front ++ t) :: rest)
    rw [WordPart.atomsOf_append, WordPart.atomsOf_ofText]
    simp
  rw [eq_ofAtoms (isNormal_append (isNormal_ofText front) _) hatoms, ofAtoms_atoms hnormal]

/-- A normal word is a text, possibly empty, and parts that do not begin with text. -/
theorem exists_text {w : Word} (h : w.IsNormal) : ∃ t rest, w = ⟨WordPart.ofText t ++ rest⟩ ∧
    WordPart.startsWithText rest = false ∧ WordPart.IsNormal rest := by
  obtain ⟨parts⟩ := w
  match parts with
  | [] => exact ⟨[], [], rfl, rfl, trivial⟩
  | .reference r :: rest => exact ⟨[], .reference r :: rest, rfl, rfl, h⟩
  | .text (c :: t) :: rest => exact ⟨c :: t, rest, rfl, h.2.1, h.2.2⟩
  | .text [] :: _ => exact absurd rfl h.1

/-- The rest of a normal word behind some of its first text is normal. -/
theorem isNormal_rest {front t : Text} {rest : List WordPart}
    (h : IsNormal ⟨.text (front ++ t) :: rest⟩) : IsNormal ⟨WordPart.ofText t ++ rest⟩ := by
  cases t with
  | nil => exact h.2.2
  | cons c t => exact ⟨List.cons_ne_nil c t, h.2⟩

end Word
end CurlScribe
