import CurlScribe.Proofs.Word.Cutting
import CurlScribe.Request.Payload

/-!
# Words refine rows of atoms

An operation on words is an operation on lists of atoms. `Word.Operation` lists the operations;
`run` applies one to a word, and `onAtoms` says in terms of lists what it does to the atoms. The
step lemma `Operation.run_ofAtoms` is an equation: the words that come out of the word of `as` are
the words of what comes out of `as`. So words stay normal however long they are worked on, which
`Word.Made` makes precise, and equality of words is equality of atoms.
-/

namespace CurlScribe

/-- The atoms that an atom becomes when every literal character `c` becomes the text `f c`. -/
def Atom.mapChar (f : Char → Text) : Atom → List Atom
  | char c => (f c).map .char
  | reference r => [.reference r]

namespace Word

/-! ## Operations -/

/-- An operation on words. -/
inductive Operation where
  | literal (t : Text)
  | pushText (t : Text)
  | pushChar (c : Char)
  | pushReference (r : Reference)
  | append (v : Word)
  | dropLeading (c : Char)
  | dropTrailing (c : Char)
  /-- Drops as many bytes as `lead` has, which stands at the start of the word. -/
  | dropBytes (lead : Text)
  | splitOnce (c : Char)
  | splitOnceLast (c : Char)
  | split (c : Char)
  | basename
  | trimStart
  | trimEnd
  | trim
  /-- Replaces every literal character `c` by `f c`. -/
  | mapText (f : Char → Text)
  | encode

/-- The two words of a cut, if there is one. -/
def pieces : Option (Word × Word) → List Word
  | none => []
  | some (head, tail) => [head, tail]

namespace Operation

/-- The words that an operation makes of a word; none if it does not apply. -/
def run (w : Word) : Operation → List Word
  | literal t => [ofText t]
  | pushText t => [w.pushText t]
  | pushChar c => [w.pushChar c]
  | pushReference r => [w.pushReference r]
  | append v => [w ++ v]
  | dropLeading c => (w.dropLeading? c).toList
  | dropTrailing c => (w.dropTrailing? c).toList
  | dropBytes lead => [w.dropBytes (Text.byteSize lead)]
  | splitOnce c => pieces (w.splitOnce c)
  | splitOnceLast c => pieces (w.splitOnceLast c)
  | split c => w.split c
  | basename => [w.basename]
  | trimStart => [w.trimStart]
  | trimEnd => [w.trimEnd]
  | trim => [w.trim]
  | mapText f => [w.mapText fun t => t.flatMap f]
  | encode => [FormEncoding.encodeWord w]

/-- What an operation makes of a row of atoms, as an operation on lists. -/
def onAtoms (as : List Atom) : Operation → List (List Atom)
  | literal t => [t.map .char]
  | pushText t => [as ++ t.map .char]
  | pushChar c => [as ++ [.char c]]
  | pushReference r => [as ++ [.reference r]]
  | append v => [as ++ v.atoms]
  | dropLeading c => if as.head? = some (.char c) then [as.tail] else []
  | dropTrailing c => if as.getLast? = some (.char c) then [as.dropLast] else []
  | dropBytes lead => [as.drop lead.length]
  | splitOnce c =>
    if .char c ∈ as then
      [as.takeWhile (· != .char c), (as.dropWhile (· != .char c)).tail]
    else []
  | splitOnceLast c =>
    if .char c ∈ as then
      [(as.rdropWhile (· != .char c)).dropLast, as.rtakeWhile (· != .char c)]
    else []
  | split c => as.splitOn (.char c)
  | basename => [as.rtakeWhile fun a => a != .char '/' && a != .char '\\']
  | trimStart => [as.dropWhile fun a => a.satisfies Text.isBlank]
  | trimEnd => [as.rdropWhile fun a => a.satisfies Text.isBlank]
  | trim =>
    [(as.dropWhile fun a => a.satisfies Text.isBlank).rdropWhile fun a =>
      a.satisfies Text.isBlank]
  | mapText f => [as.flatMap (Atom.mapChar f)]
  | encode => [as.flatMap (Atom.mapChar FormEncoding.encodeChar)]

/-- May the operation be applied to a word of these atoms? Bytes are dropped within the leading
text only. -/
def Fits (as : List Atom) : Operation → Prop
  | dropBytes lead => lead.map .char <+: as
  | _ => True

/-- The other words that an operation uses. -/
def operands : Operation → List Word
  | append v => [v]
  | _ => []

end Operation

/-- The word comes out of operations that begin with the empty word. -/
inductive Made : Word → Prop
  | empty : Made empty
  | step {w v : Word} (op : Operation) : Made w → op.Fits w.atoms →
      (∀ u ∈ op.operands, Made u) → v ∈ op.run w → Made v

/-! ## Pushing -/

theorem pushText_ofAtoms (as : List Atom) (t : Text) :
    (ofAtoms as).pushText t = ofAtoms (as ++ t.map .char) :=
  eq_ofAtoms (isNormal_pushText (isNormal_ofAtoms as) t) (by simp)

theorem pushReference_ofAtoms (as : List Atom) (r : Reference) :
    (ofAtoms as).pushReference r = ofAtoms (as ++ [.reference r]) := by
  refine eq_ofAtoms (WordPart.isNormal_append_reference r (isNormal_ofAtoms as)) ?_
  show WordPart.atomsOf ((ofAtoms as).parts ++ [.reference r]) = _
  rw [WordPart.atomsOf_append]
  show (ofAtoms as).atoms ++ [.reference r] = _
  rw [atoms_ofAtoms]

theorem append_eq_ofAtoms (as : List Atom) (v : Word) :
    ofAtoms as ++ v = ofAtoms (as ++ v.atoms) :=
  eq_ofAtoms (isNormal_append (isNormal_ofAtoms as) v) (by simp)

/-! ## Both ends -/

theorem dropLeading?_eq_ite (c : Char) (as : List Atom) :
    (ofAtoms as).dropLeading? c =
      if as.head? = some (.char c) then some (ofAtoms as.tail) else none := by
  match as with
  | [] => simp [dropLeading?, empty]
  | .reference r :: as => simp [dropLeading?, ofAtoms, WordPart.consAtom]
  | .char d :: as =>
    rw [dropLeading?_ofAtoms_cons]
    by_cases hd : d = c
    · simp [hd]
    · simp [hd]

theorem dropTrailing?_eq_ite (c : Char) (as : List Atom) :
    (ofAtoms as).dropTrailing? c =
      if as.getLast? = some (.char c) then some (ofAtoms as.dropLast) else none := by
  induction as using List.reverseRecOn with
  | nil => rfl
  | append_singleton as a =>
    rw [List.getLast?_concat, List.dropLast_concat]
    cases a with
    | reference r =>
      rw [← pushReference_ofAtoms]
      simp [dropTrailing?, pushReference]
    | char d =>
      have hpush : ofAtoms (as ++ [.char d]) = (ofAtoms as).pushChar d :=
        (pushText_ofAtoms as [d]).symm
      rw [hpush, dropTrailing?_pushChar_eq (isNormal_ofAtoms as)]
      by_cases hd : d = c
      · simp [hd]
      · simp [hd]

/-- One leading character is dropped with all of its bytes. -/
theorem dropBytes_consAtom (c : Char) (n : Nat) {as : List Atom} :
    (ofAtoms (.char c :: as)).dropBytes (c.utf8Size + n) = (ofAtoms as).dropBytes n := by
  have hn := WordPart.isNormal_ofAtoms as
  have hdrop (t : Text) : Text.dropBytes (c.utf8Size + n) (c :: t) = Text.dropBytes n t := by
    obtain ⟨m, hm⟩ := Nat.exists_eq_add_of_lt (Char.utf8Size_pos c)
    rw [show c.utf8Size + n = m + n + 1 by omega, Text.dropBytes]
    congr 1
    omega
  show Word.dropBytes _ ⟨WordPart.consAtom (.char c) (WordPart.ofAtoms as)⟩ =
    Word.dropBytes n ⟨WordPart.ofAtoms as⟩
  rcases WordPart.consAtom_char_cases c (WordPart.ofAtoms as) with ⟨t, rest, hp, he⟩ | ⟨hs, he⟩
  · rw [he, hp]
    show Word.mk (WordPart.ofText (Text.dropBytes (c.utf8Size + n) (c :: t)) ++ rest) = _
    rw [hdrop]
    rfl
  · rw [he]
    show Word.mk (WordPart.ofText (Text.dropBytes (c.utf8Size + n) [c]) ++ _) = _
    rw [hdrop]
    generalize WordPart.ofAtoms as = parts at hs
    match parts with
    | [] => cases n <;> rfl
    | .reference r :: rest => cases n <;> rfl
    | .text t :: rest => exact absurd hs (by simp [WordPart.startsWithText])

theorem dropBytes_ofAtoms (lead : Text) (as : List Atom) :
    (ofAtoms (lead.map .char ++ as)).dropBytes (Text.byteSize lead) = ofAtoms as := by
  induction lead with
  | nil =>
    have hn := WordPart.isNormal_ofAtoms as
    show Word.dropBytes 0 ⟨WordPart.ofAtoms as⟩ = Word.mk (WordPart.ofAtoms as)
    match hp : WordPart.ofAtoms as with
    | [] => rfl
    | .reference r :: rest => rfl
    | .text t :: rest =>
      rw [hp] at hn
      show Word.mk (WordPart.ofText (Text.dropBytes 0 t) ++ rest) = _
      rw [Text.dropBytes.eq_def, WordPart.ofText_append_of_isNormal hn]
  | cons c lead ih => rw [List.map_cons, List.cons_append, Text.byteSize, dropBytes_consAtom, ih]

/-! ## Cutting -/

/-- A word is cut around its first atom of a class, if it has one. -/
theorem splitWhere_ofAtoms (p : Char → Bool) (as : List Atom) :
    (ofAtoms as).splitWhere p =
      if as.any (·.satisfies p) then
        some (ofAtoms (as.takeWhile fun a => !a.satisfies p),
          ofAtoms (as.dropWhile fun a => !a.satisfies p).tail)
      else none := by
  cases hfind : as.find? (·.satisfies p) with
  | none =>
    have hnone : ∀ a ∈ as, a.satisfies p = false := by simpa using hfind
    rw [if_neg (by simpa using hnone)]
    show (WordPart.splitFirst p (WordPart.ofAtoms as)).map _ = none
    rw [WordPart.splitFirst_eq_none hnone]
    rfl
  | some a =>
    obtain ⟨ha, front, back, rfl, hfront⟩ := List.find?_eq_some_iff_append.1 hfind
    rw [if_pos (by simp [ha]), List.takeWhile_append_of_pos hfront,
      List.dropWhile_append_of_pos hfront]
    show (WordPart.splitFirst p (WordPart.ofAtoms (front ++ a :: back))).map _ = _
    rw [WordPart.splitFirst_ofAtoms_append back (by simpa using hfront) ha]
    simp [ha, ofAtoms, WordPart.ofAtoms]

/-- A word is cut around its last atom of a class, if it has one. -/
theorem splitLastWhere_ofAtoms (p : Char → Bool) (as : List Atom) :
    (ofAtoms as).splitLastWhere p =
      if as.any (·.satisfies p) then
        some (ofAtoms (as.rdropWhile fun a => !a.satisfies p).dropLast,
          ofAtoms (as.rtakeWhile fun a => !a.satisfies p))
      else none := by
  cases hfind : as.reverse.find? (·.satisfies p) with
  | none =>
    have hnone : ∀ a ∈ as, a.satisfies p = false := by simpa using hfind
    rw [if_neg (by simpa using hnone), splitLastWhere_of_forall hnone]
  | some a =>
    obtain ⟨ha, back, front, hrev, hback⟩ := List.find?_eq_some_iff_append.1 hfind
    obtain rfl : as = front.reverse ++ a :: back.reverse := by
      rw [← List.reverse_reverse as, hrev]
      simp
    have hlast : ∀ b ∈ back.reverse, b.satisfies p = false := by simpa using hback
    -- from the end, what is not of the class is `back`, and the atom stops it
    have hdrop : (front.reverse ++ a :: back.reverse).rdropWhile (fun a => !a.satisfies p) =
        front.reverse ++ [a] := by
      rw [List.rdropWhile, hrev, List.dropWhile_append_of_pos hback]
      simp [ha]
    have htake : (front.reverse ++ a :: back.reverse).rtakeWhile (fun a => !a.satisfies p) =
        back.reverse := by
      rw [List.rtakeWhile, hrev, List.takeWhile_append_of_pos hback]
      simp [ha]
    rw [if_pos (by simp [ha]), splitLastWhere_append _ ha hlast, hdrop, htake,
      List.dropLast_concat]

theorem basename_ofAtoms (as : List Atom) :
    (ofAtoms as).basename =
      ofAtoms (as.rtakeWhile fun a => a != .char '/' && a != .char '\\') := by
  -- an atom that is neither separator is one that the class of separators does not have
  have hclass (a : Atom) : (a != .char '/' && a != .char '\\') =
      !a.satisfies fun c => c == '/' || c == '\\' := by
    cases a with
    | reference r => rfl
    | char c => simp [bne, Bool.beq_eq_decide_eq]
  simp only [hclass]
  rw [basename, splitLastWhere_ofAtoms]
  split
  · next h =>
    obtain ⟨-, h⟩ := Option.ite_none_right_eq_some.1 h
    exact (Prod.mk.inj (Option.some.inj h)).2.symm
  · next h =>
    have hnone : ∀ a ∈ as, (!a.satisfies fun c => c == '/' || c == '\\') = true := by
      simpa using h
    rw [List.rtakeWhile_eq_self_iff.2 hnone]

/-- No piece has the separator. -/
theorem not_mem_of_mem_splitOn (x : Atom) {as piece : List Atom} (h : piece ∈ as.splitOn x) :
    x ∉ piece := by
  induction as generalizing piece with
  | nil =>
    rw [List.splitOn_nil, List.mem_singleton] at h
    simp [h]
  | cons a as ih =>
    rw [List.splitOn_cons_eq_if_modifyHead] at h
    split at h
    · rcases List.mem_cons.1 h with rfl | h
      · simp
      · exact ih h
    · next ha =>
      cases hs : as.splitOn x with
      | nil => exact absurd hs (List.splitOn_ne_nil x as)
      | cons first more =>
        rw [hs] at ih h
        rcases List.mem_cons.1 h with rfl | h
        · rw [List.mem_cons, not_or]
          exact ⟨fun hx => ha (by simp [hx]), ih List.mem_cons_self⟩
        · exact ih (List.mem_cons_of_mem _ h)

/-! ## Literal text -/

theorem atoms_mapText (f : Char → Text) (w : Word) :
    (w.mapText fun t => t.flatMap f).atoms = w.atoms.flatMap (Atom.mapChar f) := by
  obtain ⟨parts⟩ := w
  show WordPart.atomsOf (List.foldl WordPart.push [] _) = _
  rw [WordPart.atomsOf_foldl_push]
  show (parts.map _).flatMap WordPart.atoms =
    (parts.flatMap WordPart.atoms).flatMap (Atom.mapChar f)
  induction parts with
  | nil => rfl
  | cons p parts ih =>
    rw [List.map_cons, List.flatMap_cons, ih, List.flatMap_cons, List.flatMap_append]
    cases p with
    | text t => simp [Atom.mapChar, List.flatMap_map, List.map_flatMap]
    | reference r => simp [Atom.mapChar]

theorem mapText_ofAtoms (f : Char → Text) (as : List Atom) :
    ((ofAtoms as).mapText fun t => t.flatMap f) = ofAtoms (as.flatMap (Atom.mapChar f)) := by
  refine eq_ofAtoms (isNormal_mapText _ _) ?_
  rw [atoms_mapText, atoms_ofAtoms]

/-- A normal word has a text exactly if all of its atoms are characters, and then those are the
text. -/
theorem literal?_eq_some_iff {w : Word} {t : Text} (h : w.IsNormal) :
    w.literal? = some t ↔ w.atoms = t.map .char := by
  constructor
  · intro ht
    rw [eq_ofText_of_isText (t := t) h (by simp [isText, ht]), atoms_ofText]
  · intro ha
    rw [eq_ofAtoms h ha, ← ofText_eq_ofAtoms]
    cases t with
    | nil => rfl
    | cons c t => rfl

/-! ## Steps and runs -/

/-- An operation on the word of some atoms makes the words of what it makes of the atoms. -/
theorem Operation.run_ofAtoms (op : Operation) {as : List Atom} (h : op.Fits as) :
    op.run (ofAtoms as) = (op.onAtoms as).map ofAtoms := by
  -- every operation was computed on atoms before; what is left is to read its definition
  cases op with
  | literal t => exact congrArg ([·]) (ofText_eq_ofAtoms t)
  | pushText t => exact congrArg ([·]) (pushText_ofAtoms as t)
  | pushChar c => exact congrArg ([·]) (pushText_ofAtoms as [c])
  | pushReference r => exact congrArg ([·]) (pushReference_ofAtoms as r)
  | append v => exact congrArg ([·]) (append_eq_ofAtoms as v)
  | dropLeading c =>
    rw [run, onAtoms, dropLeading?_eq_ite]
    split
    · rfl
    · rfl
  | dropTrailing c =>
    rw [run, onAtoms, dropTrailing?_eq_ite]
    split
    · rfl
    · rfl
  | dropBytes lead =>
    obtain ⟨rest, rfl⟩ := h
    rw [run, onAtoms, dropBytes_ofAtoms, List.map_singleton,
      List.drop_left' (List.length_map Atom.char)]
  | splitOnce c =>
    rw [run, onAtoms, Word.splitOnce, splitWhere_ofAtoms]
    simp only [Atom.satisfies_beq, List.any_beq', List.contains_iff_mem]
    split
    · rfl
    · rfl
  | splitOnceLast c =>
    rw [run, onAtoms, Word.splitOnceLast, splitLastWhere_ofAtoms]
    simp only [Atom.satisfies_beq, List.any_beq', List.contains_iff_mem]
    split
    · rfl
    · rfl
  | split c => exact split_ofAtoms c as
  | basename => exact congrArg ([·]) (basename_ofAtoms as)
  | trimStart => exact congrArg ([·]) (trimStart_ofAtoms as)
  | trimEnd => exact congrArg ([·]) (trimEnd_ofAtoms as)
  | trim =>
    rw [run, onAtoms, Word.trim, trimStart_ofAtoms, trimEnd_ofAtoms]
    rfl
  | mapText f => exact congrArg ([·]) (mapText_ofAtoms f as)
  | encode => exact congrArg ([·]) (mapText_ofAtoms FormEncoding.encodeChar as)

/-- An operation makes normal words of normal words, and commutes with taking the atoms. -/
theorem Operation.run_refines (op : Operation) {w : Word} (hw : w.IsNormal) (h : op.Fits w.atoms) :
    (op.run w).map atoms = op.onAtoms w.atoms ∧ ∀ v ∈ op.run w, v.IsNormal := by
  have hrun : op.run w = (op.onAtoms w.atoms).map ofAtoms := by
    rw [← op.run_ofAtoms h, ofAtoms_atoms hw]
  constructor
  · rw [hrun, List.map_map]
    simp [Function.comp_def]
  · intro v hv
    rw [hrun] at hv
    obtain ⟨as, -, rfl⟩ := List.mem_map.1 hv
    exact isNormal_ofAtoms as

theorem Made.isNormal {w : Word} (h : Made w) : w.IsNormal := by
  induction h with
  | empty => trivial
  | step op _ hfits _ hv ih _ => exact (op.run_refines ih hfits).2 _ hv

/-- Words that operations make are normal, normal words are equal exactly if their atoms are, and
each operation does to the atoms what `Operation.onAtoms` says. Cutting everywhere loses nothing
and leaves no separator, and the text of a word is its atoms where all of them are characters. -/
theorem refines_atoms :
    (∀ w, Made w → w.IsNormal) ∧
      (∀ v w : Word, v.IsNormal → w.IsNormal → (v = w ↔ v.atoms = w.atoms)) ∧
      (∀ (op : Operation) (w : Word), w.IsNormal → op.Fits w.atoms →
        (op.run w).map atoms = op.onAtoms w.atoms ∧ ∀ v ∈ op.run w, v.IsNormal) ∧
      (∀ (c : Char) (w : Word), w.IsNormal →
        [Atom.char c].intercalate ((w.split c).map atoms) = w.atoms ∧
          ∀ piece ∈ w.split c, Atom.char c ∉ piece.atoms) ∧
      ∀ (w : Word) (t : Text), w.IsNormal → (w.literal? = some t ↔ w.atoms = t.map .char) := by
  refine ⟨fun w => Made.isNormal, ?_, fun op w => op.run_refines, ?_,
    fun w t => literal?_eq_some_iff⟩
  · intro v w hv hw
    constructor
    · rintro rfl
      rfl
    · intro ha
      rw [← ofAtoms_atoms hv, ha, ofAtoms_atoms hw]
  · intro c w hw
    -- cutting everywhere is a step as well, so its pieces are known from their atoms
    obtain ⟨hpieces, -⟩ := (Operation.split c).run_refines hw trivial
    change (w.split c).map atoms = w.atoms.splitOn (.char c) at hpieces
    constructor
    · rw [hpieces, List.intercalate_splitOn]
    · intro piece hpiece
      have hmem : piece.atoms ∈ w.atoms.splitOn (.char c) := by
        rw [← hpieces]
        exact List.mem_map_of_mem hpiece
      exact not_mem_of_mem_splitOn (.char c) hmem

/-- A word with text on both sides of a reference, cut at the last of its equals signs. -/
theorem refines_atoms_cut :
    let w := ((empty.pushText "a=b".toList).pushReference ⟨"V".toList, false⟩).pushText "=".toList
    Made w ∧ w.IsNormal ∧
      ((Operation.splitOnceLast '=').run w).map atoms =
        [[.char 'a', .char '=', .char 'b', .reference ⟨"V".toList, false⟩], []] := by
  intro w
  obtain ⟨hnormal, -, hstep, -⟩ := refines_atoms
  have htext : Made (empty.pushText "a=b".toList) :=
    .step (.pushText "a=b".toList) .empty trivial (by simp [Operation.operands])
      List.mem_cons_self
  have hreference : Made ((empty.pushText "a=b".toList).pushReference ⟨"V".toList, false⟩) :=
    .step (.pushReference ⟨"V".toList, false⟩) htext trivial (by simp [Operation.operands])
      List.mem_cons_self
  have hmade : Made w :=
    .step (.pushText "=".toList) hreference trivial (by simp [Operation.operands])
      List.mem_cons_self
  refine ⟨hmade, hnormal w hmade, ?_⟩
  rw [(hstep (.splitOnceLast '=') w (hnormal w hmade) trivial).1]
  decide

end Word
end CurlScribe
