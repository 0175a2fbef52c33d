import CurlScribe.Proofs.Outcome
import CurlScribe.Proofs.Word.Reading
import CurlScribe.Request.Payload

/-!
# Parts of form data

The value of a form option is a name, a `=` and the rest, and the rest is a text or the
specification of a file: a path and modifiers, with `;` between them. This module reads values in
these terms, as rows of atoms, and shows that a body has just the parts that the form options say,
in order. What a part cannot keep is remarked upon, modifier by modifier.
-/

namespace CurlScribe

/-! ## Specifications of files -/

/-- The specification of a file. -/
structure FileSpec where
  path : List Atom
  modifiers : List (List Atom)

namespace FileSpec
open Atom

/-- A specification is its path up to the first `;`, and a modifier behind each `;`. -/
def read (as : List Atom) : FileSpec := ⟨before ';' as, (as.splitOn (.char ';')).tail⟩

/-- Is the modifier of the form `key=value`, with the key in any case? -/
def HasKey (key : String) (modifier : List Atom) : Prop :=
  .char '=' ∈ modifier ∧ Names key (before '=' modifier)

instance (key : String) (modifier : List Atom) : Decidable (HasKey key modifier) :=
  inferInstanceAs (Decidable (_ ∧ _))

/-- The file names that modifiers set, in order. -/
def namesIn (modifiers : List (List Atom)) : List (List Atom) :=
  (modifiers.filter (HasKey "filename")).map (behind '=')

/-- The name that the file is sent under: the last one that is set, else the end of the path behind
its last slash or backslash. -/
def filename (s : FileSpec) : List Atom :=
  (namesIn s.modifiers).getLast?.getD
    (s.path.rtakeWhile fun a => a != .char '/' && a != .char '\\')

/-- What is remarked upon a modifier that cannot be kept. -/
def remark (flag : Text) (path modifier : List Atom) : Warning :=
  if HasKey "type" modifier then
    .ofFlag flag ("content type of ".toList ++ (Word.ofAtoms path).written
      ++ " is not set: ".toList ++ (Word.ofAtoms modifier).written)
  else
    .ofFlag flag ("unsupported form modifier ignored: ".toList ++ (Word.ofAtoms modifier).written)

/-- One remark for each modifier that does not set the file name. -/
def remarksOn (flag : Text) (path : List Atom) (modifiers : List (List Atom)) : List Warning :=
  (modifiers.filter fun m => ¬HasKey "filename" m).map (remark flag path)

/-- The remarks on a specification. -/
def remarks (flag : Text) (s : FileSpec) : List Warning := remarksOn flag s.path s.modifiers

end FileSpec

namespace FormItem
open Atom

theorem isTextIgnoringCase_before {key : String} {t : Text} {m : List Atom}
    (ht : Text.lower t = key.toList) (h : .char '=' ∈ m) :
    (Word.ofAtoms (before '=' m)).isTextIgnoringCase t = true ↔ FileSpec.HasKey key m := by
  rw [Word.isTextIgnoringCase_ofAtoms ht, FileSpec.HasKey]
  exact (and_iff_right h).symm

/-- A modifier sets a file name, unless a later one does, or is remarked upon. -/
theorem readModifiers_cons (flag : Text) (path m : List Atom) (rest : List Word) :
    readModifiers flag (Word.ofAtoms path) (Word.ofAtoms m :: rest) =
      if FileSpec.HasKey "filename" m then
        ((readModifiers flag (Word.ofAtoms path) rest).1.or
            (some (Word.ofAtoms (behind '=' m))),
          (readModifiers flag (Word.ofAtoms path) rest).2)
      else
        ((readModifiers flag (Word.ofAtoms path) rest).1,
          FileSpec.remark flag path m :: (readModifiers flag (Word.ofAtoms path) rest).2) := by
  rw [readModifiers, Word.splitOnce_ofAtoms]
  by_cases hequals : Atom.char '=' ∈ m
  · have hfilename : _ ↔ FileSpec.HasKey "filename" m :=
      isTextIgnoringCase_before (t := "filename".toList) (by decide) hequals
    have htype : _ ↔ FileSpec.HasKey "type" m :=
      isTextIgnoringCase_before (t := "type".toList) (by decide) hequals
    rw [if_pos hequals]
    simp only [hfilename, htype, FileSpec.remark]
    split
    · rfl
    · split
      · rfl
      · rfl
  · have hkey (key : String) : ¬FileSpec.HasKey key m := fun h => hequals h.1
    rw [if_neg hequals, if_neg (hkey "filename"), FileSpec.remark, if_neg (hkey "type")]

/-- The last name that modifiers set counts, and every other modifier is remarked upon. -/
theorem readModifiers_ofAtoms (flag : Text) (path : List Atom) (modifiers : List (List Atom)) :
    readModifiers flag (Word.ofAtoms path) (modifiers.map Word.ofAtoms) =
      ((FileSpec.namesIn modifiers).getLast?.map Word.ofAtoms,
        FileSpec.remarksOn flag path modifiers) := by
  induction modifiers with
  | nil => rfl
  | cons m rest ih =>
    rw [List.map_cons, readModifiers_cons, ih]
    unfold FileSpec.namesIn FileSpec.remarksOn
    by_cases hf : FileSpec.HasKey "filename" m
    · have hlast (names : List (List Atom)) :
          (names.getLast?.map Word.ofAtoms).or (some (Word.ofAtoms (behind '=' m))) =
            (behind '=' m :: names).getLast?.map Word.ofAtoms := by
        rw [List.getLast?_cons]
        cases names.getLast? <;> rfl
      rw [if_pos hf, List.filter_cons_of_pos (by simpa using hf),
        List.filter_cons_of_neg (by simpa using hf), hlast]
      rfl
    · rw [if_neg hf, List.filter_cons_of_neg (by simpa using hf),
        List.filter_cons_of_pos (by simpa using hf)]
      rfl

/-- A specification is read as its atoms are. -/
theorem readFile_ofAtoms (flag : Text) (as : List Atom) :
    readFile flag (Word.ofAtoms as) =
      (Word.ofAtoms (FileSpec.read as).path,
        (FileSpec.namesIn (FileSpec.read as).modifiers).getLast?.map Word.ofAtoms,
        (FileSpec.read as).remarks flag) := by
  unfold readFile
  rw [Word.split_ofAtoms, splitOn_eq_cons]
  exact congrArg (Prod.mk _) (readModifiers_ofAtoms flag (before ';' as) _)

/-- The word of the file name is the one that modifiers set, else the base name of the path. -/
theorem getD_basename (s : FileSpec) :
    ((FileSpec.namesIn s.modifiers).getLast?.map Word.ofAtoms).getD
      (Word.ofAtoms s.path).basename = Word.ofAtoms s.filename := by
  rw [Word.basename_ofAtoms, FileSpec.filename]
  cases (FileSpec.namesIn s.modifiers).getLast? <;> rfl

/-! ## Options -/

/-- The name of the part: the value up to its first `=`. -/
def name (item : FormItem) : List Atom := before '=' item.value.atoms

/-- The value behind its first `=`. -/
def rest (item : FormItem) : List Atom := behind '=' item.value.atoms

/-- What a part is made of. -/
inductive Origin where
  | text (value : List Atom)
  /-- A file that is attached under a name. -/
  | attachment (spec : FileSpec)
  /-- A file whose contents are the value. -/
  | contents (spec : FileSpec)

/-- The rest of a value says by its first character whether it is a text or stands for a file. -/
def originOf (isLiteral : Bool) (rest : List Atom) : Origin :=
  match isLiteral, rest with
  | false, .char '@' :: spec => .attachment (FileSpec.read spec)
  | false, .char '<' :: spec => .contents (FileSpec.read spec)
  | _, value => .text value

/-- The part of the given name. -/
def Origin.part (name : List Atom) : Origin → FormPart
  | .text value => .field (Word.ofAtoms name) (Word.ofAtoms value)
  | .attachment s => .file (Word.ofAtoms name) (Word.ofAtoms s.filename) (Word.ofAtoms s.path)
  | .contents s => .fileContent (Word.ofAtoms name) (Word.ofAtoms s.path)

/-- The remarks on what a part cannot keep. A file name is of no use to contents. -/
def Origin.remarks (flag : Text) : Origin → List Warning
  | .text _ => []
  | .attachment s => s.remarks flag
  | .contents s =>
    s.remarks flag ++
      if FileSpec.namesIn s.modifiers = [] then []
      else [.ofFlag flag "filename= has no effect on a field read from a file".toList]

/-- What an option makes its part of. -/
def origin (item : FormItem) : Origin := originOf item.isLiteral item.rest

/-- An option without `=` in its value stands for nothing. -/
theorem part_of_not_mem {item : FormItem} (hw : item.value.IsNormal)
    (h : .char '=' ∉ item.value.atoms) :
    item.part = .fail (.invalidArgument item.flag (.notNameValue item.value)) := by
  have hsplit : item.value.splitOnce '=' = none := by
    rw [← Word.ofAtoms_atoms hw]
    exact Word.splitOnce_of_not_mem h
  rw [part, hsplit]

/-- A rest that neither `@` nor `<` begins is a text. -/
theorem originOf_of_ne {rest : List Atom} (hat : rest.head? ≠ some (.char '@'))
    (hless : rest.head? ≠ some (.char '<')) : originOf false rest = .text rest := by
  unfold originOf
  split
  · exact absurd rfl hat
  · exact absurd rfl hless
  · rfl

/-- An option with `=` in its value stands for the part that its value says. -/
theorem part_of_mem {item : FormItem} (hw : item.value.IsNormal)
    (h : .char '=' ∈ item.value.atoms) :
    item.part = ⟨.ok (item.origin.part item.name), item.origin.remarks item.flag⟩ := by
  have hsplit : item.value.splitOnce '=' =
      some (Word.ofAtoms item.name, Word.ofAtoms item.rest) := by
    rw [← Word.ofAtoms_atoms hw, Word.splitOnce_ofAtoms, if_pos h]
    rfl
  rw [part, hsplit, origin]
  cases item.isLiteral with
  | true => rfl
  | false =>
    simp only [Bool.false_eq_true, if_false, Word.dropLeading?_eq_ite]
    -- a value that is not literal is a file, the content of one, or itself
    by_cases hat : item.rest.head? = some (.char '@')
    · obtain ⟨spec, hspec⟩ := List.head?_eq_some_iff.1 hat
      have hfilename := getD_basename (FileSpec.read spec)
      rw [if_pos hat, hspec, List.tail_cons]
      simp only [readFile_ofAtoms, hfilename]
      rfl
    · by_cases hless : item.rest.head? = some (.char '<')
      · obtain ⟨spec, hspec⟩ := List.head?_eq_some_iff.1 hless
        rw [if_neg hat, if_pos hless, hspec, List.tail_cons]
        simp only [readFile_ofAtoms, Option.isSome_map, List.getLast?_isSome, ne_eq, ite_not]
        rfl
      · rw [if_neg hat, if_neg hless, originOf_of_ne hat hless]
        rfl

end FormItem

/-! ## Bodies -/

namespace Body

section Forms

variable {forms : List FormItem} (hforms : forms ≠ []) (hw : ∀ item ∈ forms, item.value.IsNormal)
  (data : List DataItem) (contentType : Option Word)

include hforms in
theorem classify_eq_forAll :
    classify data forms contentType = (Outcome.warn (droppedData data)).andThen fun _ =>
      (Outcome.forAll FormItem.part forms).andThen fun parts => .ok (.multipart parts) := by
  rw [classify, List.isEmpty_eq_false_iff.2 hforms]
  rfl

include hforms hw in
/-- Form options with `=` in their values make a body of their parts. -/
theorem classify_of_forall_mem (h : ∀ item ∈ forms, .char '=' ∈ item.value.atoms) :
    classify data forms contentType =
      ⟨.ok (.multipart (forms.map fun item => item.origin.part item.name)),
        droppedData data ++ forms.flatMap fun item => item.origin.remarks item.flag⟩ := by
  rw [classify_eq_forAll hforms,
    Outcome.forAll_eq fun item hitem => FormItem.part_of_mem (hw item hitem) (h item hitem)]
  simp [Outcome.andThen, Outcome.warn, Outcome.ok]

include hforms hw in
/-- A form option without `=` in its value, the first if there are more, ends the reading. -/
theorem exists_error_of_classify {item : FormItem} (hitem : item ∈ forms)
    (h : .char '=' ∉ item.value.atoms) :
    ∃ other ∈ forms, (classify data forms contentType).result =
      .error (.invalidArgument other.flag (.notNameValue other.value)) := by
  have hfails : item.part.result =
      .error (.invalidArgument item.flag (.notNameValue item.value)) := by
    rw [FormItem.part_of_not_mem (hw item hitem) h]
    rfl
  obtain ⟨other, hother, e, he, hall⟩ := Outcome.exists_error_of_forAll hitem hfails
  refine ⟨other, hother, ?_⟩
  have hnone : .char '=' ∉ other.value.atoms := by
    intro hmem
    rw [FormItem.part_of_mem (hw other hother) hmem] at he
    cases he
  rw [FormItem.part_of_not_mem (hw other hother) hnone] at he
  obtain rfl := Except.error.inj he
  rw [classify_eq_forAll hforms]
  simp [Outcome.andThen, Outcome.warn, hall]

include hforms hw in
/-- Form options make a body exactly if the value of each has a `=`. The body then has one part for
each option, in order: its name stands before the first `=`, and its kind and content depend on what
stands behind it alone. The warnings are one for each data option, which form options displace, and
behind them the remarks on the form options, in order. -/
theorem classify_forms :
    ((∃ body, (classify data forms contentType).result = .ok body) ↔
      ∀ item ∈ forms, .char '=' ∈ item.value.atoms) ∧
    ∀ body, (classify data forms contentType).result = .ok body →
      body = .multipart (forms.map fun item => item.origin.part item.name) ∧
      (classify data forms contentType).warnings =
        (data.map fun item =>
          .ofFlag item.flag "ignored because the request has form fields".toList) ++
        forms.flatMap fun item => item.origin.remarks item.flag := by
  have hall {body : Body} (hbody : (classify data forms contentType).result = .ok body) :
      ∀ item ∈ forms, Atom.char '=' ∈ item.value.atoms := by
    intro item hitem
    by_contra hnone
    obtain ⟨other, -, herror⟩ := exists_error_of_classify hforms hw data contentType hitem hnone
    rw [hbody] at herror
    cases herror
  refine ⟨⟨fun ⟨body, hbody⟩ => hall hbody, ?_⟩, ?_⟩
  · intro h
    exact ⟨_, congrArg Outcome.result (classify_of_forall_mem hforms hw data contentType h)⟩
  · intro body hbody
    have hequal := classify_of_forall_mem hforms hw data contentType (hall hbody)
    rw [hequal] at hbody ⊢
    exact ⟨(Except.ok.inj hbody).symm, rfl⟩

end Forms

/-- Two names for one file, the first of them in capitals, around a type that cannot be kept; a name
for contents; and a literal option that looks like a file. -/
theorem classify_forms_overridden :
    let forms : List FormItem := [
      ⟨"-F".toList, Word.ofString "a=@d/x;FileName=y;type=t;filename=" ++
        Word.ofReference ⟨"N".toList, false⟩, false⟩,
      ⟨"-F".toList, Word.ofString "b=<p;filename=q", false⟩,
      ⟨"--form-string".toList, Word.ofString "c=@d=e", true⟩]
    let data : List DataItem := [⟨.ascii, "-d".toList, Word.ofString "@-"⟩]
    (classify data forms none).result = .ok (.multipart [
        .file (Word.ofString "a") (Word.ofReference ⟨"N".toList, false⟩) (Word.ofString "d/x"),
        .fileContent (Word.ofString "b") (Word.ofString "p"),
        .field (Word.ofString "c") (Word.ofString "@d=e")]) ∧
      (classify data forms none).warnings.map Warning.shown = [
        "-d: ignored because the request has form fields".toList,
        "-F: content type of d/x is not set: type=t".toList,
        "-F: filename= has no effect on a field read from a file".toList] := by
  intro forms data
  have hforms : forms ≠ [] := List.cons_ne_nil _ _
  have hw : ∀ item ∈ forms, item.value.IsNormal := by decide
  have hequals : ∀ item ∈ forms, Atom.char '=' ∈ item.value.atoms := by decide
  obtain ⟨hiff, hparts⟩ := classify_forms hforms hw data none
  obtain ⟨body, hbody⟩ := hiff.2 hequals
  obtain ⟨rfl, hwarnings⟩ := hparts body hbody
  rw [hbody, hwarnings]
  exact ⟨by decide +kernel, by decide +kernel⟩

end Body
end CurlScribe
