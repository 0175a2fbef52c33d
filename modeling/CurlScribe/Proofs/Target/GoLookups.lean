import CurlScribe.Proofs.Target.GoNames
import CurlScribe.Proofs.Target.GoShape
import CurlScribe.Proofs.Target.Lookups

/-!
# Look-ups of Go programs

The code of a statement looks up the variables of the statement, provided that none of its dotted
names is that of a look-up or ends with the beginning of one. None of those in programs is.
-/

namespace CurlScribe
namespace Go
open Code Target

/-! ## Expressions and statements -/

/-- The dotted name does not look up anything. -/
def Selector.IsPlain (s : Selector) : Prop := LooksUp goOpening IsPhrase s.code []

instance (s : Selector) : Decidable s.IsPlain := inferInstanceAs (Decidable (LooksUp _ _ _ _))

theorem looksUpOperands : LooksUpOperands goOpening operandCode where
  literal _ := ⟨rfl, rfl, rfl⟩
  lookup name := ⟨isPhrase_operandCode (.lookup name), rfl, rfl⟩

mutual

/-- An expression looks up what its operands look up if its selectors look nothing up. -/
theorem Expr.looksUp_code :
    (e : Expr) → (∀ s ∈ e.selectors, s.IsPlain) → LooksUp goOpening IsPhrase e.code e.lookups
  | .string operands, _ => by
    have hsep : LooksUp goOpening IsFrame (fixed " + ") [] := by decide
    rw [Expr.code, Expr.lookups]
    exact (looksUpOperands.operands operands).join hsep
  | .nil, _ => by
    rw [Expr.code, Expr.lookups]
    decide
  | .select s, h => by
    rw [Expr.code, Expr.lookups]
    exact h s (by simp)
  | .call f args, h => by
    rw [Expr.selectors, List.forall_mem_cons] at h
    obtain ⟨hf, hargs⟩ := h
    rw [Expr.code, Expr.lookups]
    exact (LooksUp.call hf separates_go (Expr.looksUp_codes args hargs)).mono IsLine.isPhrase
  | .newValue type, h => by
    have hand : LooksUp goOpening IsLine (fixed "&") [] := by decide
    have hbraces : LooksUp goOpening IsFrame (fixed "\x7b\x7d") [] := by decide
    have htype : type.IsPlain := h type (by simp)
    rw [Expr.code, Expr.lookups]
    exact ((hand.append_phrase htype).append_frame hbraces).mono IsLine.isPhrase
  | .bytesOf e, h => by
    have hopen : LooksUp goOpening IsLine (fixed "[]byte(") [] := by decide
    rw [Expr.selectors] at h
    have hcode := (hopen.append_phrase (Expr.looksUp_code e h)).append_frame separates_go.close
    rw [Expr.code, Expr.lookups]
    simpa using hcode.mono IsLine.isPhrase

/-- The same of a row of expressions. -/
theorem Expr.looksUp_codes :
    (es : List Expr) → (∀ s ∈ Expr.selectorsOf es, s.IsPlain) →
      AllLookUp goOpening (Expr.codes es) (Expr.lookupsOf es)
  | [], _ => by
    rw [Expr.codes, Expr.lookupsOf]
    exact .nil
  | e :: rest, h => by
    rw [Expr.selectorsOf, List.forall_mem_append] at h
    rw [Expr.codes, Expr.lookupsOf]
    exact .cons (Expr.looksUp_code e h.1) (Expr.looksUp_codes rest h.2)

end

/-- Targets are names, and look nothing up. -/
theorem looksUp_targetsCode (targets : List (Option Variable)) :
    LooksUp goOpening IsPhrase (targetsCode targets) [] := by
  have hnames : targets.flatMap (fun _ => ([] : List Text)) = [] := by simp
  rw [← hnames]
  refine AllLookUp.join separates_go.comma (.map fun target _ => ?_)
  cases target with
  | some v => cases v <;> decide
  | none => decide

/-- A statement whose dotted names look up nothing looks up what its expressions do. -/
theorem Statement.looksUp_code {s : Statement} (h : ∀ sel ∈ s.selectors, sel.IsPlain) :
    LooksUp goOpening IsLine s.code s.lookups := by
  have htab : LooksUp goOpening IsLine (fixed "\t") [] := by decide
  have hend : LooksUp goOpening IsFrame (fixed "\n") [] := by decide
  -- every statement but the fixed ones is a line, the code of its value and a line end
  have hvalue {front : Code} {e : Expr} (hfront : LooksUp goOpening IsLine front [])
      (he : ∀ sel ∈ Expr.selectorsOf [e], sel.IsPlain) :
      LooksUp goOpening IsLine (front ++ e.code ++ fixed "\n") (Expr.lookupsOf [e]) := by
    rw [Expr.selectorsOf, Expr.selectorsOf, List.append_nil] at he
    have hline := (hfront.append_phrase (e.looksUp_code he)).append_frame hend
    rw [Expr.lookupsOf, Expr.lookupsOf]
    simpa using hline
  cases s with
  | define targets value =>
    have heq : LooksUp goOpening IsFrame (fixed " := ") [] := by decide
    exact hvalue ((htab.append_phrase (looksUp_targetsCode _)).append_frame heq) h
  | assign targets value =>
    have heq : LooksUp goOpening IsFrame (fixed " = ") [] := by decide
    exact hvalue ((htab.append_phrase (looksUp_targetsCode _)).append_frame heq) h
  | declare target value =>
    have hvar : LooksUp goOpening IsLine
        (fixed "\tvar " ++ [.code target.name] ++ fixed " = ") [] := by
      cases target <;> decide
    exact hvalue hvar h
  | checkError => decide
  | later value => exact hvalue (show LooksUp goOpening IsLine (fixed "\tdefer ") [] by decide) h
  | run value => exact hvalue htab h
  | gap => decide

/-- A program looks up what its statements look up, in order. -/
theorem Program.looksUp_code {p : Program}
    (h : ∀ s ∈ p.statements, ∀ sel ∈ s.selectors, sel.IsPlain) :
    LooksUp goOpening IsLine p.code (p.statements.flatMap Statement.lookups) := by
  have hopen : LooksUp goOpening IsLine (fixed "package main\n\nimport (\n") [] := by decide
  have himports : LooksUp goOpening IsLine (p.imports.flatMap fun package =>
      fixed "\t" ++ quoted package.path ++ fixed "\n") (p.imports.flatMap fun _ => []) := by
    refine looksUp_flatMap fun package _ => ?_
    cases package <;> decide
  have hmain : LooksUp goOpening IsLine (fixed ")\n\nfunc main() \x7b\n") [] := by decide
  have hstatements := looksUp_flatMap fun s hs => Statement.looksUp_code (h s hs)
  have hclose : LooksUp goOpening IsLine (fixed "\x7d\n") [] := by decide
  have hnone : p.imports.flatMap (fun _ => ([] : List Text)) = [] := by simp
  rw [hnone] at himports
  have hcode := (((hopen.append himports).append hmain).append hstatements).append hclose
  rw [Program.code]
  simpa only [List.nil_append, List.append_nil] using hcode

/-! ## Programs for requests -/

/-- The dotted names that occur in programs. -/
def knownSelectors : List Selector :=
  [⟨.builtin "new".toList, []⟩, .ofPackage .bytes "Buffer", .ofPackage .multipart "NewWriter",
    .ofPackage .os "Open", .ofPackage .io "Copy", .ofPackage .filepath "Base",
    .ofPackage .http "Client", .ofPackage .strings "NewReader", .ofPackage .http "NewRequest",
    .ofPackage .io "ReadAll", .ofPackage .fmt "Printf", .ofPackage .log "Fatal",
    .ofVariable .writer ["CreateFormField"], .ofVariable .writer ["CreateFormFile"],
    .ofVariable .writer ["Close"], .ofVariable .writer ["FormDataContentType"],
    .ofVariable .formField ["Write"], .ofVariable .fd ["Close"], .ofVariable .data ["Close"],
    .ofVariable .req ["Header", "Set"], .ofVariable .req ["Header", "Add"],
    .ofVariable .req ["SetBasicAuth"], .ofVariable .client ["Do"],
    .ofVariable .resp ["Body", "Close"], .ofVariable .resp ["Body"], .ofVariable .form [],
    .ofVariable .formField [], .ofVariable .fw [], .ofVariable .fd [], .ofVariable .data [],
    .ofVariable .req [], .ofVariable .bodyText [], .ofVariable .err []]

/-- None of the known selectors looks like a look-up. -/
theorem isPlain_of_mem_knownSelectors : ∀ s ∈ knownSelectors, s.IsPlain := by decide

/-- The selectors of all form parts are known. -/
theorem selectors_partStatements_subset (declared : List Variable) (part : FormPart) :
    (partStatements declared part).flatMap Statement.selectors ⊆ knownSelectors := by
  cases part with
  | field name value => simp [partStatements, knownSelectors]
  | fileContent name path => simp [partStatements, copyFile, knownSelectors]
  | file name filename path =>
    have hname : (fileNameExpr filename path).selectors ⊆ knownSelectors := by
      unfold fileNameExpr
      split <;> simp [knownSelectors]
    simp [partStatements, copyFile, hname]
    simp [knownSelectors]

theorem selectors_partsStatements_subset (declared : List Variable) (parts : List FormPart) :
    (partsStatements declared parts).flatMap Statement.selectors ⊆ knownSelectors := by
  induction parts generalizing declared with
  | nil => exact List.nil_subset _
  | cons part rest ih =>
    rw [partsStatements, List.flatMap_append, List.append_subset]
    exact ⟨selectors_partStatements_subset declared part, ih (declared ++ partVariables part)⟩

/-- The selectors of the calls for header fields are known. -/
theorem selectors_headerStatements_subset (earlier hs : Headers) :
    (headerStatements earlier hs).flatMap Statement.selectors ⊆ knownSelectors := by
  induction hs generalizing earlier with
  | nil => exact List.nil_subset _
  | cons h rest ih =>
    have hset (isRepeated : Bool) :
        (setHeader isRepeated (.ofWord h.name) (.ofWord h.value)).selectors ⊆ knownSelectors := by
      cases isRepeated <;> simp [setHeader, knownSelectors]
    rw [headerStatements, List.flatMap_cons, List.append_subset]
    exact ⟨hset _, ih (earlier ++ [h])⟩

/-- The dotted names in the statements for a request. -/
theorem selectors_statementsOf_subset (r : Request) :
    (statementsOf r).flatMap Statement.selectors ⊆ knownSelectors := by
  have hform : (formStatements r.body).flatMap Statement.selectors ⊆ knownSelectors := by
    cases r.body with
    | multipart parts =>
      have hparts := selectors_partsStatements_subset [] parts
      simp only [formStatements, List.flatMap_append, List.append_subset]
      refine ⟨⟨?_, hparts⟩, ?_⟩ <;> simp [knownSelectors]
    | _ => exact List.nil_subset _
  have hbody : (bodyStatements r.body).flatMap Statement.selectors ⊆ knownSelectors := by
    cases r.body <;> simp [bodyStatements, textReader, knownSelectors]
  have hargument : (bodyArgument r.body).selectors ⊆ knownSelectors := by
    cases r.body <;> simp [bodyArgument, knownSelectors]
  have htype : (contentTypeStatements r).flatMap Statement.selectors ⊆ knownSelectors := by
    unfold contentTypeStatements
    split <;> simp [setHeader, knownSelectors]
  have hcredentials : (r.credentials.toList.flatMap credentialsStatements).flatMap
      Statement.selectors ⊆ knownSelectors := by
    cases r.credentials <;> simp [credentialsStatements, knownSelectors]
  simp only [statementsOf, List.flatMap_append, List.append_subset]
  refine ⟨⟨⟨⟨⟨⟨⟨hform, ?client⟩, hbody⟩, ?request⟩, ?headers⟩, htype⟩, hcredentials⟩, ?send⟩
  case client => simp [knownSelectors]
  case request =>
    simp [hargument]
    simp [knownSelectors]
  case headers => exact selectors_headerStatements_subset [] r.headers
  case send => simp [sendStatements, knownSelectors]

/-- The code of the program for a request looks up what its statements do. -/
theorem looksUp_ofRequest (r : Request) :
    LooksUp goOpening IsLine (Program.ofRequest r).code
      ((statementsOf r).flatMap Statement.lookups) := by
  refine Program.looksUp_code fun s hs sel hsel => isPlain_of_mem_knownSelectors sel ?_
  exact selectors_statementsOf_subset r (List.mem_flatMap.2 ⟨s, hs, hsel⟩)

end Go
end CurlScribe
