import CurlScribe.Proofs.Target.GoNames
import CurlScribe.Target.Render

/-!
# Scopes of Go programs

The language rejects a program that imports a package without need, uses a variable before it is
declared, declares nothing new by `:=` or never uses what it declares. Which variables a statement
declares depends on the parts of the body that come before it, so the statements are checked in
order, with the variables declared before them and those used after them.
-/

namespace CurlScribe
namespace Go
open CurlScribe.Go.Expr (ofWord ofText ofVariable)

/-! ## Statements in order -/

/-- What the language asks of a statement where the variables of `before` have been declared and
those of `after` are used by later statements. -/
structure Statement.IsScoped (before after : List Variable) (s : Statement) : Prop where
  declares_new : s.declares ≠ [] → ∃ v ∈ s.declares, v ∉ before
  assigns : ∀ v ∈ s.assigns, v ∈ before
  uses : ∀ v ∈ s.uses, v ∈ before
  used : ∀ v ∈ s.declares, v ∈ after

/-- The variables that statements declare. -/
def declaredBy (statements : List Statement) : List Variable :=
  statements.flatMap Statement.declares

/-- The variables that statements use. -/
def usedBy (statements : List Statement) : List Variable := statements.flatMap Statement.uses

/-- Every statement is scoped by the statements around it, those of other lists included. -/
def AreScoped (before after : List Variable) (statements : List Statement) : Prop :=
  ∀ front s back, statements = front ++ s :: back →
    s.IsScoped (before ++ declaredBy front) (usedBy back ++ after)

/-- A program that the language accepts as far as packages and variables go. -/
structure Program.IsWellScoped (p : Program) : Prop where
  imports_sorted : (p.imports.map Package.path).Pairwise (· < ·)
  mem_imports : ∀ package, package ∈ p.imports ↔ ∃ s ∈ p.statements, package ∈ s.packages
  statements_scoped : AreScoped [] [] p.statements

section Order

variable {before after : List Variable} {s : Statement} {statements front back : List Statement}

@[simp] theorem declaredBy_cons :
    declaredBy (s :: statements) = s.declares ++ declaredBy statements := List.flatMap_cons

@[simp] theorem declaredBy_append :
    declaredBy (front ++ back) = declaredBy front ++ declaredBy back := List.flatMap_append

@[simp] theorem declaredBy_nil : declaredBy [] = [] := rfl

@[simp] theorem usedBy_cons : usedBy (s :: statements) = s.uses ++ usedBy statements :=
  List.flatMap_cons

@[simp] theorem usedBy_append : usedBy (front ++ back) = usedBy front ++ usedBy back :=
  List.flatMap_append

@[simp] theorem usedBy_nil : usedBy [] = [] := rfl

@[simp] theorem areScoped_nil : AreScoped before after [] := by
  intro front s back h
  simp at h

@[simp] theorem areScoped_cons :
    AreScoped before after (s :: statements) ↔ s.IsScoped before (usedBy statements ++ after) ∧
      AreScoped (before ++ s.declares) after statements := by
  constructor
  · intro h
    refine ⟨by simpa using h [] s statements rfl, ?_⟩
    rintro front t back rfl
    simpa using h (s :: front) t back rfl
  · rintro ⟨hs, hrest⟩ front t back h
    rcases front with - | ⟨u, front⟩
    · obtain ⟨rfl, rfl⟩ := List.cons.inj h
      simpa using hs
    · obtain ⟨rfl, rfl⟩ := List.cons.inj h
      simpa using hrest front t back rfl

/-- Statements in a row are scoped if the first ones are, given what the others use, and the others,
given what the first ones declare. -/
@[simp] theorem areScoped_append :
    AreScoped before after (front ++ back) ↔ AreScoped before (usedBy back ++ after) front ∧
      AreScoped (before ++ declaredBy front) after back := by
  induction front generalizing before with
  | nil => simp
  | cons s front ih => simp [ih, and_assoc]

/-- What is asked of a statement in its place. -/
theorem isScoped_iff :
    s.IsScoped before after ↔ (s.declares ≠ [] → ∃ v ∈ s.declares, v ∉ before) ∧
      (∀ v ∈ s.assigns, v ∈ before) ∧ (∀ v ∈ s.uses, v ∈ before) ∧ ∀ v ∈ s.declares, v ∈ after :=
  ⟨fun h => ⟨h.declares_new, h.assigns, h.uses, h.used⟩, fun ⟨hn, ha, hu, hl⟩ => ⟨hn, ha, hu, hl⟩⟩

attribute [simp] isScoped_iff Statement.declares Statement.assigns Statement.uses

/-! ## Multipart bodies -/

/-- Of the variables for parts, those of earlier parts have been declared, with the error beside
them. -/
structure Tracks (declared before : List Variable) : Prop where
  writer : .writer ∈ before
  mem_iff : ∀ v ∈ [Variable.formField, .fw, .fd], v ∈ before ↔ v ∈ declared
  err : declared ≠ [] → .err ∈ before

/-- The name of a file is given without a variable of the program. -/
theorem uses_fileNameExpr (filename path : Word) :
    (fileNameExpr filename path).selectors.filterMap Selector.variable? = [] := by
  unfold fileNameExpr
  split <;> simp

/-- The statements for a part are scoped, whichever of its variables are new. -/
theorem areScoped_partStatements {declared before after : List Variable}
    (h : Tracks declared before) (part : FormPart) :
    AreScoped before after (partStatements declared part) := by
  obtain ⟨hwriter, hiff, herr⟩ := h
  simp only [List.forall_mem_cons] at hiff
  obtain ⟨hfield, hfw, hfd, -⟩ := hiff
  have hbound {v : Variable} (hv : v ∈ declared) : .err ∈ before := herr (List.ne_nil_of_mem hv)
  cases part with
  | field name value =>
    by_cases hv : .formField ∈ declared
    · have hcheck := hbound hv
      simp [partStatements, bindResult, hv, hcheck, hwriter, hfield]
    · simp [partStatements, bindResult, hv, hwriter, hfield]
  | file name filename path =>
    by_cases hv : .fw ∈ declared
    · have hcheck := hbound hv
      by_cases hd : .fd ∈ declared <;>
        simp [partStatements, copyFile, bindResult, uses_fileNameExpr, hv, hd, hcheck, hwriter,
          hfw, hfd]
    · by_cases hd : .fd ∈ declared <;>
        simp [partStatements, copyFile, bindResult, uses_fileNameExpr, hv, hd, hwriter, hfw, hfd]
  | fileContent name path =>
    by_cases hv : .formField ∈ declared
    · have hcheck := hbound hv
      by_cases hd : .fd ∈ declared <;>
        simp [partStatements, copyFile, bindResult, hv, hd, hcheck, hwriter, hfield, hfd]
    · by_cases hd : .fd ∈ declared <;>
        simp [partStatements, copyFile, bindResult, hv, hd, hwriter, hfield, hfd]

/-- The statements for a part declare those of its variables that are new, and the error beside
each. -/
theorem mem_declaredBy_partStatements (declared : List Variable) (part : FormPart) (v : Variable) :
    v ∈ declaredBy (partStatements declared part) ↔
      v ∈ partVariables part ∧ v ∉ declared ∨
        v = .err ∧ ∃ u ∈ partVariables part, u ∉ declared := by
  cases part with
  | field name value =>
    by_cases hv : .formField ∈ declared <;> cases v <;>
      simp [partStatements, partVariables, bindResult, hv]
  | file name filename path =>
    by_cases hv : .fw ∈ declared <;> by_cases hd : .fd ∈ declared <;> cases v <;>
      simp [partStatements, partVariables, copyFile, bindResult, hv, hd]
  | fileContent name path =>
    by_cases hv : .formField ∈ declared <;> by_cases hd : .fd ∈ declared <;> cases v <;>
      simp [partStatements, partVariables, copyFile, bindResult, hv, hd]

/-- What is kept in mind about declarations stays right behind the statements of a part. -/
theorem Tracks.partStatements {declared before : List Variable} (h : Tracks declared before)
    (part : FormPart) :
    Tracks (declared ++ partVariables part)
      (before ++ declaredBy (partStatements declared part)) where
  writer := List.mem_append_left _ h.writer
  mem_iff v hv := by
    have hne : v ≠ .err := by
      rintro rfl
      simp at hv
    rw [List.mem_append, mem_declaredBy_partStatements, h.mem_iff v hv, List.mem_append]
    tauto
  err _ := by
    rw [List.mem_append, mem_declaredBy_partStatements]
    by_cases hall : ∀ u ∈ partVariables part, u ∈ declared
    · -- a part whose variables are all old is not the first one
      obtain ⟨u, hu⟩ : ∃ u, u ∈ partVariables part := by
        cases part <;> exact ⟨_, List.mem_cons_self⟩
      exact .inl (h.err (List.ne_nil_of_mem (hall u hu)))
    · push Not at hall
      exact .inr (.inr ⟨rfl, hall⟩)

/-- Form parts are scoped one behind the other: each declares only what those before it did not. -/
theorem areScoped_partsStatements {declared before after : List Variable}
    (h : Tracks declared before) (parts : List FormPart) :
    AreScoped before after (partsStatements declared parts) := by
  induction parts generalizing declared before with
  | nil => exact areScoped_nil
  | cons part rest ih =>
    rw [partsStatements, areScoped_append]
    exact ⟨areScoped_partStatements h part, ih (h.partStatements part)⟩

/-- Parts declare no variable that the rest of the program declares. -/
theorem mem_of_mem_declaredBy_partsStatements {declared : List Variable} {parts : List FormPart}
    {v : Variable} (h : v ∈ declaredBy (partsStatements declared parts)) :
    v ∈ [Variable.formField, .fw, .fd, .err] := by
  induction parts generalizing declared with
  | nil => simp [partsStatements] at h
  | cons part rest ih =>
    rw [partsStatements, declaredBy_append, List.mem_append, mem_declaredBy_partStatements] at h
    rcases h with (⟨hv, -⟩ | ⟨rfl, -⟩) | h
    · cases part <;> simp [partVariables] at hv ⊢ <;> tauto
    · simp
    · exact ih h

/-! ## Whole programs -/

/-- The statements of the form stand in front of all others and use their own variables. -/
theorem areScoped_formStatements (b : Body) : AreScoped [] after (formStatements b) := by
  cases b with
  | multipart parts =>
    have htracks : Tracks [] [Variable.form, .writer] := ⟨by simp, by simp, nofun⟩
    have hparts {after : List Variable} :
        AreScoped [.form, .writer] after (partsStatements [] parts) :=
      areScoped_partsStatements htracks parts
    simp [formStatements, hparts]
  | _ => exact areScoped_nil

/-- The variables that the form may declare. -/
theorem mem_of_mem_declaredBy_formStatements {b : Body} {v : Variable}
    (h : v ∈ declaredBy (formStatements b)) :
    v ∈ [Variable.form, .writer, .formField, .fw, .fd, .err] := by
  cases b with
  | multipart parts =>
    have hparts : v ∈ declaredBy (partsStatements [] parts) →
        v ∈ [Variable.formField, .fw, .fd, .err] := mem_of_mem_declaredBy_partsStatements
    simp [formStatements] at h hparts ⊢
    tauto
  | _ => simp [formStatements] at h

/-- The statements that make the request, behind those that provide its body. -/
theorem areScoped_requestStatements {b : Body} {method url : Word} (hdata : .data ∉ before)
    (hreq : .req ∉ before) (hform : ∀ parts, b = .multipart parts → .form ∈ before)
    (hused : .req ∈ after) :
    AreScoped before after (bodyStatements b
      ++ [.define [.req, .err] (callPackage .http "NewRequest"
        [ofWord method, ofWord url, bodyArgument b]), .checkError]) := by
  cases b with
  | multipart parts => simp [bodyStatements, bodyArgument, hreq, hform parts rfl, hused]
  | _ => simp [bodyStatements, textReader, bodyArgument, hdata, hreq, hused]

/-- The variables that the body may declare. -/
theorem mem_of_mem_declaredBy_bodyStatements {b : Body} {v : Variable}
    (h : v ∈ declaredBy (bodyStatements b)) : v ∈ [Variable.data, .err] := by
  cases b <;> simp [bodyStatements, textReader] at h ⊢ <;> tauto

/-- Header fields are scoped wherever the request is declared. -/
theorem areScoped_headerStatements (hreq : .req ∈ before) (earlier hs : Headers) :
    AreScoped before after (headerStatements earlier hs) := by
  induction hs generalizing earlier with
  | nil => exact areScoped_nil
  | cons h rest ih => simpa [headerStatements, setHeader, hreq] using ih (earlier ++ [h])

/-- Header fields declare nothing. -/
theorem declaredBy_headerStatements (earlier hs : Headers) :
    declaredBy (headerStatements earlier hs) = [] := by
  induction hs generalizing earlier with
  | nil => rfl
  | cons h rest ih => simpa [headerStatements, setHeader] using ih (earlier ++ [h])

/-- The type of a form is asked of its writer, which is declared by then. -/
theorem areScoped_contentTypeStatements {r : Request} (hreq : .req ∈ before)
    (hwriter : ∀ parts, r.body = .multipart parts → .writer ∈ before) :
    AreScoped before after (contentTypeStatements r) := by
  unfold contentTypeStatements
  split
  · simpa [setHeader] using hreq
  next parts _ _ hbody => simpa [setHeader, hreq] using hwriter parts hbody
  · exact areScoped_nil

theorem declaredBy_contentTypeStatements (r : Request) :
    declaredBy (contentTypeStatements r) = [] := by
  unfold contentTypeStatements
  split <;> simp [setHeader]

/-- The statements of the program for a request are scoped. -/
theorem areScoped_statementsOf (r : Request) : AreScoped [] [] (statementsOf r) := by
  have hnew {v : Variable} (hv : v ∉ [Variable.form, .writer, .formField, .fw, .fd, .err]) :
      v ∉ declaredBy (formStatements r.body) := fun h => hv (mem_of_mem_declaredBy_formStatements h)
  have hfresh {v : Variable} (hv : v ∉ [Variable.data, .err]) :
      v ∉ declaredBy (bodyStatements r.body) := fun h => hv (mem_of_mem_declaredBy_bodyStatements h)
  have hmultipart (parts : List FormPart) (h : r.body = .multipart parts) :
      Variable.form ∈ declaredBy (formStatements r.body) ∧
        Variable.writer ∈ declaredBy (formStatements r.body) := by
    simp [h, formStatements]
  have hcredentials {before after : List Variable} (h : .req ∈ before) :
      AreScoped before after (r.credentials.toList.flatMap credentialsStatements) := by
    cases r.credentials <;> simp [credentialsStatements, h]
  have hdeclares : declaredBy (r.credentials.toList.flatMap credentialsStatements) = [] := by
    cases r.credentials <;> simp [credentialsStatements]
  have hsend : .client ∈ usedBy sendStatements ∧ .req ∈ usedBy sendStatements := by
    simp [sendStatements]
  -- each group of statements is scoped on its own, between those before and behind it
  have hregroup : statementsOf r = formStatements r.body
      ++ ([.define [.client] (.newValue (.ofPackage .http "Client"))]
      ++ ((bodyStatements r.body ++ [.define [.req, .err] (callPackage .http "NewRequest"
        [ofWord r.effectiveMethod, ofWord r.url, bodyArgument r.body]), .checkError])
      ++ (headerStatements [] r.headers ++ (contentTypeStatements r
      ++ (r.credentials.toList.flatMap credentialsStatements ++ sendStatements))))) := by
    simp [statementsOf]
  rw [hregroup]
  refine areScoped_append.2 ⟨areScoped_formStatements _, areScoped_append.2 ⟨?client,
    areScoped_append.2 ⟨?request, areScoped_append.2 ⟨?headers, areScoped_append.2 ⟨?contentType,
      areScoped_append.2 ⟨?credentials, ?send⟩⟩⟩⟩⟩⟩
  case client => simp [hnew, hsend.1]
  case request =>
    refine areScoped_requestStatements (by simp [hnew]) (by simp [hnew]) ?_ (by simp [hsend.2])
    intro parts h
    simp [(hmultipart parts h).1]
  case headers => exact areScoped_headerStatements (by simp) [] r.headers
  case contentType =>
    refine areScoped_contentTypeStatements (by simp) ?_
    intro parts h
    simp [(hmultipart parts h).2]
  case credentials => exact hcredentials (by simp)
  case send =>
    simp [declaredBy_headerStatements, declaredBy_contentTypeStatements, sendStatements, hnew,
      hfresh, hdeclares]

/-- A program for a request that settings make is rendered, imports what it uses and is well
scoped. -/
theorem isWellScoped_of_ofSettings {settings : List Setting} {r : Request}
    (h : (Request.ofSettings settings).result = .ok r) :
    r.render .go = .ok (Program.ofRequest r).source ∧ (Program.ofRequest r).IsWellScoped := by
  refine ⟨rfl, ?_, mem_imports_ofRequest h, areScoped_statementsOf r⟩
  exact List.pairwise_map.2 (pairwise_sortedOnce Package.path_injective (packagesOf r))

/-- A field, a file under its own name and a second file: `fd` is declared once and assigned once,
and the variable in the path needs a package of its own. -/
theorem isWellScoped_upload :
    let url := Setting.positional (Word.ofString "http://x/")
    let field : Setting := ⟨.form, "-F".toList, some (Word.ofString "a=1"), false⟩
    let named : Setting := ⟨.form, "-F".toList, some (Word.ofString "b=@/d/f"), false⟩
    let path := Word.ofString "c=@/d/" ++ Word.ofReference ⟨"V".toList, true⟩
    let file : Setting := ⟨.form, "-F".toList, some path, false⟩
    ∃ r, (Request.ofSettings [url, field, named, file]).result = .ok r ∧
      (Program.ofRequest r).imports =
        [.bytes, .fmt, .io, .log, .multipart, .http, .os, .filepath] ∧
      (declaredBy (Program.ofRequest r).statements).count .fd = 1 ∧
      r.render .go = .ok (Program.ofRequest r).source ∧ (Program.ofRequest r).IsWellScoped := by
  intro url field named path file
  have hprogram : (Request.ofSettings [url, field, named, file]).result.toOption.map (fun r =>
      ((Program.ofRequest r).imports, (declaredBy (Program.ofRequest r).statements).count .fd)) =
        some ([.bytes, .fmt, .io, .log, .multipart, .http, .os, .filepath], 1) := by
    decide +kernel
  obtain ⟨r, hr, hfacts⟩ := Option.map_eq_some_iff.1 hprogram
  obtain ⟨himports, hcount⟩ := Prod.mk.inj hfacts
  have hresult := Except.eq_ok_of_toOption hr
  obtain ⟨hrender, hscoped⟩ := isWellScoped_of_ofSettings hresult
  exact ⟨r, hresult, himports, hcount, hrender, hscoped⟩

end Order

end Go
end CurlScribe
