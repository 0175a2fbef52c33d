import CurlScribe.Proofs.Request.Variables
import CurlScribe.Proofs.Target.Imports
import CurlScribe.Target.GoProgram

/-!
# Names in Go programs

What the statements of a program name: dotted names, which begin at a package or a variable, and the
environment variables that they look up. The program for a request names the packages that it
imports, and looks up the variables of the request.
-/

namespace CurlScribe
namespace Go
open CurlScribe.Go.Expr (ofWord ofText ofVariable)

/-! ## Names in expressions and statements -/

/-- The name that a dotted name begins with. -/
def Root.name : Root → Text
  | .package p => p.name
  | .variable v => v.name
  | .builtin name => name

def Selector.package? (s : Selector) : Option Package :=
  match s.root with
  | .package p => some p
  | _ => none

def Selector.variable? (s : Selector) : Option Variable :=
  match s.root with
  | .variable v => some v
  | _ => none

mutual

/-- The dotted names in an expression, apart from those of look-ups. -/
def Expr.selectors : Expr → List Selector
  | .string _ => []
  | .nil => []
  | .select s => [s]
  | .call f args => f :: Expr.selectorsOf args
  | .newValue type => [type]
  | .bytesOf e => e.selectors

def Expr.selectorsOf : List Expr → List Selector
  | [] => []
  | e :: rest => e.selectors ++ Expr.selectorsOf rest

end

mutual

/-- The names of the environment variables that an expression looks up, in order. -/
def Expr.lookups : Expr → List Text
  | .string operands => operands.filterMap Operand.variable?
  | .nil => []
  | .select _ => []
  | .call _ args => Expr.lookupsOf args
  | .newValue _ => []
  | .bytesOf e => e.lookups

def Expr.lookupsOf : List Expr → List Text
  | [] => []
  | e :: rest => e.lookups ++ Expr.lookupsOf rest

end

namespace Statement

/-- The expressions in a statement. -/
def values : Statement → List Expr
  | define _ value => [value]
  | assign _ value => [value]
  | declare _ value => [value]
  | checkError => [ofVariable .err, callPackage .log "Fatal" [ofVariable .err]]
  | later value => [value]
  | run value => [value]
  | gap => []

/-- The dotted names in a statement, apart from those of look-ups and of targets. -/
def selectors (s : Statement) : List Selector := Expr.selectorsOf s.values

/-- The names of the environment variables that a statement looks up, in order. -/
def lookups (s : Statement) : List Text := Expr.lookupsOf s.values

/-- The variables that a statement uses. A variable that is only assigned is not used. -/
def uses (s : Statement) : List Variable := s.selectors.filterMap Selector.variable?

/-- The packages that a statement uses; `os` is the one that looks variables up. -/
def packages (s : Statement) : List Package :=
  s.selectors.filterMap Selector.package? ++ s.lookups.map fun _ => .os

/-- The variables that a statement declares, or may declare if they are not declared yet. -/
def declares : Statement → List Variable
  | define targets _ => targets
  | declare target _ => [target]
  | _ => []

/-- The variables that a statement assigns without declaring any. -/
def assigns : Statement → List Variable
  | assign targets _ => targets.filterMap id
  | _ => []

end Statement

section Simp

variable (w : Word) (p : Package) (v : Variable) (function : String) (members : List String)
  (args : List Expr) (e : Expr) (declared targets : List Variable)
  (assigned : List (Option Variable))

attribute [simp] Expr.selectors Expr.selectorsOf Expr.lookups Expr.lookupsOf Statement.selectors
  Statement.lookups

@[simp] theorem values_define : (Statement.define targets e).values = [e] := rfl

@[simp] theorem values_assign : (Statement.assign assigned e).values = [e] := rfl

@[simp] theorem values_declare : (Statement.declare v e).values = [e] := rfl

@[simp] theorem values_checkError : Statement.checkError.values =
    [ofVariable .err, callPackage .log "Fatal" [ofVariable .err]] := rfl

@[simp] theorem values_later : (Statement.later e).values = [e] := rfl

@[simp] theorem values_run : (Statement.run e).values = [e] := rfl

@[simp] theorem values_gap : Statement.gap.values = [] := rfl

@[simp] theorem values_bindResult : (bindResult declared v e).values = [e] := by
  unfold bindResult
  split <;> rfl

/-- A word is written without selectors of its own: the look-ups are operands. -/
@[simp] theorem selectors_ofWord : (ofWord w).selectors = [] := by rw [ofWord, Expr.selectors]

/-- What is looked up for a word are its variables, in order and as often as they occur. -/
@[simp] theorem lookups_ofWord : (ofWord w).lookups = w.variableNames := by
  rw [ofWord, Expr.lookups, Word.filterMap_operands]

@[simp] theorem selectors_ofText : (ofText function).selectors = [] := by
  rw [ofText, Expr.selectors]

@[simp] theorem lookups_ofText : (ofText function).lookups = [] := by
  rw [ofText, Expr.lookups]
  rfl

@[simp] theorem selectors_ofVariable : (ofVariable v).selectors = [.ofVariable v []] := by
  rw [ofVariable, Expr.selectors]
  rfl

@[simp] theorem lookups_ofVariable : (ofVariable v).lookups = [] := by
  rw [ofVariable, Expr.lookups]

@[simp] theorem selectors_callPackage :
    (callPackage p function args).selectors = .ofPackage p function :: Expr.selectorsOf args := by
  rw [callPackage, Expr.selectors]

@[simp] theorem lookups_callPackage :
    (callPackage p function args).lookups = Expr.lookupsOf args := by
  rw [callPackage, Expr.lookups]

@[simp] theorem selectors_callMethod :
    (callMethod v members args).selectors = .ofVariable v members :: Expr.selectorsOf args := by
  rw [callMethod, Expr.selectors]

@[simp] theorem lookups_callMethod :
    (callMethod v members args).lookups = Expr.lookupsOf args := by
  rw [callMethod, Expr.lookups]

variable (selectors : List Selector) (name : Text) (selected : List Text)

/-- A function of a package names no variable of the program. -/
@[simp] theorem filterMap_variable?_ofPackage :
    (.ofPackage p function :: selectors).filterMap Selector.variable? =
      selectors.filterMap Selector.variable? := rfl

@[simp] theorem filterMap_variable?_ofVariable :
    (.ofVariable v members :: selectors).filterMap Selector.variable? =
      v :: selectors.filterMap Selector.variable? := rfl

@[simp] theorem filterMap_variable?_builtin :
    (⟨.builtin name, selected⟩ :: selectors).filterMap Selector.variable? =
      selectors.filterMap Selector.variable? := rfl

@[simp] theorem filterMap_package?_ofPackage :
    (.ofPackage p function :: selectors).filterMap Selector.package? =
      p :: selectors.filterMap Selector.package? := rfl

/-- A variable of the program names no package. -/
@[simp] theorem filterMap_package?_ofVariable :
    (.ofVariable v members :: selectors).filterMap Selector.package? =
      selectors.filterMap Selector.package? := rfl

@[simp] theorem filterMap_package?_builtin :
    (⟨.builtin name, selected⟩ :: selectors).filterMap Selector.package? =
      selectors.filterMap Selector.package? := rfl

end Simp

/-! ## Variables that are looked up -/

/-- The statements of a form part look up the variables of its words. -/
theorem mem_lookups_partStatements (declared : List Variable) (part : FormPart) (n : Text) :
    n ∈ (partStatements declared part).flatMap Statement.lookups ↔
      n ∈ part.words.flatMap Word.variableNames := by
  cases part with
  | field name value => simp [partStatements, FormPart.words]
  | fileContent name path => simp [partStatements, FormPart.words, copyFile]
  | file name filename path =>
    have hshown : n ∈ (fileNameExpr filename path).lookups ∨ n ∈ path.variableNames ↔
        n ∈ filename.variableNames ∨ n ∈ path.variableNames := by
      unfold fileNameExpr
      split
      next h =>
        have hpath := FormPart.mem_variableNames_of_isNamedByPath (n := n) h
        simp
        grind
      next => rw [lookups_ofWord]
    simp [partStatements, FormPart.words, copyFile, hshown]

/-- The statements of form parts look up the variables of their words. -/
theorem mem_lookups_partsStatements (declared : List Variable) (parts : List FormPart) (n : Text) :
    n ∈ (partsStatements declared parts).flatMap Statement.lookups ↔
      n ∈ (parts.flatMap FormPart.words).flatMap Word.variableNames := by
  induction parts generalizing declared with
  | nil => simp [partsStatements]
  | cons part rest ih =>
    rw [partsStatements, List.flatMap_append, List.mem_append, mem_lookups_partStatements, ih,
      List.flatMap_cons, List.flatMap_append, List.mem_append]

/-- Header fields look up the variables of their names and values, in the order of the fields. -/
theorem lookups_headerStatements (earlier hs : Headers) :
    (headerStatements earlier hs).flatMap Statement.lookups =
      (hs.flatMap fun h => [h.name, h.value]).flatMap Word.variableNames := by
  induction hs generalizing earlier with
  | nil => rfl
  | cons h rest ih => simp [headerStatements, setHeader, ih]

/-- Of the type, only one that the body implies can look a variable up: that of a form is asked of
the writer. -/
theorem lookups_contentTypeStatements (r : Request) :
    (contentTypeStatements r).flatMap Statement.lookups =
      r.impliedContentType?.toList.flatMap Word.variableNames := by
  unfold contentTypeStatements
  cases r.impliedContentType? with
  | some contentType => simp [setHeader]
  | none =>
    -- the form type, if it is set, is no fixed word
    split <;> simp_all [setHeader]

/-- The form and the body look up the variables of the words that they send. -/
theorem mem_lookups_body (b : Body) (n : Text) :
    n ∈ (formStatements b ++ bodyStatements b).flatMap Statement.lookups ↔
      n ∈ b.sentWords.flatMap Word.variableNames := by
  cases b with
  | multipart parts =>
    have hparts := mem_lookups_partsStatements [] parts n
    simp [formStatements, bodyStatements, Body.sentWords] at hparts ⊢
    exact hparts
  | _ => simp [formStatements, bodyStatements, Body.sentWords, textReader]

/-- The program for a request looks up the variables of the words that it sends. -/
theorem mem_lookups_statementsOf (r : Request) (n : Text) :
    n ∈ (statementsOf r).flatMap Statement.lookups ↔
      n ∈ r.sentWords.flatMap Word.variableNames := by
  have hbody := mem_lookups_body r.body n
  have hclient : [Statement.define [.client] (.newValue (.ofPackage .http "Client"))].flatMap
      Statement.lookups = [] := by simp
  have hrequest : [Statement.define [.req, .err] (callPackage .http "NewRequest"
        [ofWord r.effectiveMethod, ofWord r.url, bodyArgument r.body]), .checkError].flatMap
      Statement.lookups = [r.effectiveMethod, r.url].flatMap Word.variableNames := by
    have hargument : (bodyArgument r.body).lookups = [] := by
      cases r.body <;> simp [bodyArgument]
    simp [hargument]
  have hcredentials : (r.credentials.toList.flatMap credentialsStatements).flatMap
      Statement.lookups =
        (r.credentials.toList.flatMap fun c => [c.user, c.password]).flatMap
          Word.variableNames := by
    cases r.credentials <;> simp [credentialsStatements]
  have hsend : sendStatements.flatMap Statement.lookups = [] := by simp [sendStatements]
  rw [List.flatMap_append, List.mem_append] at hbody
  simp only [statementsOf, Request.sentWords, List.flatMap_append, List.mem_append, ← hbody,
    hclient, hrequest, lookups_headerStatements, lookups_contentTypeStatements, hcredentials,
    hsend, List.not_mem_nil, or_false]
  grind

/-! ## Imports -/

/-- Two packages have different paths, so that an import is known by its path. -/
theorem Package.path_injective : Function.Injective Package.path := by
  intro p q h
  cases p <;> cases q <;> first | rfl | exact absurd h (by decide)

/-- The packages at which the dotted names of statements begin. -/
def namedPackages (statements : List Statement) : List Package :=
  (statements.flatMap Statement.selectors).filterMap Selector.package?

@[simp] theorem namedPackages_nil : namedPackages [] = [] := rfl

@[simp] theorem namedPackages_cons (s : Statement) (rest : List Statement) :
    namedPackages (s :: rest) = s.selectors.filterMap Selector.package? ++ namedPackages rest := by
  rw [namedPackages, List.flatMap_cons, List.filterMap_append]
  rfl

@[simp] theorem namedPackages_append (front back : List Statement) :
    namedPackages (front ++ back) = namedPackages front ++ namedPackages back := by
  rw [namedPackages, List.flatMap_append, List.filterMap_append]
  rfl

/-- A package is used if a selector names it; besides, `os` is used wherever a variable is looked
up. -/
theorem exists_mem_packages (statements : List Statement) (p : Package) :
    (∃ s ∈ statements, p ∈ s.packages) ↔ p ∈ namedPackages statements ∨
      p = .os ∧ statements.flatMap Statement.lookups ≠ [] := by
  induction statements with
  | nil => simp
  | cons s rest ih =>
    have hlookups : p ∈ s.lookups.map (fun _ => Package.os) ↔ p = .os ∧ s.lookups ≠ [] := by
      cases s.lookups <;> simp
    rw [List.exists_mem_cons_iff, ih, namedPackages_cons, Statement.packages, List.mem_append,
      List.mem_append, hlookups, List.flatMap_cons, Ne, Ne, Ne, List.append_eq_nil_iff]
    grind

/-- The packages of the statements for a part, beside those of all programs, are collected with
it. -/
theorem mem_namedPackages_partStatements (declared : List Variable) (part : FormPart)
    (p : Package) :
    p ∈ namedPackages (partStatements declared part) ∨ p ∈ [Package.fmt, .io, .log, .http] ↔
      p ∈ partPackages part ∨ p ∈ [Package.fmt, .io, .log, .http] := by
  cases part with
  | field name value => cases p <;> simp [partStatements, partPackages]
  | fileContent name path => cases p <;> simp [partStatements, partPackages, copyFile]
  | file name filename path =>
    cases hnamed : FormPart.isNamedByPath filename path <;> cases p <;>
      simp [partStatements, partPackages, copyFile, fileNameExpr, hnamed]

/-- Form parts name the packages of each of them, next to those that every program has. -/
theorem mem_namedPackages_partsStatements (declared : List Variable) (parts : List FormPart)
    (p : Package) :
    p ∈ namedPackages (partsStatements declared parts) ∨ p ∈ [Package.fmt, .io, .log, .http] ↔
      p ∈ parts.flatMap partPackages ∨ p ∈ [Package.fmt, .io, .log, .http] := by
  induction parts generalizing declared with
  | nil => simp [partsStatements]
  | cons part rest ih =>
    rw [partsStatements, namedPackages_append, List.mem_append, List.flatMap_cons, List.mem_append,
      or_assoc, ih, or_left_comm, mem_namedPackages_partStatements, or_left_comm, or_assoc]

/-- The packages of the statements for a body, beside those of all programs. -/
theorem mem_namedPackages_body (b : Body) (p : Package) :
    p ∈ namedPackages (formStatements b ++ bodyStatements b) ∨ p ∈ [Package.fmt, .io, .log, .http] ↔
      p ∈ bodyPackages b ∨ p ∈ [Package.fmt, .io, .log, .http] := by
  cases b with
  | multipart parts =>
    have hparts := mem_namedPackages_partsStatements [] parts p
    rw [bodyPackages, List.mem_append, or_assoc, ← hparts]
    cases p <;> simp [formStatements, bodyStatements]
  | _ => cases p <;> simp [formStatements, bodyStatements, bodyPackages, textReader]

/-- Header fields are set on the request, with no package at hand. -/
theorem namedPackages_headerStatements (earlier hs : Headers) :
    namedPackages (headerStatements earlier hs) = [] := by
  induction hs generalizing earlier with
  | nil => rfl
  | cons h rest ih => simp [headerStatements, setHeader, ih]

/-- The implied type is set on the request as well, with no package at hand. -/
theorem namedPackages_contentTypeStatements (r : Request) :
    namedPackages (contentTypeStatements r) = [] := by
  unfold contentTypeStatements
  split <;> simp [setHeader]

/-- A program imports the packages that its statements use. -/
theorem mem_imports_ofRequest {settings : List Setting} {r : Request}
    (h : (Request.ofSettings settings).result = .ok r) (p : Package) :
    p ∈ (Program.ofRequest r).imports ↔ ∃ s ∈ (Program.ofRequest r).statements, p ∈ s.packages := by
  have hused : r.usedVariables = [] ↔ (statementsOf r).flatMap Statement.lookups = [] := by
    simp only [List.eq_nil_iff_forall_not_mem, Request.mem_usedVariables h,
      mem_lookups_statementsOf]
  have hnamed : p ∈ namedPackages (statementsOf r) ↔
      p ∈ bodyPackages r.body ∨ p ∈ [Package.fmt, .io, .log, .http] := by
    have hargument : (bodyArgument r.body).selectors.filterMap Selector.package? = [] := by
      cases r.body <;> simp [bodyArgument]
    have hcredentials :
        namedPackages (r.credentials.toList.flatMap credentialsStatements) = [] := by
      cases r.credentials <;> simp [credentialsStatements]
    rw [← mem_namedPackages_body]
    cases p <;> simp [statementsOf, namedPackages_headerStatements,
      namedPackages_contentTypeStatements, hargument, hcredentials, sendStatements]
  rw [exists_mem_packages, Program.ofRequest, hnamed, mem_sortedOnce, Ne, ← hused, packagesOf]
  cases r.usedVariables <;> simp <;> grind

end Go
end CurlScribe
