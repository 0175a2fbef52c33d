import CurlScribe.Proofs.Target.Skeleton

/-!
# The shape of Go programs

The code of a Go program lexes whatever the request says, and up to erasure it is determined by the
skeleton of the request. Both are shown of statements first: a statement is a line if the names in
it are names, and its outline determines its erasure.
-/

namespace CurlScribe
namespace Go
open Code
open CurlScribe.Go.Expr (ofWord ofText ofVariable)

/-! ## Expressions and statements that are sound -/

mutual

/-- Are all names in an expression names of the language? -/
def Expr.isSound : Expr → Bool
  | .string _ => true
  | .nil => true
  | .select s => decide s.code.IsPhrase
  | .call f args => decide f.code.IsPhrase && Expr.areSound args
  | .newValue type => decide type.code.IsPhrase
  | .bytesOf e => e.isSound

def Expr.areSound : List Expr → Bool
  | [] => true
  | e :: rest => e.isSound && Expr.areSound rest

end

/-- The expression whose value a statement uses. -/
def Statement.value? : Statement → Option Expr
  | .define _ value => some value
  | .assign _ value => some value
  | .declare _ value => some value
  | .checkError => none
  | .later value => some value
  | .run value => some value
  | .gap => none

/-- Are all names in a statement names of the language? -/
def Statement.isSound (s : Statement) : Bool := s.value?.all Expr.isSound

theorem isPhrase_operandCode (op : Operand) : (operandCode op).IsPhrase := by
  cases op with
  | literal t => rfl
  | lookup name =>
    have hname : (Selector.ofPackage .os "Getenv").code.IsPhrase := by decide
    have hargs : (arguments [quoted name]).IsFrame := isFrame_arguments (by simp [isPhrase_quoted])
    exact hname.append hargs.isTail

mutual

/-- A sound expression may stand behind a mark, and so may its arguments: both go by recursion on
expressions. -/
theorem Expr.isPhrase_code : (e : Expr) → e.isSound = true → e.code.IsPhrase
  | .string operands, _ => by
    rw [Expr.code]
    refine isPhrase_join (by decide) ?_
    intro c hc
    obtain ⟨op, -, rfl⟩ := List.mem_map.1 hc
    exact isPhrase_operandCode op
  | .nil, _ => by
    rw [Expr.code]
    decide
  | .select s, h => by
    rw [Expr.isSound, decide_eq_true_eq] at h
    rw [Expr.code]
    exact h
  | .call f args, h => by
    rw [Expr.isSound, Bool.and_eq_true, decide_eq_true_eq] at h
    rw [Expr.code]
    exact h.1.append (isFrame_arguments (Expr.isPhrase_codes args h.2)).isTail
  | .newValue type, h => by
    rw [Expr.isSound, decide_eq_true_eq] at h
    have hand : (fixed "&").IsLine := by decide
    have hbraces : (fixed "\x7b\x7d").IsFrame := by decide
    rw [Expr.code]
    exact ((hand.append_phrase h).append_frame hbraces).isPhrase
  | .bytesOf e, h => by
    rw [Expr.isSound] at h
    have hopen : (fixed "[]byte(").IsLine := by decide
    have hclose : (fixed ")").IsFrame := by decide
    rw [Expr.code]
    exact ((hopen.append_phrase (Expr.isPhrase_code e h)).append_frame hclose).isPhrase

/-- The same of a row of expressions. -/
theorem Expr.isPhrase_codes :
    (es : List Expr) → Expr.areSound es = true → ∀ c ∈ Expr.codes es, c.IsPhrase
  | [], _ => by simp [Expr.codes]
  | e :: rest, h => by
    rw [Expr.areSound, Bool.and_eq_true] at h
    rw [Expr.codes, List.forall_mem_cons]
    exact ⟨Expr.isPhrase_code e h.1, Expr.isPhrase_codes rest h.2⟩

end

theorem isPhrase_variable (v : Variable) : IsPhrase [.code v.name] := by
  cases v <;> decide

/-- Targets are names with commas between them. -/
theorem isPhrase_targetsCode (targets : List (Option Variable)) :
    (targetsCode targets).IsPhrase := by
  refine isPhrase_join (by decide) ?_
  intro c hc
  obtain ⟨target, -, rfl⟩ := List.mem_map.1 hc
  cases target with
  | some v => exact isPhrase_variable v
  | none => decide

/-- A sound statement is a line. -/
theorem Statement.isLine_code {s : Statement} (h : s.isSound = true) : s.code.IsLine := by
  have htab : (fixed "\t").IsLine := by decide
  have hend : (fixed "\n").IsFrame := by decide
  cases s with
  | define targets value =>
    have hvalue := value.isPhrase_code h
    have heq : (fixed " := ").IsFrame := by decide
    have hfront := (htab.append_phrase (isPhrase_targetsCode (targets.map some))).append_frame heq
    exact (hfront.append_phrase hvalue).append_frame hend
  | assign targets value =>
    have hvalue := value.isPhrase_code h
    have heq : (fixed " = ").IsFrame := by decide
    have hfront := (htab.append_phrase (isPhrase_targetsCode targets)).append_frame heq
    exact (hfront.append_phrase hvalue).append_frame hend
  | declare target value =>
    have hvalue := value.isPhrase_code h
    have hvar : (fixed "\tvar ").IsLine := by decide
    have heq : (fixed " = ").IsFrame := by decide
    have hfront := (hvar.append_phrase (isPhrase_variable target)).append_frame heq
    exact (hfront.append_phrase hvalue).append_frame hend
  | checkError => decide
  | later value =>
    have hvalue := value.isPhrase_code h
    have hdefer : (fixed "\tdefer ").IsLine := by decide
    exact (hdefer.append_phrase hvalue).append_frame hend
  | run value =>
    have hvalue := value.isPhrase_code h
    exact (htab.append_phrase hvalue).append_frame hend
  | gap => decide

/-- A program of sound statements is a line. -/
theorem Program.isLine_code {p : Program} (h : ∀ s ∈ p.statements, s.isSound = true) :
    p.code.IsLine := by
  have hopen : (fixed "package main\n\nimport (\n").IsLine := by decide
  have himport (package : Package) :
      (fixed "\t" ++ quoted package.path ++ fixed "\n").IsLine := by
    cases package <;> decide
  have hmain : (fixed ")\n\nfunc main() \x7b\n").IsLine := by decide
  have hstatements : IsLine (p.statements.flatMap Statement.code) :=
    isLine_flatMap fun s hs => Statement.isLine_code (h s hs)
  have hclose : (fixed "\x7d\n").IsLine := by decide
  have himports := isLine_flatMap fun package (_ : package ∈ p.imports) => himport package
  exact (((hopen.append himports).append hmain).append hstatements).append hclose

/-! ## Statements of programs are sound -/

theorem isSound_bindResult {e : Expr} (h : e.isSound = true) (declared : List Variable)
    (v : Variable) : (bindResult declared v e).isSound = true := by
  unfold bindResult
  split
  · exact h
  · exact h

theorem isSound_copyFile (declared : List Variable) (target : Variable) (path : Word) :
    ∀ s ∈ copyFile declared target path, s.isSound = true := by
  have hopen : (callPackage .os "Open" [ofWord path]).isSound = true := rfl
  have hcopy : (callPackage .io "Copy" [ofVariable target, ofVariable .fd]).isSound = true := by
    cases target <;> rfl
  intro s hs
  simp only [copyFile, List.mem_cons, List.not_mem_nil, or_false] at hs
  rcases hs with rfl | rfl | rfl | rfl | rfl
  · exact isSound_bindResult hopen declared .fd
  · rfl
  · rfl
  · exact hcopy
  · rfl

theorem isSound_createFile (name filename path : Word) :
    (callMethod .writer ["CreateFormFile"] [ofWord name, fileNameExpr filename path]).isSound =
      true := by
  unfold fileNameExpr
  split
  · rfl
  · rfl

/-- Whatever a form part says, its statements are sound. -/
theorem isSound_partStatements (declared : List Variable) (part : FormPart) :
    ∀ s ∈ partStatements declared part, s.isSound = true := by
  have hfield (name : Word) :
      (callMethod .writer ["CreateFormField"] [ofWord name]).isSound = true := rfl
  intro s hs
  cases part with
  | field name value =>
    simp only [partStatements, List.mem_cons, List.not_mem_nil, or_false] at hs
    rcases hs with rfl | rfl | rfl | rfl
    · exact isSound_bindResult (hfield name) declared .formField
    · rfl
    · rfl
    · rfl
  | file name filename path =>
    simp only [partStatements, List.mem_append, List.mem_cons, List.not_mem_nil, or_false] at hs
    rcases hs with ((rfl | rfl) | hs) | rfl
    · exact isSound_bindResult (isSound_createFile name filename path) declared .fw
    · rfl
    · exact isSound_copyFile declared .fw path s hs
    · rfl
  | fileContent name path =>
    simp only [partStatements, List.mem_append, List.mem_cons, List.not_mem_nil, or_false] at hs
    rcases hs with ((rfl | rfl) | hs) | rfl
    · exact isSound_bindResult (hfield name) declared .formField
    · rfl
    · exact isSound_copyFile declared .formField path s hs
    · rfl

theorem isSound_partsStatements (declared : List Variable) (parts : List FormPart) :
    ∀ s ∈ partsStatements declared parts, s.isSound = true := by
  induction parts generalizing declared with
  | nil => simp [partsStatements]
  | cons part rest ih =>
    intro s hs
    rcases List.mem_append.1 hs with hs | hs
    · exact isSound_partStatements declared part s hs
    · exact ih (declared ++ partVariables part) s hs

theorem isSound_formStatements (body : Body) : ∀ s ∈ formStatements body, s.isSound = true := by
  intro s hs
  cases body with
  | multipart parts =>
    simp only [formStatements, List.mem_append, List.mem_cons, List.not_mem_nil, or_false] at hs
    rcases hs with ((rfl | rfl) | hs) | rfl | rfl
    · rfl
    · rfl
    · exact isSound_partsStatements [] parts s hs
    · rfl
    · rfl
  | _ => exact absurd hs (by simp [formStatements])

/-- Whatever the body says, its statements are sound: texts stand in literals only. -/
theorem isSound_bodyStatements (body : Body) : ∀ s ∈ bodyStatements body, s.isSound = true := by
  intro s hs
  cases body with
  | empty => exact absurd hs (by simp [bodyStatements])
  | raw content contentType =>
    simp only [bodyStatements, textReader, List.mem_singleton] at hs
    obtain rfl := hs
    rfl
  | urlEncoded pairs =>
    simp only [bodyStatements, textReader, List.mem_singleton] at hs
    obtain rfl := hs
    rfl
  | multipart parts => exact absurd hs (by simp [bodyStatements])
  | file path contentType =>
    simp only [bodyStatements, List.mem_cons, List.not_mem_nil, or_false] at hs
    rcases hs with rfl | rfl | rfl
    · rfl
    · rfl
    · rfl

theorem isSound_setHeader (isRepeated : Bool) (name value : Word) :
    (setHeader isRepeated (ofWord name) (ofWord value)).isSound = true := by
  cases isRepeated with
  | true => rfl
  | false => rfl

/-- Whatever header fields say, the calls that give them are sound. -/
theorem isSound_headerStatements (earlier hs : Headers) :
    ∀ s ∈ headerStatements earlier hs, s.isSound = true := by
  induction hs generalizing earlier with
  | nil => simp [headerStatements]
  | cons h rest ih =>
    intro s hs
    rcases List.mem_cons.1 hs with rfl | hs
    · exact isSound_setHeader _ h.name h.value
    · exact ih (earlier ++ [h]) s hs

theorem isSound_contentTypeStatements (r : Request) :
    ∀ s ∈ contentTypeStatements r, s.isSound = true := by
  intro s hs
  unfold contentTypeStatements at hs
  split at hs
  · obtain rfl := List.mem_singleton.1 hs
    rfl
  · obtain rfl := List.mem_singleton.1 hs
    rfl
  · exact absurd hs (by simp)

/-- All statements of the program for a request are sound. -/
theorem isSound_statementsOf (r : Request) : ∀ s ∈ statementsOf r, s.isSound = true := by
  have hrequest : (callPackage .http "NewRequest"
      [ofWord r.effectiveMethod, ofWord r.url, bodyArgument r.body]).isSound = true := by
    cases r.body <;> rfl
  have hsend : ∀ s ∈ sendStatements, s.isSound = true := by decide
  intro s hs
  simp only [statementsOf, List.mem_append] at hs
  rcases hs with ((((((hs | hs) | hs) | hs) | hs) | hs) | hs) | hs
  · exact isSound_formStatements r.body s hs
  · obtain rfl := List.mem_singleton.1 hs
    rfl
  · exact isSound_bodyStatements r.body s hs
  · simp only [List.mem_cons, List.not_mem_nil, or_false] at hs
    rcases hs with rfl | rfl
    · exact hrequest
    · rfl
  · exact isSound_headerStatements [] r.headers s hs
  · exact isSound_contentTypeStatements r s hs
  · obtain ⟨c, -, hs⟩ := List.mem_flatMap.1 hs
    obtain rfl := List.mem_singleton.1 hs
    rfl
  · exact hsend s hs

/-! ## Outlines of programs -/

mutual

/-- The expression with its operands erased. -/
def Expr.outline : Expr → Expr
  | .string operands => .string (operands.map Operand.erase)
  | .nil => .nil
  | .select s => .select s
  | .call f args => .call f (Expr.outlines args)
  | .newValue type => .newValue type
  | .bytesOf e => .bytesOf e.outline

def Expr.outlines : List Expr → List Expr
  | [] => []
  | e :: rest => e.outline :: Expr.outlines rest

end

/-- The statement with the operands of its expressions erased. -/
def Statement.outline : Statement → Statement
  | .define targets value => .define targets value.outline
  | .assign targets value => .assign targets value.outline
  | .declare target value => .declare target value.outline
  | .checkError => .checkError
  | .later value => .later value.outline
  | .run value => .run value.outline
  | .gap => .gap

/-- There is no literal in a selector. -/
theorem Selector.erase_code (s : Selector) : s.code.erase = s.code := by
  have hroot : s.root.code.erase = s.root.code := by
    cases s.root <;> rfl
  rw [Selector.code, erase_append, erase_flatMap, hroot]
  rfl

theorem erase_targetsCode (targets : List (Option Variable)) :
    (targetsCode targets).erase = targetsCode targets := by
  rw [targetsCode, erase_join, List.map_map]
  refine congrArg (join ", ") (List.map_congr_left ?_)
  intro target _
  cases target with
  | some v => rfl
  | none => rfl

mutual

/-- An expression without the texts of its literals is its outline, written down. -/
theorem Expr.erase_code : (e : Expr) → e.code.erase = e.outline.code
  | .string operands => by
    rw [Expr.code, Expr.outline, Expr.code, erase_join, Operand.map_erase_code erase_operandCode]
  | .nil => by
    rw [Expr.outline, Expr.code]
    rfl
  | .select s => by
    rw [Expr.outline, Expr.code, Selector.erase_code]
  | .call f args => by
    rw [Expr.outline, Expr.code, Expr.code, erase_append, erase_arguments, Expr.erase_codes args,
      Selector.erase_code]
  | .newValue type => by
    rw [Expr.outline, Expr.code, erase_append, erase_append, Selector.erase_code]
    rfl
  | .bytesOf e => by
    rw [Expr.outline, Expr.code, Expr.code, erase_append, erase_append, Expr.erase_code e]
    rfl

/-- The same of a row of expressions. -/
theorem Expr.erase_codes :
    (es : List Expr) → (Expr.codes es).map Code.erase = Expr.codes (Expr.outlines es)
  | [] => by
    rw [Expr.outlines, Expr.codes]
    rfl
  | e :: rest => by
    rw [Expr.outlines, Expr.codes, Expr.codes, List.map_cons, Expr.erase_code e,
      Expr.erase_codes rest]

end

/-- The erasure of a statement is the code of its outline. -/
theorem Statement.erase_code (s : Statement) : s.code.erase = s.outline.code := by
  cases s with
  | define targets value =>
    rw [Statement.outline, Statement.code, Statement.code, ← value.erase_code]
    simp [erase_targetsCode]
  | assign targets value =>
    rw [Statement.outline, Statement.code, Statement.code, ← value.erase_code]
    simp [erase_targetsCode]
  | declare target value =>
    rw [Statement.outline, Statement.code, Statement.code, ← value.erase_code, erase_append,
      erase_append, erase_append, erase_append]
    rfl
  | checkError => rfl
  | later value =>
    rw [Statement.outline, Statement.code, Statement.code, ← value.erase_code]
    simp
  | run value =>
    rw [Statement.outline, Statement.code, Statement.code, ← value.erase_code]
    simp
  | gap => rfl

/-- Programs that import the same packages and whose statements have the same outlines have the same
erasure. -/
theorem Program.erase_code_eq {p q : Program} (himports : p.imports = q.imports)
    (h : p.statements.map Statement.outline = q.statements.map Statement.outline) :
    p.code.erase = q.code.erase := by
  have hstatements (ss : List Statement) :
      erase (ss.flatMap Statement.code) = (ss.map Statement.outline).flatMap Statement.code := by
    rw [erase_flatMap, List.flatMap_map]
    exact congrArg (ss.flatMap ·) (funext Statement.erase_code)
  rw [Program.code, Program.code, himports]
  simp only [erase_append, hstatements, h]

/-! ## Programs of requests that are alike -/

/-- The outline of the expression for a word is the expression for the outline. -/
theorem outline_ofWord (w : Word) : (ofWord w).outline = ofWord w.outline := by
  rw [ofWord, Expr.outline, ← Word.operands_outline, ofWord]

theorem outline_callPackage (p : Package) (function : String) (args : List Expr) :
    (callPackage p function args).outline = callPackage p function (Expr.outlines args) := by
  rw [callPackage, Expr.outline, callPackage]

theorem outline_callMethod (v : Variable) (members : List String) (args : List Expr) :
    (callMethod v members args).outline = callMethod v members (Expr.outlines args) := by
  rw [callMethod, Expr.outline, callMethod]

theorem outline_bindResult (declared : List Variable) (v : Variable) (e : Expr) :
    (bindResult declared v e).outline = bindResult declared v e.outline := by
  unfold bindResult
  split
  · rfl
  · rfl

theorem outline_assign (targets : List (Option Variable)) (e : Expr) :
    (Statement.assign targets e).outline = .assign targets e.outline := rfl

/-- A file is copied alike from paths that are alike. -/
theorem outline_copyFile {p q : Word} (h : p.outline = q.outline) (declared : List Variable)
    (target : Variable) :
    (copyFile declared target p).map Statement.outline =
      (copyFile declared target q).map Statement.outline := by
  simp only [copyFile, List.map_cons, outline_bindResult, outline_callPackage, Expr.outlines,
    outline_ofWord, h]

/-- The name of a file is taken alike from its path, or given alike. -/
theorem outline_fileNameExpr {f p f' p' : Word} (hfilename : f.outline = f'.outline)
    (hpath : p.outline = p'.outline)
    (hnamed : FormPart.isNamedByPath f p = FormPart.isNamedByPath f' p') :
    (fileNameExpr f p).outline = (fileNameExpr f' p').outline := by
  unfold fileNameExpr
  rw [hnamed]
  split
  · simp only [outline_callPackage, Expr.outlines, outline_ofWord, hpath]
  · rw [outline_ofWord, outline_ofWord, hfilename]

/-- Parts that are alike are written by statements with the same outlines. -/
theorem outline_partStatements {p q : FormPart} (h : FormPart.Alike p q)
    (declared : List Variable) :
    (partStatements declared p).map Statement.outline =
      (partStatements declared q).map Statement.outline := by
  cases h with
  | field hname hvalue =>
    simp only [partStatements, List.map_cons, outline_bindResult, outline_callMethod,
      outline_assign, Expr.outlines, Expr.outline, outline_ofWord, hname, hvalue]
  | file hname hfilename hpath hnamed =>
    simp only [partStatements, List.map_cons, List.map_append, outline_bindResult,
      outline_callMethod, Expr.outlines, outline_ofWord, hname, outline_copyFile hpath,
      outline_fileNameExpr hfilename hpath hnamed]
  | fileContent hname hpath =>
    simp only [partStatements, List.map_cons, List.map_append, outline_bindResult,
      outline_callMethod, Expr.outlines, outline_ofWord, hname, outline_copyFile hpath]

/-- Parts that are alike declare the same variables. -/
theorem partVariables_eq {p q : FormPart} (h : FormPart.Alike p q) :
    partVariables p = partVariables q := by
  cases h <;> rfl

/-- Rows of parts that are alike, too: the variables declared on the way are the same. -/
theorem outline_partsStatements {ps qs : List FormPart} (h : FormPart.AllAlike ps qs)
    (declared : List Variable) :
    (partsStatements declared ps).map Statement.outline =
      (partsStatements declared qs).map Statement.outline := by
  induction h generalizing declared with
  | nil => rfl
  | cons h _ ih =>
    rw [partsStatements, partsStatements, List.map_append, List.map_append,
      outline_partStatements h declared, partVariables_eq h, ih]

/-- Forms that are alike are written by statements with the same outlines. -/
theorem outline_formStatements {a b : Body} (h : Body.Alike a b) :
    (formStatements a).map Statement.outline = (formStatements b).map Statement.outline := by
  cases h with
  | multipart h =>
    rw [formStatements, formStatements, List.map_append, List.map_append, List.map_append,
      List.map_append, outline_partsStatements h []]
  | _ => rfl

/-- Texts that are alike are read alike. -/
theorem outline_textReader {v w : Word} (h : v.outline = w.outline) :
    (textReader v).map Statement.outline = (textReader w).map Statement.outline := by
  simp only [textReader, List.map_cons, Statement.outline, outline_callPackage, Expr.outlines,
    outline_ofWord, h]

/-- Bodies that are alike are built by statements with the same outlines. -/
theorem outline_bodyStatements {a b : Body} (h : Body.Alike a b) :
    (bodyStatements a).map Statement.outline = (bodyStatements b).map Statement.outline := by
  cases h with
  | empty => rfl
  | raw hcontent _ => exact outline_textReader hcontent
  | urlEncoded h => exact outline_textReader h
  | multipart _ => rfl
  | file hpath _ =>
    simp only [bodyStatements, List.map_cons, Statement.outline, outline_callPackage,
      Expr.outlines, outline_ofWord, hpath]

theorem outline_setHeader (isRepeated : Bool) (name value : Expr) :
    (setHeader isRepeated name value).outline =
      setHeader isRepeated name.outline value.outline := by
  rw [setHeader, Statement.outline, outline_callMethod, Expr.outlines, Expr.outlines,
    Expr.outlines, setHeader]

/-- Header fields that are alike, and repeat names in the same places, are given by calls with the
same outlines. -/
theorem outline_headerStatements {hs ks earlier before : Headers}
    (h : hs.map Header.outline = ks.map Header.outline)
    (hrepeated : Headers.repeated earlier hs = Headers.repeated before ks) :
    (headerStatements earlier hs).map Statement.outline =
      (headerStatements before ks).map Statement.outline := by
  induction hs generalizing ks earlier before with
  | nil =>
    obtain rfl : ks = [] := List.map_eq_nil_iff.1 h.symm
    rfl
  | cons a hs ih =>
    cases ks with
    | nil => exact absurd h (by simp)
    | cons b ks =>
      obtain ⟨hab, hrest⟩ := List.cons.inj h
      obtain ⟨hname, hvalue⟩ := Header.mk.inj hab
      obtain ⟨hflag, hflags⟩ := List.cons.inj hrepeated
      rw [headerStatements, headerStatements, List.map_cons, List.map_cons, ih hrest hflags,
        outline_setHeader, outline_setHeader, outline_ofWord, outline_ofWord, outline_ofWord,
        outline_ofWord, hname, hvalue, hflag]

/-- Requests that are alike give a type by calls with the same outlines. -/
theorem outline_contentTypeStatements {style : Style} {r s : Request} (h : r.Alike style s) :
    (contentTypeStatements r).map Statement.outline =
      (contentTypeStatements s).map Statement.outline := by
  have himplied := h.impliedContentType
  have hexplicit := h.hasContentType
  have hbody := h.body
  unfold contentTypeStatements
  generalize r.impliedContentType? = i at himplied ⊢
  generalize s.impliedContentType? = j at himplied ⊢
  generalize r.explicitContentType? = e at hexplicit ⊢
  generalize s.explicitContentType? = f at hexplicit ⊢
  generalize r.body = a at hbody ⊢
  generalize s.body = b at hbody ⊢
  cases i with
  | some t =>
    cases j with
    | some u =>
      have htu : t.outline = u.outline := Option.some.inj himplied
      simp only [List.map_cons, outline_setHeader, outline_ofWord, htu]
    | none => exact absurd himplied (by simp)
  | none =>
    cases j with
    | some u => exact absurd himplied (by simp)
    | none =>
      cases e with
      | some _ =>
        cases f with
        | some _ => rfl
        | none => exact absurd hexplicit (by simp)
      | none =>
        cases f with
        | some _ => exact absurd hexplicit (by simp)
        | none => cases hbody <;> rfl

/-- Credentials that are alike are given alike. -/
theorem outline_credentialsStatements {a b : Option Credentials}
    (h : a.map Credentials.outline = b.map Credentials.outline) :
    (a.toList.flatMap credentialsStatements).map Statement.outline =
      (b.toList.flatMap credentialsStatements).map Statement.outline := by
  cases a with
  | none =>
    cases b with
    | none => rfl
    | some _ => exact absurd h (by simp)
  | some c =>
    cases b with
    | none => exact absurd h (by simp)
    | some d =>
      obtain ⟨huser, hpassword⟩ := Credentials.mk.inj (Option.some.inj h)
      simp only [Option.toList_some, List.flatMap_singleton, credentialsStatements, List.map_cons,
        Statement.outline, outline_callMethod, Expr.outlines, outline_ofWord, huser, hpassword]

theorem bodyArgument_eq {a b : Body} (h : Body.Alike a b) : bodyArgument a = bodyArgument b := by
  cases h <;> rfl

/-- The statements for requests of one skeleton have the same outlines. -/
theorem outline_statementsOf {r s : Request} (h : r.Alike .go s) :
    (statementsOf r).map Statement.outline = (statementsOf s).map Statement.outline := by
  have hrequest : (callPackage .http "NewRequest"
        [ofWord r.effectiveMethod, ofWord r.url, bodyArgument r.body]).outline =
      (callPackage .http "NewRequest"
        [ofWord s.effectiveMethod, ofWord s.url, bodyArgument s.body]).outline := by
    simp only [outline_callPackage, Expr.outlines, outline_ofWord, h.method, h.url,
      bodyArgument_eq h.body]
  simp only [statementsOf, List.map_append, List.map_cons, List.map_nil, Statement.outline,
    hrequest, outline_formStatements h.body, outline_bodyStatements h.body,
    outline_headerStatements h.headers h.repeated, outline_contentTypeStatements h,
    outline_credentialsStatements h.credentials]

/-- Bodies that are alike need the same packages. -/
theorem bodyPackages_eq {a b : Body} (h : Body.Alike a b) : bodyPackages a = bodyPackages b := by
  cases h with
  | multipart h =>
    have hpart {p q : FormPart} (h : FormPart.Alike p q) : partPackages p = partPackages q := by
      cases h with
      | file _ _ _ hnamed => rw [partPackages, partPackages, hnamed]
      | _ => rfl
    rw [bodyPackages, bodyPackages, List.flatMap_def, List.flatMap_def, h.map_eq hpart]
  | _ => rfl

/-- Requests that are alike import the same packages. -/
theorem imports_ofRequest {r s : Request} (h : r.Alike .go s) :
    (Program.ofRequest r).imports = (Program.ofRequest s).imports := by
  rw [Program.ofRequest, Program.ofRequest, packagesOf, packagesOf, h.usesVariables,
    bodyPackages_eq h.body]

/-- The program for a request is a line. -/
theorem isLine_ofRequest (r : Request) : (Program.ofRequest r).code.IsLine :=
  Program.isLine_code (isSound_statementsOf r)

/-- The programs for requests of one skeleton have the same erasure. -/
theorem erase_ofRequest {r s : Request} (h : r.Alike .go s) :
    (Program.ofRequest r).code.erase = (Program.ofRequest s).code.erase :=
  Program.erase_code_eq (imports_ofRequest h) (outline_statementsOf h)

end Go
end CurlScribe
