import CurlScribe.Proofs.Request.Fields
import CurlScribe.Proofs.Target.GoNames

/-!
# Header fields of Go programs

A Go program sets or adds its header fields one by one. To set a field removes all others of its
name, so a program must add whatever repeats a name: what comes of its calls is what the request
says, as long as no field is set where one of its name stands.
-/

namespace CurlScribe
open Target (Environment meaning goLexicon evalGo meaning_go)

/-! ## Fields by name -/

/-- The values of header fields by name. -/
abbrev FieldMap := Text → List Text

namespace FieldMap

/-- The value instead of all values of the name. -/
def set (m : FieldMap) (name value : Text) : FieldMap :=
  fun n => if Text.sameIgnoringCase name n then [value] else m n

/-- The value behind all values of the name. -/
def add (m : FieldMap) (name value : Text) : FieldMap :=
  fun n => if Text.sameIgnoringCase name n then m n ++ [value] else m n

/-- To add a value to what fields give is to put a field behind them. -/
theorem add_valuesOf (fields : List Field) (name value : Text) :
    add (valuesOf fields) name value = valuesOf (fields ++ [(name, value)]) := by
  funext n
  rw [valuesOf_append, valuesOf_singleton, add]
  split <;> simp

/-- To set a field is to add it if there is none of its name. -/
theorem set_valuesOf {fields : List Field} {name : Text} (h : valuesOf fields name = [])
    (value : Text) : set (valuesOf fields) name value = valuesOf (fields ++ [(name, value)]) := by
  funext n
  rw [valuesOf_append, valuesOf_singleton, set]
  split
  next hsame => rw [← valuesOf_congr hsame, h, List.nil_append]
  next => rw [List.append_nil]

end FieldMap

/-! ## Calls -/

namespace Go

section Calls

variable (σ : Environment) (formType : Text)

/-- A call that changes the header fields of the request. -/
inductive FieldCall where
  | set (field : Field)
  | add (field : Field)

def FieldCall.field : FieldCall → Field
  | set f => f
  | add f => f

/-- The header fields after a call. -/
def FieldCall.apply (m : FieldMap) : FieldCall → FieldMap
  | set f => m.set f.1 f.2
  | add f => m.add f.1 f.2

/-- The text of an argument: the type that the writer of a form announces, or the value of a
string. -/
def Expr.argument? : Expr → Option Text
  | .call f [] =>
    if f = .ofVariable .writer ["FormDataContentType"] then some formType else none
  | e => meaning goLexicon (evalGo σ) (e.code.text GoLiteral.quote)

/-- The calls by which a statement changes the header fields. Credentials become a field whose value
is computed from theirs, so a statement that sets them is left out. -/
def Statement.fieldCalls? : Statement → Option (List FieldCall)
  | .run (.call f [name, value]) =>
    if f = .ofVariable .req ["Header", "Set"] then
      (name.argument? σ formType).bind fun n =>
        (value.argument? σ formType).map fun v => [.set (n, v)]
    else if f = .ofVariable .req ["Header", "Add"] then
      (name.argument? σ formType).bind fun n =>
        (value.argument? σ formType).map fun v => [.add (n, v)]
    else if f = .ofVariable .req ["SetBasicAuth"] then none
    else some []
  | _ => some []

/-- The calls by which statements in a row change the header fields. -/
def fieldCalls? (statements : List Statement) : Option (List FieldCall) :=
  (statements.mapM (Statement.fieldCalls? σ formType)).map List.flatten

/-- The statements give the fields in this order, and what they make of fields that are given before
are all of these fields. -/
def Gives (before fields : List Field) (statements : List Statement) : Prop :=
  ∃ calls, fieldCalls? σ formType statements = some calls ∧ calls.map FieldCall.field = fields ∧
    calls.foldl FieldCall.apply (valuesOf before) = valuesOf (before ++ fields)

/-- The statement leaves the header fields alone. -/
def Statement.IsSilent (s : Statement) : Prop := s.fieldCalls? σ formType = some []

/-- The statement is no call of a method of the request. -/
def Statement.IsAside : Statement → Prop
  | .run e => ∃ f args, e = .call f args ∧ f.root.name ≠ Variable.req.name
  | _ => True

variable {σ formType} {before fields more : List Field} {front back : List Statement}

/-- A statement beside the header fields makes no call that changes them. -/
theorem Statement.IsAside.isSilent {s : Statement} (h : s.IsAside) : s.IsSilent σ formType := by
  cases s with
  | run e =>
    obtain ⟨f, args, rfl, hf⟩ := h
    have hne {members : List String} : f ≠ .ofVariable .req members := fun heq => hf (heq ▸ rfl)
    match args with
    | [name, value] =>
      rw [IsSilent, fieldCalls?, if_neg hne, if_neg hne, if_neg hne]
    | [] => rfl
    | [_] => rfl
    | _ :: _ :: _ :: _ => rfl
  | _ => rfl

/-- The calls of statements in a row are those of the first and then those of the others. -/
theorem fieldCalls?_append {first second : List FieldCall}
    (hfirst : fieldCalls? σ formType front = some first)
    (hsecond : fieldCalls? σ formType back = some second) :
    fieldCalls? σ formType (front ++ back) = some (first ++ second) := by
  obtain ⟨firsts, hfront, rfl⟩ := Option.map_eq_some_iff.1 hfirst
  obtain ⟨seconds, hback, rfl⟩ := Option.map_eq_some_iff.1 hsecond
  rw [fieldCalls?, List.mapM_append, hfront, hback, ← List.flatten_append]
  rfl

/-- Statements give fields on top of those that the statements before them gave. -/
theorem Gives.append (hfront : Gives σ formType before fields front)
    (hback : Gives σ formType (before ++ fields) more back) :
    Gives σ formType before (fields ++ more) (front ++ back) := by
  obtain ⟨first, hfirst, rfl, hmap⟩ := hfront
  obtain ⟨second, hsecond, rfl, hmap'⟩ := hback
  refine ⟨first ++ second, fieldCalls?_append hfirst hsecond, List.map_append, ?_⟩
  rw [List.foldl_append, hmap, hmap', List.append_assoc]

/-- Statements that change no field give none. -/
theorem gives_of_isSilent {statements : List Statement}
    (h : ∀ s ∈ statements, s.IsSilent σ formType) : Gives σ formType before [] statements := by
  refine ⟨[], ?_, rfl, by rw [List.append_nil]; rfl⟩
  induction statements with
  | nil => rfl
  | cons s rest ih =>
    obtain ⟨hs, hrest⟩ := List.forall_mem_cons.1 h
    have hone : fieldCalls? σ formType [s] = some [] := by
      rw [fieldCalls?, List.mapM_cons, hs]
      rfl
    exact fieldCalls?_append hone (ih hrest)

/-- Statements beside the fields may follow. -/
theorem Gives.append_aside (h : Gives σ formType before fields front)
    (hback : ∀ s ∈ back, s.IsAside) : Gives σ formType before fields (front ++ back) := by
  simpa using h.append (gives_of_isSilent fun s hs => (hback s hs).isSilent)

/-- Statements beside the fields may come first. -/
theorem Gives.aside_append (hback : Gives σ formType before fields back)
    (hfront : ∀ s ∈ front, s.IsAside) : Gives σ formType before fields (front ++ back) := by
  have h : Gives σ formType (before ++ []) fields back := by rwa [List.append_nil]
  exact (gives_of_isSilent fun s hs => (hfront s hs).isSilent).append h

/-- A header statement gives its field, if it sets it only where there is none of the name. -/
theorem gives_setHeader {isRepeated : Bool} {name value : Expr} {f : Field}
    (hname : name.argument? σ formType = some f.1) (hvalue : value.argument? σ formType = some f.2)
    (hnew : isRepeated = false → valuesOf before f.1 = []) :
    Gives σ formType before [f] [setHeader isRepeated name value] := by
  cases isRepeated with
  | true =>
    refine ⟨[.add f], ?_, rfl, FieldMap.add_valuesOf before f.1 f.2⟩
    simp [fieldCalls?, setHeader, callMethod, Statement.fieldCalls?, Selector.ofVariable, hname,
      hvalue]
  | false =>
    refine ⟨[.set f], ?_, rfl, FieldMap.set_valuesOf (hnew rfl) f.2⟩
    simp [fieldCalls?, setHeader, callMethod, Statement.fieldCalls?, Selector.ofVariable, hname,
      hvalue]

/-- The expression for a word has the value of the word as an argument. -/
theorem argument?_ofWord (w : Word) :
    (Expr.ofWord w).argument? σ formType = some (w.value σ) := meaning_go σ w

theorem argument?_contentType :
    (Expr.ofText "Content-Type").argument? σ formType = some "Content-Type".toList :=
  argument?_ofWord (Word.ofString "Content-Type")

/-! ### Requests -/

/-- The header fields of a request are given in order. A name that occurs again is added to, and one
that is new is set. -/
theorem gives_headerStatements {earlier hs : Headers} (hearlier : earlier.HasLiteralNames)
    (hnames : hs.HasLiteralNames) :
    Gives σ formType (earlier.map (Header.sent σ)) (hs.map (Header.sent σ))
      (headerStatements earlier hs) := by
  induction hs generalizing earlier with
  | nil => exact gives_of_isSilent (by simp [headerStatements])
  | cons h rest ih =>
    obtain ⟨hname, hrest⟩ := List.forall_mem_cons.1 hnames
    have hone : Gives σ formType (earlier.map (Header.sent σ)) [h.sent σ]
        [setHeader (Headers.hasNameOf earlier h) (.ofWord h.name) (.ofWord h.value)] :=
      gives_setHeader (argument?_ofWord h.name) (argument?_ofWord h.value)
        (Headers.hasNameOf_eq_false σ hearlier hname).1
    have hearlier' : (earlier ++ [h]).HasLiteralNames :=
      List.forall_mem_append.2 ⟨hearlier, List.forall_mem_singleton.2 hname⟩
    have hlater := ih hearlier' hrest
    rw [List.map_append, List.map_singleton] at hlater
    exact hone.append hlater

/-- The type that the body implies, or that of its form, is given behind the header fields. -/
theorem gives_contentTypeStatements {r : Request} (hnames : r.headers.HasLiteralNames) :
    Gives σ formType (r.headers.map (Header.sent σ)) (r.impliedFields σ ++ r.formFields formType)
      (contentTypeStatements r) := by
  -- the type is set where the header fields give none
  have hset : ∀ {value : Expr} {v : Text}, value.argument? σ formType = some v →
      r.explicitContentType? = none → Gives σ formType (r.headers.map (Header.sent σ))
        [("Content-Type".toList, v)] [setHeader false (.ofText "Content-Type") value] := by
    intro value v hvalue hnone
    exact gives_setHeader argument?_contentType hvalue fun _ =>
      (Request.valuesOf_contentType σ hnames).2 hnone
  have hsilent : Gives σ formType (r.headers.map (Header.sent σ)) [] [] :=
    gives_of_isSilent nofun
  unfold contentTypeStatements
  cases himplied : r.impliedContentType? with
  | some type =>
    rw [Request.impliedFields, himplied, Request.formFields_of_implied himplied]
    exact hset (argument?_ofWord type) (Request.explicitContentType?_of_implied himplied).1
  | none =>
    rw [Request.impliedFields, himplied]
    unfold Request.formFields
    cases hexplicit : r.explicitContentType? with
    | some type => cases r.body <;> exact hsilent
    | none =>
      cases r.body with
      | multipart parts => exact hset rfl hexplicit
      | _ => exact hsilent

/-! ### Statements beside the header fields -/

theorem isAside_bindResult (declared : List Variable) (v : Variable) (value : Expr) :
    (bindResult declared v value).IsAside := by
  unfold bindResult
  split <;> trivial

/-- A method of another variable than the request is no call on the header. -/
theorem isAside_callMethod {v : Variable} (hv : v.name ≠ Variable.req.name) (members : List String)
    (args : List Expr) : (Statement.run (callMethod v members args)).IsAside :=
  ⟨_, _, rfl, hv⟩

theorem isAside_copyFile (declared : List Variable) (target : Variable) (path : Word) :
    ∀ s ∈ copyFile declared target path, s.IsAside := by
  simp only [copyFile, List.forall_mem_cons]
  exact ⟨isAside_bindResult declared _ _, trivial, trivial, trivial, trivial,
    List.forall_mem_nil _⟩

theorem isAside_partStatements (declared : List Variable) (part : FormPart) :
    ∀ s ∈ partStatements declared part, s.IsAside := by
  cases part with
  | field name value =>
    simp only [partStatements, List.forall_mem_cons]
    exact ⟨isAside_bindResult declared _ _, trivial, trivial, trivial, List.forall_mem_nil _⟩
  | file name filename path =>
    simp only [partStatements, List.forall_mem_append, List.forall_mem_cons]
    exact ⟨⟨⟨isAside_bindResult declared _ _, trivial, List.forall_mem_nil _⟩,
      isAside_copyFile declared _ path⟩, trivial, List.forall_mem_nil _⟩
  | fileContent name path =>
    simp only [partStatements, List.forall_mem_append, List.forall_mem_cons]
    exact ⟨⟨⟨isAside_bindResult declared _ _, trivial, List.forall_mem_nil _⟩,
      isAside_copyFile declared _ path⟩, trivial, List.forall_mem_nil _⟩

/-- The statements that write the form change no header field. -/
theorem isAside_partsStatements (declared : List Variable) (parts : List FormPart) :
    ∀ s ∈ partsStatements declared parts, s.IsAside := by
  induction parts generalizing declared with
  | nil => exact List.forall_mem_nil _
  | cons part rest ih =>
    exact List.forall_mem_append.2 ⟨isAside_partStatements declared part, ih _⟩

theorem isAside_formStatements (body : Body) : ∀ s ∈ formStatements body, s.IsAside := by
  cases body with
  | multipart parts =>
    have hclose := isAside_callMethod (v := .writer) (by decide) ["Close"] []
    simp only [formStatements, List.forall_mem_append, List.forall_mem_cons]
    exact ⟨⟨⟨trivial, trivial, List.forall_mem_nil _⟩, isAside_partsStatements [] parts⟩, hclose,
      trivial, List.forall_mem_nil _⟩
  | _ => exact List.forall_mem_nil _

/-- The statements that build the body change no header field. -/
theorem isAside_bodyStatements (body : Body) : ∀ s ∈ bodyStatements body, s.IsAside := by
  cases body with
  | raw content contentType => exact List.forall_mem_singleton.2 trivial
  | urlEncoded pairs => exact List.forall_mem_singleton.2 trivial
  | file path contentType =>
    simp only [bodyStatements, List.forall_mem_cons]
    exact ⟨trivial, trivial, trivial, List.forall_mem_nil _⟩
  | _ => exact List.forall_mem_nil _

/-- The statements in front of those that give the request its header fields. -/
def openingStatements (r : Request) : List Statement :=
  formStatements r.body ++ [.define [.client] (.newValue (.ofPackage .http "Client"))]
    ++ bodyStatements r.body
    ++ [.define [.req, .err] (callPackage .http "NewRequest"
        [.ofWord r.effectiveMethod, .ofWord r.url, bodyArgument r.body]), .checkError]

/-- Nothing is done to the header fields before the request is there. -/
theorem isAside_openingStatements (r : Request) : ∀ s ∈ openingStatements r, s.IsAside := by
  simp only [openingStatements, List.forall_mem_append, List.forall_mem_cons]
  exact ⟨⟨⟨isAside_formStatements r.body, trivial, List.forall_mem_nil _⟩,
    isAside_bodyStatements r.body⟩, trivial, trivial, List.forall_mem_nil _⟩

theorem isAside_sendStatements : ∀ s ∈ sendStatements, s.IsAside := by
  simp only [sendStatements, List.forall_mem_cons]
  exact ⟨trivial, trivial, trivial, trivial, trivial, ⟨_, _, rfl, by decide⟩,
    List.forall_mem_nil _⟩

/-- The program for a request gives its header fields, then the content type. -/
theorem gives_statementsOf {r : Request} (hnames : r.headers.HasLiteralNames)
    (hcredentials : r.credentials = none) :
    Gives σ formType [] (r.sentFields σ ++ r.formFields formType) (statementsOf r) := by
  have hheaders : Gives σ formType [] (r.headers.map (Header.sent σ))
      (headerStatements [] r.headers) := gives_headerStatements (List.forall_mem_nil _) hnames
  have htype : Gives σ formType [] (r.sentFields σ ++ r.formFields formType)
      (headerStatements [] r.headers ++ contentTypeStatements r) := by
    rw [Request.sentFields, List.append_assoc]
    exact hheaders.append (gives_contentTypeStatements hnames)
  have hall :=
    (htype.append_aside isAside_sendStatements).aside_append (isAside_openingStatements r)
  simpa [statementsOf, openingStatements, hcredentials] using hall

end Calls

end Go

end CurlScribe
