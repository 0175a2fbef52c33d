import CurlScribe.Proofs.Target.GoHeaders
import CurlScribe.Proofs.Target.GoSpelling

/-!
# Header fields as Go sources give them

The calls that change the header fields are read from the rows of a source: a row that begins with a
method of the header is parsed, and its two arguments are evaluated. What is read in the text is
what the statements of the program say, so that nothing rests on how statements are written.
-/

namespace CurlScribe
namespace Go
open Code Target

section Reading

variable (σ : Environment) (formType : Text)

/-- The text of an argument: the type that the writer of a form announces, or the value of a
string. -/
def argumentValue? : Expression → Option Text
  | .call (.member (.name object) method) [] =>
    if object = "writer".toList ∧ method = "FormDataContentType".toList then some formType
    else none
  | e => evalGo σ e

/-- The calls by which a row changes the header fields. Credentials become a field whose value is
computed from theirs, so a row that sets them is left out. -/
def readCall? (row : List Token) : Option (List FieldCall) :=
  if spelt "\treq.SetBasicAuth" <+: row then none
  else if spelt "\treq.Header." <+: row then
    match parse row.tail with
    | some (.call (.member _ method) [name, value]) =>
      (argumentValue? σ formType name).bind fun n =>
        (argumentValue? σ formType value).bind fun v =>
          if method = "Set".toList then some [.set (n, v)]
          else if method = "Add".toList then some [.add (n, v)]
          else none
    | _ => none
  else some []

/-- The calls by which a source changes the header fields, in order. -/
def readFieldCalls? (source : Text) : Option (List FieldCall) :=
  (goLexicon.rows? source).bind (gather? (readCall? σ formType))

variable {σ formType}

/-! ## Rows beside the header fields -/

theorem readCall?_of_not_isPrefix {row : List Token} (h : ¬spelt "\treq." <+: row) :
    readCall? σ formType row = some [] := by
  have hcredentials : spelt "\treq." <+: spelt "\treq.SetBasicAuth" := by decide
  have hheader : spelt "\treq." <+: spelt "\treq.Header." := by decide
  rw [readCall?, if_neg (mt hcredentials.trans h), if_neg (mt hheader.trans h)]

/-- Where a row names the request, no dot follows, unless the row is a call of one of its
methods. -/
theorem not_isPrefix_of_isAside {s : Statement} (h : s.IsAside) :
    ∀ row ∈ s.rows, ¬spelt "\treq." <+: row := by
  -- in front of the dot stands another name, or no name
  have hsecond {row : List Token} {t : Token} (hrow : row[1]? = some t)
      (ht : t ≠ .name "req".toList) : ¬spelt "\treq." <+: row := by
    rintro ⟨rest, rfl⟩
    exact ht (Option.some.inj hrow).symm
  have hthird {row : List Token} {t : Token} (hrow : row[2]? = some t)
      (ht : t ≠ .punctuation '.') : ¬spelt "\treq." <+: row := by
    rintro ⟨rest, rfl⟩
    exact ht (Option.some.inj hrow).symm
  cases s with
  | define targets value =>
    rw [Statement.rows, List.forall_mem_singleton]
    match targets with
    | [] => exact hthird rfl (by decide)
    | [_] => exact hthird rfl (by decide)
    | _ :: _ :: _ => exact hthird rfl (by decide)
  | assign targets value =>
    rw [Statement.rows, List.forall_mem_singleton]
    match targets with
    | [] => exact hthird rfl (by decide)
    | [_] => exact hthird rfl (by decide)
    | _ :: _ :: _ => exact hthird rfl (by decide)
  | declare target value => exact List.forall_mem_singleton.2 (hthird rfl (by decide))
  | checkError => decide
  | later value => exact List.forall_mem_singleton.2 (hthird rfl (by decide))
  | run value =>
    obtain ⟨f, args, rfl, hf⟩ := h
    have hrow : (spelt "\t" ++ (Expr.call f args).tokens)[1]? = some (.name f.root.name) := by
      rw [Expr.tokens]
      rfl
    exact List.forall_mem_singleton.2 (hsecond hrow fun heq => hf (Token.name.inj heq))
  | gap => decide

/-! ## Rows of header fields -/

/-- The text of an argument is what its tokens are read as. -/
structure Expr.IsReadAs (σ : Environment) (formType : Text) (e : Expr) (t : Text) : Prop where
  argument : e.argument? σ formType = some t
  tokens : ∃ x, IsTerm e.tokens x ∧ argumentValue? σ formType x = some t

/-- What evaluates to a string is no announcement of a type. -/
theorem argumentValue?_of_evalGo {e : Expression} {t : Text} (h : evalGo σ e = some t) :
    argumentValue? σ formType e = some t := by
  unfold argumentValue?
  split
  · cases h
  · exact h

theorem isReadAs_ofWord (w : Word) : (Expr.ofWord w).IsReadAs σ formType (w.value σ) where
  argument := argument?_ofWord w
  tokens := by
    obtain ⟨e, hterm, heval⟩ := isTermFor_go w
    rw [Expr.ofWord, Expr.tokens]
    exact ⟨e, hterm, argumentValue?_of_evalGo (heval σ)⟩

theorem isReadAs_formType :
    (callMethod .writer ["FormDataContentType"] []).IsReadAs σ formType formType where
  argument := rfl
  tokens := by
    have hmethod : IsOperand (Selector.ofVariable .writer ["FormDataContentType"]).tokens
        (.member (.name "writer".toList) "FormDataContentType".toList) := fun _ _ _ _ => rfl
    exact ⟨_, (hmethod.call .nil).isTerm, rfl⟩

/-- A row that calls a method of the header is read as the call. -/
theorem readCall?_method {name value : Expr} {n v : Text} (hname : name.IsReadAs σ formType n)
    (hvalue : value.IsReadAs σ formType v) (method : Text) :
    readCall? σ formType (spelt "\t" ++ (Expr.call
        ⟨.variable .req, ["Header".toList, method]⟩ [name, value]).tokens) =
      if method = "Set".toList then some [.set (n, v)]
      else if method = "Add".toList then some [.add (n, v)]
      else none := by
  obtain ⟨x, hx, hn⟩ := hname.tokens
  obtain ⟨y, hy, hv⟩ := hvalue.tokens
  have hmethod : IsOperand (Selector.tokens ⟨.variable .req, ["Header".toList, method]⟩)
      (.member (.member (.name "req".toList) "Header".toList) method) := fun _ _ _ _ => rfl
  have hparse := (hmethod.call (.cons hx (.cons hy .nil))).isTerm.parse_eq
  rw [Expr.tokens, Expr.allTokens, Expr.allTokens, Expr.allTokens]
  have hcredentials : ¬spelt "\treq.SetBasicAuth" <+:
      spelt "\t" ++ (Selector.tokens ⟨.variable .req, ["Header".toList, method]⟩ ++
        argumentTokens [name.tokens, value.tokens]) := by
    rintro ⟨rest, hrest⟩
    have hthird := congrArg (fun row => row[3]?) hrest
    exact absurd (Token.name.inj (Option.some.inj hthird)) (by decide)
  have htail (ts : List Token) : (spelt "\t" ++ ts).tail = ts := rfl
  rw [readCall?, if_neg hcredentials, if_pos ⟨_, rfl⟩, htail, hparse]
  simp only [hn, hv, Option.bind_some]

/-! ## Sources -/

/-- The rows of the statement are read as the calls that the statement makes. -/
def Statement.IsReadFor (σ : Environment) (formType : Text) (s : Statement) : Prop :=
  gather? (readCall? σ formType) s.rows = s.fieldCalls? σ formType

theorem Statement.IsAside.isReadFor {s : Statement} (h : s.IsAside) : s.IsReadFor σ formType := by
  have hsilent : s.fieldCalls? σ formType = some [] := h.isSilent
  rw [IsReadFor, hsilent]
  exact gather?_eq_nil fun row hrow =>
    readCall?_of_not_isPrefix (not_isPrefix_of_isAside h row hrow)

/-- A call that gives a field is read as its name and value. -/
theorem isReadFor_setHeader (isRepeated : Bool) {name value : Expr} {n v : Text}
    (hname : name.IsReadAs σ formType n) (hvalue : value.IsReadAs σ formType v) :
    (setHeader isRepeated name value).IsReadFor σ formType := by
  have hrow := readCall?_method hname hvalue
  cases isRepeated with
  | true =>
    have hcalls : (setHeader true name value).fieldCalls? σ formType = some [.add (n, v)] := by
      simp [setHeader, callMethod, Statement.fieldCalls?, Selector.ofVariable, hname.argument,
        hvalue.argument]
    rw [Statement.IsReadFor, hcalls]
    exact (gather?_singleton _).trans (hrow "Add".toList)
  | false =>
    have hcalls : (setHeader false name value).fieldCalls? σ formType = some [.set (n, v)] := by
      simp [setHeader, callMethod, Statement.fieldCalls?, Selector.ofVariable, hname.argument,
        hvalue.argument]
    rw [Statement.IsReadFor, hcalls]
    exact (gather?_singleton _).trans (hrow "Set".toList)

/-- The calls for header fields are read as the fields. -/
theorem isReadFor_headerStatements (earlier hs : Headers) :
    ∀ s ∈ headerStatements earlier hs, s.IsReadFor σ formType := by
  induction hs generalizing earlier with
  | nil => exact List.forall_mem_nil _
  | cons h rest ih =>
    refine List.forall_mem_cons.2 ⟨?_, ih (earlier ++ [h])⟩
    exact isReadFor_setHeader _ (isReadAs_ofWord h.name) (isReadAs_ofWord h.value)

/-- The call for the type is read as that type, of the body or of the form. -/
theorem isReadFor_contentTypeStatements (r : Request) :
    ∀ s ∈ contentTypeStatements r, s.IsReadFor σ formType := by
  have hset {value : Expr} {v : Text} (hvalue : value.IsReadAs σ formType v) :
      (setHeader false (.ofText "Content-Type") value).IsReadFor σ formType :=
    isReadFor_setHeader false (isReadAs_ofWord (Word.ofString "Content-Type")) hvalue
  unfold contentTypeStatements
  split
  next type _ => exact List.forall_mem_singleton.2 (hset (isReadAs_ofWord type))
  · exact List.forall_mem_singleton.2 (hset isReadAs_formType)
  · exact List.forall_mem_nil _

/-- A row that sets credentials is no call with a field, nor is its statement. -/
theorem isReadFor_credentialsStatements (c : Credentials) :
    ∀ s ∈ credentialsStatements c, s.IsReadFor σ formType := by
  refine List.forall_mem_singleton.2 ?_
  have hcalls : (Statement.run (callMethod .req ["SetBasicAuth"]
      [.ofWord c.user, .ofWord c.password])).fieldCalls? σ formType = none := by
    simp [callMethod, Statement.fieldCalls?, Selector.ofVariable]
  rw [Statement.IsReadFor, hcalls]
  refine (gather?_singleton _).trans ?_
  rw [callMethod, Expr.tokens, readCall?, if_pos ⟨_, rfl⟩]

/-- Every statement of a request is read as the calls that it makes. -/
theorem isReadFor_statementsOf (r : Request) :
    ∀ s ∈ statementsOf r, s.IsReadFor σ formType := by
  have hcredentials : ∀ s ∈ r.credentials.toList.flatMap credentialsStatements,
      s.IsReadFor σ formType := by
    intro s hs
    obtain ⟨c, -, hs⟩ := List.mem_flatMap.1 hs
    exact isReadFor_credentialsStatements c s hs
  show ∀ s ∈ openingStatements r ++ headerStatements [] r.headers ++ contentTypeStatements r
    ++ r.credentials.toList.flatMap credentialsStatements ++ sendStatements, s.IsReadFor σ formType
  simp only [List.forall_mem_append]
  exact ⟨⟨⟨⟨fun s hs => (isAside_openingStatements r s hs).isReadFor,
    isReadFor_headerStatements [] r.headers⟩, isReadFor_contentTypeStatements r⟩, hcredentials⟩,
    fun s hs => (isAside_sendStatements s hs).isReadFor⟩

/-- The calls that are read in the source of a Go client are those of the statements. -/
theorem readFieldCalls?_source {r : Request} {source : Source} (h : r.render .go = .ok source) :
    readFieldCalls? σ formType source.text =
      fieldCalls? σ formType (Program.ofRequest r).statements := by
  have himports : ∀ row ∈ importRows (Program.ofRequest r).imports, ¬spelt "\treq." <+: row := by
    have hpath (package : Package) :
        ¬spelt "\treq." <+: spelt "\t" ++ [.string package.path] := by
      rintro ⟨rest, hrest⟩
      cases congrArg (fun row => row[1]?) hrest
    simp only [importRows, List.forall_mem_append, List.forall_mem_map]
    exact ⟨⟨by decide, fun package _ => hpath package⟩, by decide⟩
  have hend : ∀ row ∈ [spelt "\x7d"] ++ [[]], ¬spelt "\treq." <+: row := by decide
  have hstatements : gather? (readCall? σ formType) ((statementsOf r).flatMap Statement.rows) =
      fieldCalls? σ formType (statementsOf r) := gather?_flatMap (isReadFor_statementsOf r)
  rw [readFieldCalls?, rows?_source h, Option.bind_some, Program.rows, List.append_assoc]
  refine (gather?_between ?_ ?_ _).trans hstatements
  · exact fun row hrow => readCall?_of_not_isPrefix (himports row hrow)
  · exact fun row hrow => readCall?_of_not_isPrefix (hend row hrow)

/-- The calls in the source of a Go client, made in order, leave the header fields of the request,
and behind them the content type that the body implies or the form announces. -/
theorem sentFields_source {r : Request} {source : Source} (hnames : r.headers.HasLiteralNames)
    (hcredentials : r.credentials = none) (h : r.render .go = .ok source) :
    ∃ calls, readFieldCalls? σ formType source.text = some calls ∧
      calls.map FieldCall.field = r.sentFields σ ++ r.formFields formType ∧
      calls.foldl FieldCall.apply (fun _ => []) =
        valuesOf (r.sentFields σ ++ r.formFields formType) := by
  obtain ⟨calls, hcalls, hfields, happly⟩ : Gives σ formType [] _ (statementsOf r) :=
    gives_statementsOf hnames hcredentials
  exact ⟨calls, (readFieldCalls?_source h).trans hcalls, hfields, happly⟩

end Reading

end Go
end CurlScribe
