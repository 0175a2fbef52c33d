import CurlScribe.Proofs.Target.Framing
import CurlScribe.Proofs.Target.GoHeaders
import CurlScribe.Target.Render

/-!
# Header fields that clients send

Every style has its own way to give a request its header fields: calls that set or add one, a
dictionary, a chain of calls, lines of a message. What comes of all of them is the same: the fields
of the request in order, and behind them the content type that the body implies.
-/

namespace CurlScribe
open Target (Environment meaning pythonLexicon rustLexicon evalPython evalRust RustValue
  meaning_python meaning_rust)

/-! ## The other styles -/

section Styles

variable (σ : Environment) {r : Request}

namespace Python

/-- The text that the expression for a word evaluates to. -/
def text? (w : Word) : Option Text :=
  meaning pythonLexicon (evalPython σ) ((exprCode w).text PythonLiteral.quote)

/-- The entries of the header dictionary of a program. -/
def Program.fields? (p : Program) : Option (List Field) :=
  p.headers.mapM fun (name, value) =>
    (text? σ name).bind fun n => (text? σ value).map fun v => (n, v)

theorem fields?_ofRequest {p : Program} (h : Program.ofRequest r = .ok p) :
    p.fields? σ = some (r.sentFields σ) := by
  have hentry : (fun entry : Word × Word => (text? σ entry.1).bind fun n =>
      (text? σ entry.2).map fun v => (n, v)) =
        fun entry => pure (entry.1.value σ, entry.2.value σ) := by
    funext entry
    rw [text?, text?, meaning_python, meaning_python]
    rfl
  unfold Program.ofRequest at h
  split at h
  · cases h
  · obtain rfl := Except.ok.inj h
    rw [Program.fields?, hentry, List.mapM_pure, headersOf, List.map_append, List.map_map,
      List.map_map]
    rfl

/-- A request has no program if and only if it repeats a name. -/
theorem exists_error_iff :
    (∃ e, r.render .python = .error e) ↔ Headers.hasRepeatedNames r.headers = true := by
  unfold Request.render Program.ofRequest Headers.hasRepeatedNames
  cases Headers.firstRepeated? [] r.headers with
  | none => exact ⟨nofun, nofun⟩
  | some h => exact ⟨fun _ => rfl, fun _ => ⟨_, rfl⟩⟩

/-- No two entries of a dictionary have the same name. -/
theorem pairwise_sentFields {p : Program} (h : Program.ofRequest r = .ok p)
    (hnames : r.headers.HasLiteralNames) :
    (r.sentFields σ).Pairwise fun f g => Text.sameIgnoringCase f.1 g.1 = false := by
  have hfirst : Headers.firstRepeated? [] r.headers = none := by
    unfold Program.ofRequest at h
    split at h
    · cases h
    · assumption
  have hheaders := (Headers.pairwise_sent_iff σ hnames).2 hfirst
  rw [Request.sentFields, Request.impliedFields]
  cases himplied : r.impliedContentType? with
  | none => simpa using hheaders
  | some type =>
    refine List.pairwise_append.2 ⟨hheaders, List.pairwise_singleton _ _, ?_⟩
    intro f hf g hg
    obtain rfl := List.mem_singleton.1 hg
    exact valuesOf_eq_nil.1 ((Request.valuesOf_contentType σ hnames).2
      (Request.explicitContentType?_of_implied himplied).1) f hf

end Python

namespace Rust

/-- The text that the expression for a word evaluates to, borrowed or owned. -/
def text? (w : Word) : Option Text :=
  meaning rustLexicon (fun e => (evalRust σ e).bind RustValue.text?)
    ((exprCode w).text RustLiteral.quote)

/-- The field that a call adds, if it is one that adds a field by name and value. -/
def RequestCall.fields? : RequestCall → Option (List Field)
  | .header name value => (text? σ name).bind fun n => (text? σ value).map fun v => [(n, v)]
  | _ => some []

/-- The fields that the calls of a program add, in order. -/
def Program.fields? (p : Program) : Option (List Field) :=
  (p.calls.mapM (RequestCall.fields? σ)).map List.flatten

/-- The field of a call with the values of its words. -/
def RequestCall.sent : RequestCall → List Field
  | .header name value => [(name.value σ, value.value σ)]
  | _ => []

theorem fields?_ofRequest : (Program.ofRequest r).fields? σ = some (r.sentFields σ) := by
  have hcall : RequestCall.fields? σ = fun call => pure (call.sent σ) := by
    funext call
    cases call with
    | header name value =>
      rw [RequestCall.fields?, text?, text?, meaning_rust, meaning_rust]
      rfl
    | _ => rfl
  have hbody : (bodyCalls r.body).flatMap (RequestCall.sent σ) = [] := by
    cases r.body <;> rfl
  have hcredentials : (r.credentials.toList.map fun c =>
      RequestCall.credentials c.user c.password).flatMap (RequestCall.sent σ) = [] := by
    cases r.credentials <;> rfl
  have hcalls : (callsOf r).flatMap (RequestCall.sent σ) = r.sentFields σ := by
    rw [callsOf, List.flatMap_append, List.flatMap_append, List.flatMap_append, hbody, hcredentials,
      List.append_nil, List.append_nil, List.flatMap_map, List.flatMap_map, Request.sentFields,
      Request.impliedFields, List.map_eq_flatMap, List.map_eq_flatMap]
    rfl
  rw [Program.fields?, hcall, List.mapM_pure, ← hcalls, List.flatMap]
  rfl

end Rust

namespace Message

theorem sent_eq {name value : Word} {f : Field} (h : Word.SentAs name value f) :
    (name.value σ, value.value σ) = f :=
  Prod.ext (Word.value_of_literal? σ h.1) (Word.value_of_literal? σ h.2)

theorem name_of_hostFields {headers : Headers} {url : Url} {fields : List Field}
    (h : hostFields headers url = .ok fields) : ∀ f ∈ fields, f.1 = "Host".toList := by
  unfold hostFields at h
  split at h
  · obtain rfl := Except.ok.inj h
    exact nofun
  · split at h
    · cases h
    all_goals
      obtain rfl := Except.ok.inj h
      exact List.forall_mem_singleton.2 rfl

theorem name_of_lengthFields (headers : Headers) (body : Option Text) :
    ∀ f ∈ lengthFields headers body, f.1 = "Content-Length".toList := by
  unfold lengthFields
  split
  · exact nofun
  · split
    · exact nofun
    · exact List.forall_mem_singleton.2 rfl

/-- The fields of a message are those of the request, between the host and the size of the body. -/
theorem fields_ofRequest {m : Message} (h : ofRequest r = .ok m)
    (hcredentials : r.credentials = none) :
    ∃ host length, m.fields = host ++ r.sentFields σ ++ length ∧
      (∀ f ∈ host, f.1 = "Host".toList) ∧ ∀ f ∈ length, f.1 = "Content-Length".toList := by
  obtain ⟨url, s, hurl, -, -, -, hfields, hhost, hgiven, himplied, hnone, hlength⟩ :=
    ofRequest_eq_ok h
  have hgiven' : r.headers.map (Header.sent σ) = s.given := by
    refine List.forall₂_eq_eq_eq ▸ List.forall₂_map_left_iff.2 ?_
    exact (Except.mapM_eq_ok.1 hgiven).imp fun _ _ hf => sent_eq σ (field_eq_ok hf).1
  have himplied' : r.impliedFields σ = s.implied := by
    refine List.forall₂_eq_eq_eq ▸ List.forall₂_map_left_iff.2 ?_
    exact (Except.mapM_eq_ok.1 himplied).imp fun _ _ hf => sent_eq σ (field_eq_ok hf).1
  rw [hcredentials] at hnone
  refine ⟨s.host, s.length, ?_, ?_, ?_⟩
  · rw [hfields, Sections.fields, ← Except.ok.inj hnone, List.append_nil, ← hgiven', ← himplied',
      Request.sentFields, List.append_assoc s.host]
  · exact name_of_hostFields hhost
  · rw [hlength]
    exact name_of_lengthFields r.headers m.body

end Message

end Styles

/-! ## All styles -/

namespace Request

variable (σ : Environment) (formType : Text) (r : Request)

/-- The header fields that the source in a style gives the request, in the order in which it gives
them, if there is such a source. `formType` is what the writer of a form announces. -/
def givenFields? : Style → Option (List Field)
  | .go => (Go.fieldCalls? σ formType (Go.Program.ofRequest r).statements).map
      (List.map Go.FieldCall.field)
  | .python => (Python.Program.ofRequest r).toOption.bind (Python.Program.fields? σ)
  | .rust => (Rust.Program.ofRequest r).fields? σ
  | .http => (Message.ofRequest r).toOption.map Message.fields

/-- The sources of all styles send the header fields of the request, in order, and behind them a
content type that they do not give. -/
structure SendsAlike : Prop where
  /-- The calls of a Go client, made in order, leave for every name the values that the request has
  for it. -/
  go : ∃ calls, Go.fieldCalls? σ formType (Go.Program.ofRequest r).statements = some calls ∧
    calls.foldl Go.FieldCall.apply (fun _ => []) = fun name =>
      (Headers.getAll r.headers name).map (Word.value σ) ++
        valuesOf (r.impliedFields σ ++ r.formFields formType) name
  /-- Only a request that repeats a name has no Python client. -/
  python_fails : (∃ e, r.render .python = .error e) ↔ Headers.hasRepeatedNames r.headers = true
  repeats : Headers.hasRepeatedNames r.headers = true ↔ ¬ (r.headers.map (Header.sent σ)).Pairwise
    fun f g => Text.sameIgnoringCase f.1 g.1 = false
  /-- No two names in the dictionary of a Python client are the same. -/
  python : ∀ p, Python.Program.ofRequest r = .ok p → p.fields? σ = some (r.sentFields σ) ∧
    (r.sentFields σ).Pairwise fun f g => Text.sameIgnoringCase f.1 g.1 = false
  rust : (Rust.Program.ofRequest r).fields? σ = some (r.sentFields σ)
  /-- A message has further fields for the host and the size of the body alone. -/
  http : ∀ m, Message.ofRequest r = .ok m → ∃ host length,
    m.fields = host ++ r.sentFields σ ++ length ∧ (∀ f ∈ host, f.1 = "Host".toList) ∧
      ∀ f ∈ length, f.1 = "Content-Length".toList
  /-- At most one content type is given beside those of the header fields, and none if they have
  one. -/
  contentType : ∀ style fields, r.givenFields? σ formType style = some fields → ∃ added,
    valuesOf fields "Content-Type".toList =
      (Headers.getAll r.headers "Content-Type".toList).map (Word.value σ) ++ added ∧
    added.length ≤ 1 ∧ (Headers.has r.headers "Content-Type".toList = true → added = [])

variable {σ formType r}

/-- Fields with no content type before and behind those of the request have its content types. -/
theorem contentType_of_fields (hnames : r.headers.HasLiteralNames)
    {fields front more back : List Field}
    (hfields : fields = front ++ (r.headers.map (Header.sent σ) ++ more) ++ back)
    (hfront : valuesOf front "Content-Type".toList = [])
    (hmore : more.Sublist (r.impliedFields σ ++ r.formFields formType))
    (hback : valuesOf back "Content-Type".toList = []) :
    ∃ added, valuesOf fields "Content-Type".toList =
      (Headers.getAll r.headers "Content-Type".toList).map (Word.value σ) ++ added ∧
    added.length ≤ 1 ∧ (Headers.has r.headers "Content-Type".toList = true → added = []) := by
  refine ⟨valuesOf more "Content-Type".toList, ?_, ?_, fun h => ?_⟩
  · rw [hfields, valuesOf_append, valuesOf_append, valuesOf_append, hfront, hback,
      List.append_nil, List.nil_append, Headers.valuesOf_sent σ hnames]
  · calc (valuesOf more "Content-Type".toList).length ≤ more.length := by
          rw [valuesOf, List.length_map]
          exact List.length_filter_le _ _
      _ ≤ _ := hmore.length_le
      _ ≤ 1 := length_added_le
  · rw [added_eq_nil h, List.sublist_nil] at hmore
    rw [hmore]
    rfl

theorem valuesOf_contentType_of_names {fields : List Field} {name : Text}
    (h : ∀ f ∈ fields, f.1 = name)
    (hname : Text.sameIgnoringCase name "Content-Type".toList = false) :
    valuesOf fields "Content-Type".toList = [] :=
  valuesOf_eq_nil.2 fun f hf => (h f hf).symm ▸ hname

/-- All styles send the same header fields, for a request whose header names are known and that has
no credentials. -/
theorem sendsAlike (hnames : r.headers.HasLiteralNames) (hcredentials : r.credentials = none) :
    r.SendsAlike σ formType := by
  have hprogram : Go.Gives σ formType [] _ (Go.statementsOf r) :=
    Go.gives_statementsOf hnames hcredentials
  obtain ⟨calls, hcalls, hgiven, happly⟩ := hprogram
  have hsub : (r.impliedFields σ).Sublist (r.impliedFields σ ++ r.formFields formType) :=
    List.sublist_append_left _ _
  have hnil : valuesOf [] "Content-Type".toList = [] := rfl
  -- each style was related to the fields of the request; here the fields are compared
  constructor
  case go =>
    refine ⟨calls, hcalls, happly.trans (funext fun name => ?_)⟩
    rw [List.nil_append, sentFields, List.append_assoc, valuesOf_append,
      Headers.valuesOf_sent σ hnames]
  case python_fails => exact Python.exists_error_iff
  case repeats =>
    rw [Headers.hasRepeatedNames, Headers.pairwise_sent_iff σ hnames, Option.isSome_iff_ne_none]
  case python =>
    intro p hp
    exact ⟨Python.fields?_ofRequest σ hp, Python.pairwise_sentFields σ hp hnames⟩
  case rust => exact Rust.fields?_ofRequest σ
  case http =>
    intro m hm
    exact Message.fields_ofRequest σ hm hcredentials
  case contentType =>
    intro style fields h
    -- around the fields of a style there may be others, but none of them is a type
    cases style with
    | go =>
      obtain rfl : calls.map Go.FieldCall.field = fields := by
        simpa [givenFields?, Go.Program.ofRequest, hcalls] using h
      have hfields := hgiven.trans ((List.append_assoc _ _ _).trans (List.append_nil _).symm)
      exact contentType_of_fields hnames hfields hnil (List.Sublist.refl _) hnil
    | python =>
      obtain ⟨p, hp, hfields⟩ := Option.bind_eq_some_iff.1 h
      rw [Python.fields?_ofRequest σ (Except.eq_ok_of_toOption hp)] at hfields
      obtain rfl := Option.some.inj hfields
      exact contentType_of_fields hnames (List.append_nil _).symm hnil hsub hnil
    | rust =>
      obtain rfl := Option.some.inj ((Rust.fields?_ofRequest σ).symm.trans h)
      exact contentType_of_fields hnames (List.append_nil _).symm hnil hsub hnil
    | http =>
      obtain ⟨m, hm, rfl⟩ := Option.map_eq_some_iff.1 h
      obtain ⟨host, length, hfields, hhost, hlength⟩ :=
        Message.fields_ofRequest σ (Except.eq_ok_of_toOption hm) hcredentials
      have hfront := valuesOf_contentType_of_names hhost (by decide)
      have hback := valuesOf_contentType_of_names hlength (by decide)
      exact contentType_of_fields hnames hfields hfront hsub hback

/-- A name in two spellings, the second with a variable for its value, and a body with a type. -/
theorem sendsAlike_tagged :
    let first : Header := ⟨Word.ofString "X-Tag", Word.ofString "one"⟩
    let second : Header := ⟨Word.ofString "x-tag", Word.ofReference ⟨"V".toList, false⟩⟩
    let body := Body.raw (Word.ofString "[]") (Word.ofString "application/json")
    let url := Word.ofString "http://x/"
    let r := (Request.mk none url [first, second] none body []).withVariables
    let σ : Environment := fun _ => some "two".toList
    r.SendsAlike σ [] ∧ (∃ e, r.render .python = .error e) ∧
      ∃ calls, Go.fieldCalls? σ [] (Go.Program.ofRequest r).statements = some calls ∧
        calls.foldl Go.FieldCall.apply (fun _ => []) "X-TAG".toList =
          ["one".toList, "two".toList] ∧
        calls.foldl Go.FieldCall.apply (fun _ => []) "content-type".toList =
          ["application/json".toList] := by
  intro first second body url r σ
  have hnames : r.headers.HasLiteralNames := by
    intro h hh
    rcases List.mem_cons.1 hh with rfl | hh
    · rfl
    · obtain rfl := List.mem_singleton.1 hh
      rfl
  have hsends : r.SendsAlike σ [] := sendsAlike hnames rfl
  obtain ⟨calls, hcalls, happly⟩ := hsends.go
  refine ⟨hsends, hsends.python_fails.2 (by decide), calls, hcalls, ?_, ?_⟩
  · rw [happly]
    decide
  · rw [happly]
    decide

end Request
end CurlScribe
