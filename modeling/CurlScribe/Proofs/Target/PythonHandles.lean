import CurlScribe.Proofs.Target.Lookups
import CurlScribe.Proofs.Target.PythonShape

/-!
# Open files of Python programs

The variables that hold open files are told by their names, and are looked for among the tokens of a
program, so that a literal that looks like one does not count. Every line of a program is searched
here: those that open files and those that make the request have such variables, and no others do.
-/

namespace CurlScribe
namespace Target

/-- The variable of an open file, if the token is one. -/
def Token.handle? : Token → Option Text
  | .name t => if "file_".toList.isPrefixOf t then some t else none
  | _ => none

/-- The variables of open files that a text names, in order, if it can be read. -/
def handlesIn (t : Text) : Option (List Text) :=
  (pythonLexicon.lex t).map fun tokens => tokens.filterMap Token.handle?

end Target

/-! ## Code -/

namespace Code
open Target

/-- The variables of open files that code names, in order. -/
def handles (code : Code) : List Text := code.tokens.filterMap Token.handle?

/-- The handles in the text of code are those of its tokens. -/
theorem IsPhrase.handlesIn_text {code : Code} (h : code.IsPhrase) :
    handlesIn (code.text PythonLiteral.quote) = some code.handles := by
  rw [handlesIn, h.lex_text reads_python]
  rfl

/-- Code of the given shape that names the given variables of open files, in order. -/
structure Holds (shape : Code → Prop) (code : Code) (names : List Text) : Prop where
  shape : shape code
  handles_eq : code.handles = names

instance {shape : Code → Prop} [DecidablePred shape] (code : Code) (names : List Text) :
    Decidable (Holds shape code names) :=
  decidable_of_iff (shape code ∧ code.handles = names)
    ⟨fun ⟨hs, hn⟩ => ⟨hs, hn⟩, fun ⟨hs, hn⟩ => ⟨hs, hn⟩⟩

variable {a b : Code} {m n : List Text}

theorem Holds.mono {shape shape' : Code → Prop} (h : Holds shape a m)
    (himp : shape a → shape' a) : Holds shape' a m :=
  ⟨himp h.shape, h.handles_eq⟩

/-- Code side by side mentions what each side does, if no word goes over the seam. -/
theorem Holds.append_of {shape : Code → Prop} (ha : Holds IsPhrase a m) (hb : Holds IsPhrase b n)
    (h : a.IsLine ∨ b.IsTail) (hshape : shape (a ++ b)) : Holds shape (a ++ b) (m ++ n) := by
  refine ⟨hshape, ?_⟩
  rw [handles, tokens_append ha.shape hb.shape h, List.filterMap_append, ← ha.handles_eq,
    ← hb.handles_eq]
  rfl

/-- A phrase behind a line. -/
theorem Holds.append_phrase (ha : Holds IsLine a m) (hb : Holds IsPhrase b n) :
    Holds IsPhrase (a ++ b) (m ++ n) :=
  (ha.mono IsLine.isPhrase).append_of hb (.inl ha.shape) (ha.shape.append_phrase hb.shape)

/-- A frame behind a phrase. -/
theorem Holds.append_frame (ha : Holds IsPhrase a m) (hb : Holds IsFrame b n) :
    Holds IsLine (a ++ b) (m ++ n) :=
  ha.append_of (hb.mono fun h => h.isTail.isPhrase) (.inr hb.shape.isTail)
    (ha.shape.append_frame hb.shape)

/-- A line behind a line. -/
theorem Holds.append (ha : Holds IsLine a m) (hb : Holds IsLine b n) :
    Holds IsLine (a ++ b) (m ++ n) :=
  (ha.mono IsLine.isPhrase).append_of (hb.mono IsLine.isPhrase) (.inl ha.shape)
    (ha.shape.append hb.shape)

/-- A name is at most one handle. -/
theorem handles_name {name : Text} (h : Text.isName name = true) :
    handles [.code name] = (Token.name name).handle?.toList := by
  rw [handles, tokens_name h, List.filterMap_cons]
  cases (Token.name name).handle? <;> rfl

section Rows

variable {codes : List Code} (h : ∀ c ∈ codes, IsPhrase c)

include h

/-- A frame between each code and the next. -/
theorem holds_join {sep : String} (hsep : Holds IsFrame (fixed sep) []) :
    Holds IsPhrase (join sep codes) (codes.flatMap handles) := by
  induction codes with
  | nil => exact ⟨isLine_nil.isPhrase, rfl⟩
  | cons c codes ih =>
    obtain ⟨hc, hcodes⟩ := List.forall_mem_cons.1 h
    have hfirst : Holds IsPhrase c c.handles := ⟨hc, rfl⟩
    cases codes with
    | nil => simpa [join] using hfirst
    | cons d codes =>
      have hpieces := (hfirst.append_frame hsep).append_phrase (ih hcodes)
      rw [List.append_nil] at hpieces
      rw [join, List.intercalate_cons_cons]
      exact hpieces

/-- A call mentions the handles of its arguments, in order. -/
theorem holds_arguments : Holds IsFrame (arguments codes) (codes.flatMap handles) := by
  have hopen : Holds IsLine (fixed "(") [] := by decide
  have hcomma : Holds IsFrame (fixed ", ") [] := by decide
  have hclose : Holds IsFrame (fixed ")") [] := by decide
  have hline := (hopen.append_phrase (holds_join h hcomma)).append_frame hclose
  rw [List.nil_append, List.append_nil] at hline
  exact hline.mono fun _ => isFrame_arguments h

end Rows
end Code

/-! ## Lines of programs -/

namespace Python
open Code Target

/-- The variable that holds the open file of the given place. -/
def handle (n : Nat) : Text := "file_".toList ++ Text.ofNat n

/-- Handles of different places have different names. -/
theorem handle_injective : Function.Injective handle := by
  intro m n h
  have hdigits : Text.ofNat m = Text.ofNat n := List.append_cancel_left h
  have hvalue (k : Nat) : Nat.ofDigitChars 10 (Text.ofNat k) 0 = k :=
    Nat.ofDigitChars_toDigits (by decide) (by decide)
  rw [← hvalue m, ← hvalue n, hdigits]

theorem holds_fileName (n : Nat) : Holds IsPhrase (fileName n) [handle n] := by
  have hstarts : "file_".toList.isPrefixOf (handle n) = true :=
    List.isPrefixOf_iff_prefix.2 (List.prefix_append _ _)
  refine ⟨(isSolid_fileName n).isPhrase, ?_⟩
  have hname : Code.handles [.code (handle n)] = _ := handles_name (isName_file n)
  rw [Token.handle?, if_pos hstarts] at hname
  exact hname

/-- No handle is mentioned in an expression: its names are those of look-ups, and texts are
quoted. -/
theorem handles_operandCode (op : Operand) : (operandCode op).handles = [] := by
  cases op with
  | literal t => rfl
  | lookup name => rfl

/-- Expressions name no open files, whatever their words say. -/
theorem holds_exprCode (w : Word) : Holds IsPhrase (exprCode w) [] := by
  have hsep : Holds IsFrame (fixed " + ") [] := by decide
  have hphrases : ∀ c ∈ w.operands.map operandCode, IsPhrase c := by
    intro c hc
    obtain ⟨op, -, rfl⟩ := List.mem_map.1 hc
    exact (isSolid_operandCode op).isPhrase
  have hjoin := holds_join hphrases hsep
  rw [List.flatMap_map, List.flatMap_eq_nil_iff.2 fun op _ => handles_operandCode op] at hjoin
  exact hjoin

/-- The files that the value of an entry is read from. -/
def EntryValue.handles : EntryValue → List Text
  | .text _ => []
  | .attachment _ file => [handle file]
  | .contents file => [handle file]

theorem holds_entryValue (v : EntryValue) : Holds IsPhrase v.code v.handles := by
  have hnone : Holds IsLine (fixed "(None, ") [] := by decide
  have hclose : Holds IsFrame (fixed ")") [] := by decide
  cases v with
  | text value =>
    exact ((hnone.append_phrase (holds_exprCode value)).append_frame hclose).mono IsLine.isPhrase
  | attachment filename file =>
    have hphrases : ∀ c ∈ [exprCode filename, fileName file], IsPhrase c := by
      simp [(isSolid_exprCode filename).isPhrase, (isSolid_fileName file).isPhrase]
    have harguments := holds_arguments hphrases
    simp only [List.flatMap_cons, (holds_exprCode filename).handles_eq,
      (holds_fileName file).handles_eq] at harguments
    exact harguments.mono fun h => h.isTail.isPhrase
  | contents file =>
    have hread : Holds IsFrame (fixed ".read())") [] := by decide
    exact ((hnone.append_phrase (holds_fileName file)).append_frame hread).mono IsLine.isPhrase

/-- An entry mentions the handle of its file, or none. -/
theorem holds_entryLine (e : Entry) : Holds IsPhrase e.line e.value.handles := by
  have hopen : Holds IsLine (fixed "    (") [] := by decide
  have hcomma : Holds IsFrame (fixed ", ") [] := by decide
  have hclose : Holds IsFrame (fixed "),") [] := by decide
  have hname := (hopen.append_phrase (holds_exprCode e.name)).append_frame hcomma
  have hline := (hname.append_phrase (holds_entryValue e.value)).append_frame hclose
  simp only [List.nil_append, List.append_nil] at hline
  exact hline.mono IsLine.isPhrase

theorem handles_indent {line : Code} (h : line.IsPhrase) :
    (indent line).handles = line.handles := by
  have hspaces : Holds IsLine (fixed "    ") [] := by decide
  exact (hspaces.append_phrase ⟨h, rfl⟩).handles_eq

/-- Header fields mention no handle. -/
theorem handles_headerLines (headers : List (Word × Word)) :
    ∀ line ∈ headerLines headers, line.handles = [] := by
  intro line hline
  unfold headerLines at hline
  split at hline
  · cases hline
  · simp only [List.mem_append, List.mem_cons, List.not_mem_nil, or_false] at hline
    rcases hline with (rfl | hline) | rfl | rfl
    · decide
    · obtain ⟨⟨name, value⟩, -, rfl⟩ := List.mem_map.1 hline
      have hspaces : Holds IsLine (fixed "    ") [] := by decide
      have hcolon : Holds IsFrame (fixed ": ") [] := by decide
      have hcomma : Holds IsFrame (fixed ",") [] := by decide
      have hname := (hspaces.append_phrase (holds_exprCode name)).append_frame hcolon
      exact ((hname.append_phrase (holds_exprCode value)).append_frame hcomma).handles_eq
    · decide
    · decide

theorem handles_dataLines (content : Content) :
    ∀ line ∈ dataLines content, line.handles = [] := by
  intro line hline
  cases content with
  | data content =>
    simp only [dataLines, List.mem_cons, List.not_mem_nil, or_false] at hline
    rcases hline with rfl | rfl
    · have hdata : Holds IsLine (fixed "data = ") [] := by decide
      exact (hdata.append_phrase (holds_exprCode content)).handles_eq
    · decide
  | _ => cases hline

/-- The open files that the body is sent from as a whole. -/
def Content.handles : Content → List Text
  | .openFile => [handle 0]
  | _ => []

/-- Of the arguments, only the content mentions a handle. -/
theorem handles_argumentCodes (p : Program) :
    p.argumentCodes.flatMap Code.handles = p.content.handles := by
  have hheaders : (if p.headers.isEmpty then [] else [fixed "headers=headers"]).flatMap
      Code.handles = [] := by
    split
    · rfl
    · decide
  have hcredentials : (p.credentials.toList.map fun c =>
      fixed "auth=" ++ arguments [exprCode c.1, exprCode c.2]).flatMap Code.handles = [] := by
    rw [List.flatMap_map, List.flatMap_eq_nil_iff]
    intro c _
    have hauth : Holds IsPhrase (fixed "auth=") [] := by decide
    have hphrases : ∀ d ∈ [exprCode c.1, exprCode c.2], IsPhrase d := by
      simp [(isSolid_exprCode c.1).isPhrase, (isSolid_exprCode c.2).isPhrase]
    rw [(hauth.append_frame (holds_arguments hphrases)).handles_eq]
    simp [(holds_exprCode c.1).handles_eq, (holds_exprCode c.2).handles_eq]
  rw [Program.argumentCodes, List.flatMap_append, List.flatMap_append, hheaders, List.nil_append]
  refine (congrArg (_ ++ ·) hcredentials).trans ?_
  rw [List.append_nil]
  cases p.content with
  | nothing => rfl
  | openFile => decide
  | data content =>
    show Code.handles (fixed "data=data") ++ [] = []
    decide
  | entries entries =>
    show Code.handles (fixed "files=files") ++ [] = []
    decide

/-- A program of which no module and no function is called like an open file. -/
structure Program.IsApart (p : Program) : Prop where
  imports : ∀ name ∈ p.imports, Code.handles (fixed "import " ++ [.code name]) = []
  call : ∀ function, p.call = .shortcut function → Code.handles [.code function] = []

/-- The call mentions the handle of the content, if that is a file. -/
theorem handles_callLine {p : Program} (hsound : p.IsSound) (h : p.IsApart) :
    p.callLine.handles = p.content.handles := by
  have hresponse : Holds IsLine (fixed "response = requests.") [] := by decide
  have hphrases : ∀ c ∈ exprCode p.url :: p.argumentCodes, IsPhrase c :=
    List.forall_mem_cons.2
      ⟨(isSolid_exprCode p.url).isPhrase, fun c hc => (isSolid_argumentCodes p c hc).isPhrase⟩
  have hargs : (exprCode p.url :: p.argumentCodes).flatMap Code.handles = p.content.handles := by
    rw [List.flatMap_cons, (holds_exprCode p.url).handles_eq, handles_argumentCodes]
    rfl
  unfold Program.callLine
  split
  next function hcall =>
    have hname : Holds IsPhrase [.code function] [] :=
      ⟨isPhrase_name (hsound.call function hcall), h.call function hcall⟩
    have hcode := (hname.append_frame (holds_arguments hphrases)).mono IsLine.isPhrase
    exact (hresponse.append_phrase hcode).handles_eq.trans hargs
  next method _ =>
    have hrequest : Holds IsPhrase (fixed "request") [] := by decide
    have hmore := List.forall_mem_cons.2 ⟨(isSolid_exprCode method).isPhrase, hphrases⟩
    have hcode := (hrequest.append_frame (holds_arguments hmore)).mono IsLine.isPhrase
    rw [(hresponse.append_phrase hcode).handles_eq, List.flatMap_cons, hargs,
      (holds_exprCode method).handles_eq]
    rfl

/-- The clause that opens a file, and holds it in the variable of its place. -/
def openClause (place : Nat) (path : Word) : Code :=
  fixed "open" ++ arguments [exprCode path, quoted "rb".toList] ++ fixed " as " ++ fileName place

/-- A clause mentions the handle that it opens. -/
theorem holds_openClause (place : Nat) (path : Word) :
    Holds IsPhrase (openClause place path) [handle place] := by
  have hopen : Holds IsPhrase (fixed "open") [] := by decide
  have has : Holds IsFrame (fixed " as ") [] := by decide
  have hphrases : ∀ c ∈ [exprCode path, quoted "rb".toList], IsPhrase c := by
    simp [(isSolid_exprCode path).isPhrase, isPhrase_quoted]
  have hnone : [exprCode path, quoted "rb".toList].flatMap Code.handles = [] := by
    rw [List.flatMap_cons, (holds_exprCode path).handles_eq]
    rfl
  have hcall := hopen.append_frame (holds_arguments hphrases)
  rw [hnone] at hcall
  exact ((hcall.mono IsLine.isPhrase).append_frame has).append_phrase (holds_fileName place)

/-- The files are opened under the names of their places, in order. -/
theorem handles_withLine (files : List Word) :
    (withLine files).handles = (List.range files.length).map handle := by
  have hwith : Holds IsLine (fixed "with ") [] := by decide
  have hcomma : Holds IsFrame (fixed ", ") [] := by decide
  have hcolon : Holds IsFrame (fixed ":") [] := by decide
  have hphrases : ∀ c ∈ files.mapIdx openClause, IsPhrase c := by
    intro c hc
    obtain ⟨i, hi, rfl⟩ := List.mem_mapIdx.1 hc
    exact (holds_openClause i _).shape
  have hnames : (files.mapIdx openClause).map Code.handles =
      (List.range files.length).map fun i => [handle i] := by
    refine List.ext_getElem (by simp) fun i _ _ => ?_
    simp [(holds_openClause i _).handles_eq]
  have hline := (hwith.append_phrase (holds_join hphrases hcomma)).append_frame hcolon
  show (fixed "with " ++ join ", " (files.mapIdx openClause) ++ fixed ":").handles = _
  rw [hline.handles_eq, List.nil_append, List.append_nil, List.flatMap_def, hnames,
    ← List.flatMap_def, List.map_eq_flatMap]

/-! ## Programs for requests -/

/-- Entries name the files of their parts, in order. -/
theorem handles_entriesOf (opened : Nat) (parts : List FormPart) :
    (entriesOf opened parts).flatMap (fun e => e.value.handles) =
      (List.range' opened (parts.filterMap FormPart.path?).length).map handle := by
  induction parts generalizing opened with
  | nil => rfl
  | cons part rest ih =>
    cases part with
    | field name value => exact ih opened
    | file name filename path =>
      rw [entriesOf, List.flatMap_cons, ih]
      rfl
    | fileContent name path =>
      rw [entriesOf, List.flatMap_cons, ih]
      rfl

/-- In the program of a request no fixed name is that of a handle. -/
theorem isApart_ofRequest {r : Request} {p : Program} (h : Program.ofRequest r = .ok p) :
    p.IsApart := by
  have hmodules : ∀ name ∈ ["os".toList, "requests".toList],
      Code.handles (fixed "import " ++ [.code name]) = [] := by decide
  have hfunctions : ∀ verb ∈ shortcuts, Code.handles [.code (Text.lower verb)] = [] := by decide
  constructor
  · intro name hname
    exact hmodules name (imports_ofRequest h name hname)
  · intro function hcall
    obtain ⟨verb, hverb, rfl⟩ := call_ofRequest h hcall
    exact hfunctions verb hverb

theorem files_ofRequest {r : Request} {p : Program} (h : Program.ofRequest r = .ok p) :
    p.files = filesOf r.body := by
  unfold Program.ofRequest at h
  split at h
  · cases h
  · obtain rfl := Except.ok.inj h
    rfl

theorem content_ofRequest {r : Request} {p : Program} (h : Program.ofRequest r = .ok p) :
    p.content = Content.ofBody r.body := by
  unfold Program.ofRequest at h
  split at h
  · cases h
  · obtain rfl := Except.ok.inj h
    rfl

/-- The lines that make a request name every file once, in order. -/
theorem handles_requestLines {r : Request} {p : Program} (h : Program.ofRequest r = .ok p) :
    p.requestLines.flatMap Code.handles = (List.range p.files.length).map handle := by
  have hcall := handles_callLine (isSound_ofRequest h) (isApart_ofRequest h)
  rw [Program.requestLines, List.flatMap_append, List.flatMap_singleton, hcall,
    files_ofRequest h, content_ofRequest h]
  cases r.body with
  | multipart parts =>
    have hopen : Code.handles (fixed "files = [") = [] := by decide
    have hclose : Code.handles (fixed "]") = [] := by decide
    have hlines : ((entriesOf 0 parts).map Entry.line).flatMap Code.handles =
        (entriesOf 0 parts).flatMap fun e => e.value.handles := by
      rw [List.flatMap_map]
      exact List.flatMap_congr fun e _ => (holds_entryLine e).handles_eq
    show ([fixed "files = ["] ++ (entriesOf 0 parts).map Entry.line ++ [fixed "]"]).flatMap _ ++
      [] = _
    rw [List.flatMap_append, List.flatMap_append, List.flatMap_singleton, List.flatMap_singleton,
      hopen, hclose, hlines, handles_entriesOf, List.range_eq_range']
    simp [filesOf]
  | file path contentType => rfl
  | empty => rfl
  | raw content contentType => rfl
  | urlEncoded pairs => rfl

end Python
end CurlScribe
