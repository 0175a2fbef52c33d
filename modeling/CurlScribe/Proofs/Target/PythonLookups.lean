import CurlScribe.Proofs.Request.Variables
import CurlScribe.Proofs.Target.Lookups
import CurlScribe.Proofs.Target.PythonShape

/-!
# Look-ups of Python programs

The lines of a program look up the variables of its words, in the order in which the lines have
them. The lines that import modules stand apart: one ends with the name at which look-ups begin.
-/

namespace CurlScribe
namespace Python
open Code Target

/-! ## Words of programs -/

def EntryValue.words : EntryValue → List Word
  | .text value => [value]
  | .attachment filename _ => [filename]
  | .contents _ => []

def Entry.words (e : Entry) : List Word := e.name :: e.value.words

/-- The text that is assigned before the call. -/
def Content.dataWords : Content → List Word
  | .data content => [content]
  | _ => []

/-- The words of the entries of a multipart body. -/
def Content.entryWords : Content → List Word
  | .entries es => es.flatMap Entry.words
  | _ => []

def Call.words : Call → List Word
  | .shortcut _ => []
  | .general method => [method]

/-- The words of a program, in the order of its lines. -/
def Program.words (p : Program) : List Word :=
  (p.headers.flatMap fun h => [h.1, h.2]) ++ p.content.dataWords ++ p.files
    ++ p.content.entryWords ++ p.call.words ++ [p.url]
    ++ (p.credentials.toList.flatMap fun c => [c.1, c.2])

/-! ## Expressions -/

/-- Operands look up what they are, and nothing in literals. -/
theorem looksUpOperands : LooksUpOperands pythonOpening operandCode where
  literal _ := ⟨rfl, rfl, rfl⟩
  lookup name := ⟨(isSolid_operandCode (.lookup name)).isPhrase, rfl, rfl⟩

/-- The expression for a word looks up its variables, in order. -/
theorem looksUp_exprCode (w : Word) :
    LooksUp pythonOpening IsPhrase (exprCode w) w.variableNames := by
  have hsep : LooksUp pythonOpening IsFrame (fixed " + ") [] := by decide
  rw [← Word.filterMap_operands]
  exact (looksUpOperands.operands w.operands).join hsep

/-- A handle looks nothing up. -/
theorem looksUp_fileName (n : Nat) : LooksUp pythonOpening IsPhrase (fileName n) [] := by
  refine looksUp_name (isName_file n) ?_
  simp [pythonOpening]

theorem looksUp_entryValue (v : EntryValue) :
    LooksUp pythonOpening IsPhrase v.code (v.words.flatMap Word.variableNames) := by
  have hnone : LooksUp pythonOpening IsLine (fixed "(None, ") [] := by decide
  cases v with
  | text value =>
    have h := (hnone.append_phrase (looksUp_exprCode value)).append_frame separates_python.close
    simpa [EntryValue.code, EntryValue.words] using h.mono IsLine.isPhrase
  | attachment filename file =>
    have h := (AllLookUp.pair (looksUp_exprCode filename) (looksUp_fileName file)).arguments
      separates_python
    simpa [EntryValue.code, EntryValue.words] using h.mono fun hf => hf.isTail.isPhrase
  | contents file =>
    have hread : LooksUp pythonOpening IsFrame (fixed ".read())") [] := by decide
    have h := (hnone.append_phrase (looksUp_fileName file)).append_frame hread
    simpa [EntryValue.code, EntryValue.words] using h.mono IsLine.isPhrase

/-! ## Lines -/

/-- Indentation looks nothing up. -/
theorem allLookUp_indent {lines : List Code} {names : List Text}
    (h : AllLookUp pythonOpening lines names) :
    AllLookUp pythonOpening (lines.map indent) names := by
  have hspaces : LooksUp pythonOpening IsLine (fixed "    ") [] := by decide
  induction h with
  | nil => exact .nil
  | cons hline _ ih => exact .cons (hspaces.append_phrase hline) ih

/-- Lines with their line ends. -/
theorem looksUp_lines {lines : List Code} {names : List Text}
    (h : AllLookUp pythonOpening lines names) :
    LooksUp pythonOpening IsLine (lines.flatMap fun line => line ++ fixed "\n") names := by
  have hend : LooksUp pythonOpening IsFrame (fixed "\n") [] := by decide
  induction h with
  | nil => exact looksUp_nil
  | cons hline _ ih => simpa using (hline.append_frame hend).append ih

/-- An entry looks up the variables of its words. -/
theorem looksUp_entryLine (e : Entry) :
    LooksUp pythonOpening IsPhrase e.line (e.words.flatMap Word.variableNames) := by
  have hopen : LooksUp pythonOpening IsLine (fixed "    (") [] := by decide
  have hclose : LooksUp pythonOpening IsFrame (fixed "),") [] := by decide
  have hname := (hopen.append_phrase (looksUp_exprCode e.name)).append_frame separates_python.comma
  have h := (hname.append_phrase (looksUp_entryValue e.value)).append_frame hclose
  simpa [Entry.line, Entry.words] using h.mono IsLine.isPhrase

/-- The header dictionary looks up the variables of names and values, in order. -/
theorem allLookUp_headerLines (headers : List (Word × Word)) :
    AllLookUp pythonOpening (headerLines headers)
      ((headers.flatMap fun h => [h.1, h.2]).flatMap Word.variableNames) := by
  have hopen : LooksUp pythonOpening IsPhrase (fixed "headers = \x7b") [] := by decide
  have hclose : LooksUp pythonOpening IsPhrase (fixed "\x7d") [] := by decide
  have hblank : LooksUp pythonOpening IsPhrase [] [] := by decide
  have hfields : AllLookUp pythonOpening (headers.map fun h =>
      fixed "    " ++ exprCode h.1 ++ fixed ": " ++ exprCode h.2 ++ fixed ",")
        (headers.flatMap fun h => h.1.variableNames ++ h.2.variableNames) := by
    have hspaces : LooksUp pythonOpening IsLine (fixed "    ") [] := by decide
    have hcolon : LooksUp pythonOpening IsFrame (fixed ": ") [] := by decide
    have hcomma : LooksUp pythonOpening IsFrame (fixed ",") [] := by decide
    refine .map fun h _ => ?_
    have hname := (hspaces.append_phrase (looksUp_exprCode h.1)).append_frame hcolon
    have hfield := (hname.append_phrase (looksUp_exprCode h.2)).append_frame hcomma
    simpa using hfield.mono IsLine.isPhrase
  unfold headerLines
  split
  next h =>
    rw [List.isEmpty_iff.1 h]
    exact .nil
  next =>
    simpa [List.flatMap_assoc] using
      ((AllLookUp.single hopen).append hfields).append (.pair hclose hblank)

theorem allLookUp_dataLines (content : Content) :
    AllLookUp pythonOpening (dataLines content)
      (content.dataWords.flatMap Word.variableNames) := by
  cases content with
  | data content =>
    have hdata : LooksUp pythonOpening IsLine (fixed "data = ") [] := by decide
    have hblank : LooksUp pythonOpening IsPhrase [] [] := by decide
    simpa [dataLines, Content.dataWords] using
      AllLookUp.pair (hdata.append_phrase (looksUp_exprCode content)) hblank
  | _ => exact .nil

/-- The entries of a form look up the variables of their words. -/
theorem allLookUp_entryLines (content : Content) :
    AllLookUp pythonOpening (entryLines content)
      (content.entryWords.flatMap Word.variableNames) := by
  cases content with
  | entries es =>
    have hopen : LooksUp pythonOpening IsPhrase (fixed "files = [") [] := by decide
    have hclose : LooksUp pythonOpening IsPhrase (fixed "]") [] := by decide
    have hentries : AllLookUp pythonOpening (es.map Entry.line)
        (es.flatMap fun e => e.words.flatMap Word.variableNames) :=
      .map fun e _ => looksUp_entryLine e
    simpa [entryLines, Content.entryWords, List.flatMap_assoc] using
      ((AllLookUp.single hopen).append hentries).append (.single hclose)
  | _ => exact .nil

/-- Files are opened under the variables of their paths. -/
theorem looksUp_withLine (files : List Word) :
    LooksUp pythonOpening IsPhrase (withLine files) (files.flatMap Word.variableNames) := by
  have hwith : LooksUp pythonOpening IsLine (fixed "with ") [] := by decide
  have hopen : LooksUp pythonOpening IsPhrase (fixed "open") [] := by decide
  have hmode : LooksUp pythonOpening IsPhrase (quoted "rb".toList) [] := by decide
  have has : LooksUp pythonOpening IsFrame (fixed " as ") [] := by decide
  have hcolon : LooksUp pythonOpening IsFrame (fixed ":") [] := by decide
  have hfile (i : Nat) (path : Word) : LooksUp pythonOpening IsPhrase
      (fixed "open" ++ arguments [exprCode path, quoted "rb".toList] ++ fixed " as " ++ fileName i)
      path.variableNames := by
    have hcall := hopen.call separates_python (.pair (looksUp_exprCode path) hmode)
    have hline := ((hcall.mono IsLine.isPhrase).append_frame has).append_phrase (looksUp_fileName i)
    simpa using hline
  have hfiles := AllLookUp.mapIdx hfile files
  simpa [withLine] using
    ((hwith.append_phrase (hfiles.join separates_python.comma)).append_frame hcolon).mono
      IsLine.isPhrase

/-- A program whose modules and function look up nothing. -/
structure Program.IsPlain (p : Program) : Prop where
  imports : ∀ name ∈ p.imports,
    LooksUp pythonOpening IsLine (fixed "import " ++ [.code name] ++ fixed "\n") []
  call : ∀ function, p.call = .shortcut function →
    LooksUp pythonOpening IsPhrase [.code function] []

theorem allLookUp_argumentCodes (p : Program) :
    AllLookUp pythonOpening p.argumentCodes
      ((p.credentials.toList.flatMap fun c => [c.1, c.2]).flatMap Word.variableNames) := by
  have hheaders : AllLookUp pythonOpening
      (if p.headers.isEmpty then [] else [fixed "headers=headers"]) [] := by
    split
    · exact .nil
    · exact .single (by decide)
  have hauth : LooksUp pythonOpening IsPhrase (fixed "auth=") [] := by decide
  have hcredentials : AllLookUp pythonOpening (p.credentials.toList.map fun c =>
      fixed "auth=" ++ arguments [exprCode c.1, exprCode c.2])
        ((p.credentials.toList.flatMap fun c => [c.1, c.2]).flatMap Word.variableNames) := by
    rw [List.flatMap_assoc]
    refine .map fun c _ => ?_
    simpa using (hauth.call separates_python
      (.pair (looksUp_exprCode c.1) (looksUp_exprCode c.2))).mono IsLine.isPhrase
  unfold Program.argumentCodes
  refine (hheaders.append (?content : AllLookUp pythonOpening _ [])).append hcredentials
  case content =>
    split
    · exact .nil
    · exact .single (by decide)
    · exact .single (by decide)
    · exact .single (by decide)

/-- The call looks up the variables of its method, the URL and the credentials. -/
theorem looksUp_callLine {p : Program} (h : p.IsPlain) :
    LooksUp pythonOpening IsPhrase p.callLine
      ((p.call.words ++ [p.url] ++ p.credentials.toList.flatMap fun c => [c.1, c.2]).flatMap
        Word.variableNames) := by
  have hresponse : LooksUp pythonOpening IsLine (fixed "response = requests.") [] := by decide
  have hargs := AllLookUp.cons (looksUp_exprCode p.url) (allLookUp_argumentCodes p)
  unfold Program.callLine
  cases hcall : p.call with
  | shortcut function =>
    have hline := (h.call function hcall).call separates_python hargs
    simpa [Call.words] using hresponse.append_phrase (hline.mono IsLine.isPhrase)
  | general method =>
    have hrequest : LooksUp pythonOpening IsPhrase (fixed "request") [] := by decide
    have hline := hrequest.call separates_python (.cons (looksUp_exprCode method) hargs)
    simpa [Call.words] using hresponse.append_phrase (hline.mono IsLine.isPhrase)

/-- The request with the files that are open for it. -/
theorem allLookUp_requestLines {p : Program} (h : p.IsPlain) :
    AllLookUp pythonOpening
      (if p.files.isEmpty then p.requestLines
        else withLine p.files :: p.requestLines.map indent)
      ((p.files ++ p.content.entryWords ++ p.call.words ++ [p.url]
        ++ p.credentials.toList.flatMap fun c => [c.1, c.2]).flatMap Word.variableNames) := by
  have hlines : AllLookUp pythonOpening p.requestLines
      ((p.content.entryWords ++ p.call.words ++ [p.url]
        ++ p.credentials.toList.flatMap fun c => [c.1, c.2]).flatMap Word.variableNames) := by
    simpa [Program.requestLines] using
      (allLookUp_entryLines p.content).append (.single (looksUp_callLine h))
  split
  next hfiles =>
    rw [List.isEmpty_iff.1 hfiles]
    exact hlines
  next => simpa using AllLookUp.cons (looksUp_withLine p.files) (allLookUp_indent hlines)

/-- The code of a program looks up the variables of its words. -/
theorem Program.looksUp_code {p : Program} (h : p.IsPlain) :
    LooksUp pythonOpening IsLine p.code (p.words.flatMap Word.variableNames) := by
  have himports : LooksUp pythonOpening IsLine
      ((p.imports.map fun name => fixed "import " ++ [.code name]).flatMap fun line =>
        line ++ fixed "\n") [] := by
    have hnone : p.imports.flatMap (fun _ => ([] : List Text)) = [] := by simp
    rw [List.flatMap_map, ← hnone]
    exact looksUp_flatMap h.imports
  have hblank : LooksUp pythonOpening IsPhrase [] [] := by decide
  have hprint : LooksUp pythonOpening IsPhrase (fixed "print(response.text)") [] := by decide
  have hlines := (AllLookUp.single hblank).append (((allLookUp_headerLines p.headers).append
    (allLookUp_dataLines p.content)).append ((allLookUp_requestLines h).append
      (.pair hblank hprint)))
  simpa [Program.code, Program.lines, Program.frontLines, backLines, Program.words] using
    himports.append (looksUp_lines hlines)

/-! ## Programs for requests -/

/-- The fixed names in the program of a request are no look-ups. -/
theorem isPlain_ofRequest {r : Request} {p : Program} (h : Program.ofRequest r = .ok p) :
    p.IsPlain := by
  have hmodules : ∀ name ∈ ["os".toList, "requests".toList],
      LooksUp pythonOpening IsLine (fixed "import " ++ [.code name] ++ fixed "\n") [] := by decide
  have hfunctions : ∀ verb ∈ shortcuts,
      LooksUp pythonOpening IsPhrase [.code (Text.lower verb)] [] := by decide
  constructor
  · intro name hname
    exact hmodules name (imports_ofRequest h name hname)
  · intro function hcall
    obtain ⟨verb, hverb, rfl⟩ := call_ofRequest h hcall
    exact hfunctions verb hverb

/-- A method without a variable of its own is all that is not written as a word. -/
theorem variableNames_ofMethod (method : Word) :
    (Call.ofMethod method).words.flatMap Word.variableNames = method.variableNames := by
  unfold Call.ofMethod
  split
  next verb hverb =>
    split
    · simp [Call.words, Word.variableNames, Word.references_of_literal? hverb]
    · simp [Call.words]
  · simp [Call.words]

/-- The files and the entries have the words of the parts between them. -/
theorem mem_words_entriesOf (opened : Nat) (parts : List FormPart) (n : Text) :
    n ∈ (parts.filterMap FormPart.path?).flatMap Word.variableNames ∨
        n ∈ ((entriesOf opened parts).flatMap Entry.words).flatMap Word.variableNames ↔
      n ∈ (parts.flatMap FormPart.words).flatMap Word.variableNames := by
  induction parts generalizing opened with
  | nil => simp [entriesOf]
  | cons part rest ih =>
    have hfield := ih opened
    have hfile := ih (opened + 1)
    cases part <;>
      simp only [entriesOf, FormPart.path?, FormPart.words, Entry.words, EntryValue.words,
        List.filterMap_cons, List.flatMap_cons, List.mem_append, List.cons_append,
        List.nil_append] <;>
      grind

/-- The program for a request has the words that the request sends. -/
theorem mem_words_ofRequest {r : Request} {p : Program} (h : Program.ofRequest r = .ok p)
    (n : Text) :
    n ∈ p.words.flatMap Word.variableNames ↔ n ∈ r.sentWords.flatMap Word.variableNames := by
  unfold Program.ofRequest at h
  split at h
  · cases h
  · cases h
    have hbody : n ∈ (Content.ofBody r.body).dataWords.flatMap Word.variableNames ∨
        n ∈ (filesOf r.body).flatMap Word.variableNames ∨
          n ∈ (Content.ofBody r.body).entryWords.flatMap Word.variableNames ↔
        n ∈ r.body.sentWords.flatMap Word.variableNames := by
      cases r.body with
      | multipart parts =>
        simpa [Content.ofBody, Content.dataWords, Content.entryWords, filesOf, Body.sentWords]
          using mem_words_entriesOf 0 parts n
      | _ => simp [Content.ofBody, Content.dataWords, Content.entryWords, filesOf, Body.sentWords]
    have hheaders : ((headersOf r).flatMap fun h => [h.1, h.2]).flatMap Word.variableNames =
        (r.headers.flatMap fun h => [h.name, h.value]).flatMap Word.variableNames ++
          r.impliedContentType?.toList.flatMap Word.variableNames := by
      simp [headersOf, Word.ofString, List.flatMap_map, List.flatMap_assoc]
    have hcredentials : ((r.credentials.map fun c => (c.user, c.password)).toList.flatMap
        fun c => [c.1, c.2]) = r.credentials.toList.flatMap fun c => [c.user, c.password] := by
      cases r.credentials <;> rfl
    simp only [Program.words, Request.sentWords, List.flatMap_append, List.mem_append, hheaders,
      hcredentials, ← hbody, variableNames_ofMethod, List.flatMap_cons, List.flatMap_nil,
      List.append_nil]
    grind

end Python
end CurlScribe
