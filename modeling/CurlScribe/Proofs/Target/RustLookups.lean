import CurlScribe.Proofs.Request.Variables
import CurlScribe.Proofs.Target.Lookups
import CurlScribe.Proofs.Target.RustShape

/-!
# Look-ups of Rust programs

The calls of a program look up the variables of its words, in order. The path of the function that
looks variables up begins like those of other functions, but none of these goes on like it.
-/

namespace CurlScribe
namespace Rust
open Code Target

/-! ## Words of programs -/

def FormCall.words : FormCall → List Word
  | .text name value => [name, value]
  | .file name path => [name, path]
  | .renamed name path filename => [name, path, filename]
  | .contents name path => [name, path]

def Start.words : Start → List Word
  | .general method => [method]
  | _ => []

def RequestCall.words : RequestCall → List Word
  | .header name value => [name, value]
  | .credentials user password => [user, password]
  | .body content => [content]
  | .bodyFile path => [path]
  | .form => []

/-- The words of a program, in the order of its calls. -/
def Program.words (p : Program) : List Word :=
  p.form.toList.flatten.flatMap FormCall.words ++ p.start.words ++ [p.url]
    ++ p.calls.flatMap RequestCall.words

/-! ## Expressions -/

/-- A look-up looks its variable up. -/
theorem looksUp_lookupCode (name : Text) :
    LooksUp rustOpening IsPhrase (lookupCode name) [name] := ⟨isPhrase_lookupCode name, rfl, rfl⟩

/-- Operands look up what they are, borrowed or not. -/
theorem looksUpOperands : LooksUpOperands rustOpening operandCode where
  literal _ := ⟨rfl, rfl, rfl⟩
  lookup name := ⟨isPhrase_operandCode (.lookup name), rfl, rfl⟩

/-- The expression for a word looks up its variables, in order. -/
theorem looksUp_exprCode (w : Word) :
    LooksUp rustOpening IsPhrase (exprCode w) w.variableNames := by
  have hopen : LooksUp rustOpening IsLine (fixed "[") [] := by decide
  have hclose : LooksUp rustOpening IsFrame (fixed "].concat()") [] := by decide
  rw [← Word.filterMap_operands]
  unfold exprCode
  split
  next t h =>
    rw [h]
    exact ⟨rfl, rfl, rfl⟩
  next name h =>
    rw [h]
    exact looksUp_lookupCode name
  next =>
    have hoperands := (looksUpOperands.operands w.operands).join separates_rust.comma
    have harray := (hopen.append_phrase hoperands).append_frame hclose
    simpa using harray.mono IsLine.isPhrase

theorem allLookUp_exprs (words : List Word) :
    AllLookUp rustOpening (words.map exprCode) (words.flatMap Word.variableNames) :=
  .map fun w _ => looksUp_exprCode w

/-- A function or method that is called with words. -/
theorem looksUp_call (name : String) (h : LooksUp rustOpening IsPhrase (fixed name) [])
    (words : List Word) :
    LooksUp rustOpening IsLine (fixed name ++ arguments (words.map exprCode))
      (words.flatMap Word.variableNames) := h.call separates_rust (allLookUp_exprs words)

/-- A call whose failure ends the program. -/
theorem looksUp_checked (name : String) (h : LooksUp rustOpening IsPhrase (fixed name) [])
    (words : List Word) :
    LooksUp rustOpening IsLine (fixed name ++ arguments (words.map exprCode) ++ fixed "?")
      (words.flatMap Word.variableNames) := by
  have hquestion : LooksUp rustOpening IsFrame (fixed "?") [] := by decide
  simpa using ((looksUp_call name h words).mono IsLine.isPhrase).append_frame hquestion

/-! ## Calls -/

/-- A call that adds a form part looks up the variables of its words. -/
theorem looksUp_formCall (call : FormCall) :
    LooksUp rustOpening IsLine call.code (call.words.flatMap Word.variableNames) := by
  have htext : LooksUp rustOpening IsPhrase (fixed ".text") [] := by decide
  cases call with
  | text name value => exact looksUp_call ".text" htext [name, value]
  | file name path => exact looksUp_checked ".file" (by decide) [name, path]
  | renamed name path filename =>
    have hpart : LooksUp rustOpening IsPhrase (fixed ".part") [] := by decide
    have hfile := looksUp_call "multipart::Part::file" (by decide) [path]
    have hrename : LooksUp rustOpening IsPhrase (fixed "?.file_name") [] := by decide
    have hnamed := (hfile.append_phrase hrename).call separates_rust (allLookUp_exprs [filename])
    simpa [FormCall.code, FormCall.words] using hpart.call separates_rust
      (.pair (looksUp_exprCode name) (hnamed.mono IsLine.isPhrase))
  | contents name path =>
    have hread := looksUp_checked "std::fs::read_to_string" (by decide) [path]
    simpa [FormCall.code, FormCall.words] using htext.call separates_rust
      (.pair (looksUp_exprCode name) (hread.mono IsLine.isPhrase))

/-- A call of the chain looks up the variables of its words. -/
theorem looksUp_requestCall (call : RequestCall) :
    LooksUp rustOpening IsLine call.code (call.words.flatMap Word.variableNames) := by
  have hbody : LooksUp rustOpening IsPhrase (fixed ".body") [] := by decide
  cases call with
  | header name value => exact looksUp_call ".header" (by decide) [name, value]
  | credentials user password =>
    have hauth : LooksUp rustOpening IsPhrase (fixed ".basic_auth") [] := by decide
    have hsome := looksUp_call "Some" (by decide) [password]
    simpa [RequestCall.code, RequestCall.words] using hauth.call separates_rust
      (.pair (looksUp_exprCode user) (hsome.mono IsLine.isPhrase))
  | body content => exact looksUp_call ".body" hbody [content]
  | bodyFile path =>
    have hopen := looksUp_checked "std::fs::File::open" (by decide) [path]
    simpa [RequestCall.code, RequestCall.words] using hbody.call separates_rust
      (.single (hopen.mono IsLine.isPhrase))
  | form => decide

/-! ## Programs -/

/-- A program whose modules, function and constant look up nothing. -/
structure Program.IsPlain (p : Program) : Prop where
  imports : ∀ path ∈ p.imports,
    LooksUp rustOpening IsLine (fixed "use " ++ [.code path] ++ fixed ";\n") []
  shortcut : ∀ function, p.start = .shortcut function →
    LooksUp rustOpening IsPhrase [.code function] []
  constant : ∀ name, p.start = .constant name → LooksUp rustOpening IsPhrase [.code name] []

/-- The start of the chain looks up the variables of the method and the URL. -/
theorem looksUp_start {p : Program} (h : p.IsPlain) :
    LooksUp rustOpening IsLine (p.start.code p.url)
      ((p.start.words ++ [p.url]).flatMap Word.variableNames) := by
  have hrequest : LooksUp rustOpening IsPhrase (fixed "client.request") [] := by decide
  unfold Start.code
  cases hstart : p.start with
  | shortcut function =>
    have hclient : LooksUp rustOpening IsLine (fixed "client.") [] := by decide
    have hfunction := hclient.append_phrase (h.shortcut function hstart)
    exact hfunction.call separates_rust (allLookUp_exprs [p.url])
  | constant name =>
    have hmethods : LooksUp rustOpening IsLine (fixed "reqwest::Method::") [] := by decide
    have hconstant := hmethods.append_phrase (h.constant name hstart)
    simpa [Start.words] using
      hrequest.call separates_rust (.pair hconstant (looksUp_exprCode p.url))
  | general method =>
    have hfrom : LooksUp rustOpening IsLine (fixed "reqwest::Method::from_bytes(") [] := by decide
    have hbytes : LooksUp rustOpening IsFrame (fixed ".as_bytes())?") [] := by decide
    have hmethod := (hfrom.append_phrase (looksUp_exprCode method)).append_frame hbytes
    simpa [Start.words] using hrequest.call separates_rust
      (.pair (hmethod.mono IsLine.isPhrase) (looksUp_exprCode p.url))

theorem looksUp_formCode (form : Option (List FormCall)) :
    LooksUp rustOpening IsLine (formCode form)
      ((form.toList.flatten.flatMap FormCall.words).flatMap Word.variableNames) := by
  cases form with
  | none => exact looksUp_nil
  | some calls =>
    have hnew : LooksUp rustOpening IsLine (fixed "    let form = multipart::Form::new()") [] := by
      decide
    have hindent : LooksUp rustOpening IsLine (fixed "\n        ") [] := by decide
    have hend : LooksUp rustOpening IsLine (fixed ";\n") [] := by decide
    have hcalls := looksUp_flatMap fun call (_ : call ∈ calls) =>
      hindent.append (looksUp_formCall call)
    simpa [formCode, List.flatMap_assoc] using (hnew.append hcalls).append hend

theorem looksUp_chainCode (calls : List RequestCall) :
    LooksUp rustOpening IsLine (chainCode calls)
      ((calls.flatMap RequestCall.words).flatMap Word.variableNames) := by
  have hindent : LooksUp rustOpening IsLine (fixed "        ") [] := by decide
  have hend : LooksUp rustOpening IsLine (fixed "\n") [] := by decide
  have hcalls := looksUp_flatMap fun call (_ : call ∈ calls) =>
    (hindent.append (looksUp_requestCall call)).append hend
  simpa [chainCode, List.flatMap_assoc] using hcalls

/-- The code of a program looks up the variables of its words. -/
theorem Program.looksUp_code {p : Program} (h : p.IsPlain) :
    LooksUp rustOpening IsLine p.code (p.words.flatMap Word.variableNames) := by
  have himports : LooksUp rustOpening IsLine (p.imports.flatMap fun path =>
      fixed "use " ++ [.code path] ++ fixed ";\n") [] := by
    have hnone : p.imports.flatMap (fun _ => ([] : List Text)) = [] := by simp
    rw [← hnone]
    exact looksUp_flatMap h.imports
  have hmain : LooksUp rustOpening IsLine
      (fixed "\nfn main() -> Result<(), Box<dyn std::error::Error>> \x7b\n") [] := by decide
  have hclient : LooksUp rustOpening IsLine (fixed "    let client = Client::new();\n") [] := by
    decide
  have hresponse : LooksUp rustOpening IsLine (fixed "    let response = ") [] := by decide
  have hend : LooksUp rustOpening IsLine (fixed "\n") [] := by decide
  have hsend : LooksUp rustOpening IsLine (fixed "        .send()?;\n    println!(") [] := by decide
  have hbraces : LooksUp rustOpening IsPhrase (quoted "\x7b\x7d".toList) [] := by decide
  have hprint : LooksUp rustOpening IsFrame
      (fixed ", response.text()?);\n    Ok(())\n\x7d\n") [] := by decide
  have hfront := ((himports.append hmain).append hclient).append (looksUp_formCode p.form)
  have hchain := (((hfront.append hresponse).append (looksUp_start h)).append hend).append
    (looksUp_chainCode p.calls)
  have hcode := ((hchain.append hsend).append_phrase hbraces).append_frame hprint
  simpa [Program.code, Program.words] using hcode

/-! ## Programs for requests -/

/-- A start that the client has for a method is one of those that it has at all. -/
theorem verb_of_ofMethod (method : Word) :
    Start.ofMethod method = .general method ∨ ∃ verb, method.literal? = some verb ∧
      (verb ∈ shortcuts ∧ Start.ofMethod method = .shortcut (Text.lower verb) ∨
        verb ∈ constants ∧ Start.ofMethod method = .constant verb) := by
  unfold Start.ofMethod
  cases hverb : method.literal? with
  | none => exact .inl rfl
  | some verb =>
    dsimp only
    split_ifs with hshortcut hconstant
    · exact .inr ⟨verb, rfl, .inl ⟨List.contains_iff_mem.1 hshortcut, rfl⟩⟩
    · exact .inr ⟨verb, rfl, .inr ⟨List.contains_iff_mem.1 hconstant, rfl⟩⟩
    · exact .inl rfl

/-- The fixed names in the program of a request are no look-ups. -/
theorem isPlain_ofRequest (r : Request) : (Program.ofRequest r).IsPlain := by
  have hpaths : ∀ path ∈ ["reqwest::blocking::Client".toList,
      "reqwest::blocking::multipart".toList],
      LooksUp rustOpening IsLine (fixed "use " ++ [.code path] ++ fixed ";\n") [] := by decide
  have hfunctions : ∀ verb ∈ shortcuts,
      LooksUp rustOpening IsPhrase [.code (Text.lower verb)] [] := by decide
  have hconstants : ∀ verb ∈ constants, LooksUp rustOpening IsPhrase [.code verb] [] := by decide
  constructor
  case imports =>
    intro path hpath
    exact hpaths path (imports_ofRequest r path hpath)
  case shortcut =>
    intro function h
    have h : Start.ofMethod r.effectiveMethod = .shortcut function := h
    rcases verb_of_ofMethod r.effectiveMethod with hs | ⟨verb, -, ⟨hverb, hs⟩ | ⟨-, hs⟩⟩
    · cases hs.symm.trans h
    · cases hs.symm.trans h
      exact hfunctions verb hverb
    · cases hs.symm.trans h
  case constant =>
    intro name h
    have h : Start.ofMethod r.effectiveMethod = .constant name := h
    rcases verb_of_ofMethod r.effectiveMethod with hs | ⟨verb, -, ⟨-, hs⟩ | ⟨hverb, hs⟩⟩
    · cases hs.symm.trans h
    · cases hs.symm.trans h
    · cases hs.symm.trans h
      exact hconstants _ hverb

/-- Only methods without variables are written as names. -/
theorem variableNames_ofMethod (method : Word) :
    (Start.ofMethod method).words.flatMap Word.variableNames = method.variableNames := by
  rcases verb_of_ofMethod method with hs | ⟨verb, hliteral, ⟨-, hs⟩ | ⟨-, hs⟩⟩ <;> rw [hs]
  · simp [Start.words]
  · simp [Start.words, Word.variableNames, Word.references_of_literal? hliteral]
  · simp [Start.words, Word.variableNames, Word.references_of_literal? hliteral]

/-- A part is added with the variables of its words: a name that the path gives repeats its
variables. -/
theorem mem_words_ofPart (part : FormPart) (n : Text) :
    n ∈ (FormCall.ofPart part).words.flatMap Word.variableNames ↔
      n ∈ part.words.flatMap Word.variableNames := by
  cases part with
  | field name value => rfl
  | fileContent name path => rfl
  | file name filename path =>
    unfold FormCall.ofPart
    dsimp only
    split
    next h =>
      have hpath := FormPart.mem_variableNames_of_isNamedByPath (n := n) h
      simp [FormCall.words, FormPart.words]
      tauto
    next =>
      simp [FormCall.words, FormPart.words]
      tauto

/-- The program for a request has the words that the request sends. -/
theorem mem_words_ofRequest (r : Request) (n : Text) :
    n ∈ (Program.ofRequest r).words.flatMap Word.variableNames ↔
      n ∈ r.sentWords.flatMap Word.variableNames := by
  have hbody : n ∈ ((formOf r.body).toList.flatten.flatMap FormCall.words).flatMap
        Word.variableNames ∨
        n ∈ ((bodyCalls r.body).flatMap RequestCall.words).flatMap Word.variableNames ↔
      n ∈ r.body.sentWords.flatMap Word.variableNames := by
    cases r.body with
    | multipart parts =>
      have hparts : n ∈ ((parts.map FormCall.ofPart).flatMap FormCall.words).flatMap
          Word.variableNames ↔ n ∈ (parts.flatMap FormPart.words).flatMap Word.variableNames := by
        induction parts with
        | nil => rfl
        | cons part rest ih =>
          simp only [List.map_cons, List.flatMap_cons, List.flatMap_append, List.mem_append, ih,
            mem_words_ofPart]
      simpa [formOf, bodyCalls, RequestCall.words, Body.sentWords] using hparts
    | _ => simp [formOf, bodyCalls, RequestCall.words, Body.sentWords]
  have hcalls : ((callsOf r).flatMap RequestCall.words).flatMap Word.variableNames =
      (r.headers.flatMap fun h => [h.name, h.value]).flatMap Word.variableNames
        ++ r.impliedContentType?.toList.flatMap Word.variableNames
        ++ (r.credentials.toList.flatMap fun c => [c.user, c.password]).flatMap Word.variableNames
        ++ ((bodyCalls r.body).flatMap RequestCall.words).flatMap Word.variableNames := by
    simp [callsOf, Word.ofString, List.flatMap_map, List.flatMap_assoc, RequestCall.words]
  have hwords : (Program.ofRequest r).words = (formOf r.body).toList.flatten.flatMap FormCall.words
      ++ (Start.ofMethod r.effectiveMethod).words ++ [r.url]
      ++ (callsOf r).flatMap RequestCall.words := rfl
  simp only [hwords, hcalls, Request.sentWords, List.flatMap_append, List.mem_append, ← hbody,
    variableNames_ofMethod, List.flatMap_cons, List.flatMap_nil, List.append_nil]
  tauto

end Rust
end CurlScribe
