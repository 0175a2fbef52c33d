import CurlScribe.Proofs.Target.Imports
import CurlScribe.Proofs.Target.Skeleton

/-!
# The shape of Rust programs

The code of a Rust program lexes whatever the request says: every call of the chain is a frame,
since it begins with a dot and ends with a parenthesis or a question mark. Up to erasure the code is
determined by the outline of the program, and that by the skeleton of the request.
-/

namespace CurlScribe
namespace Rust
open Code

/-! ## Expressions -/

theorem isPhrase_lookupCode (name : Text) : (lookupCode name).IsPhrase := by
  have hname : (fixed "std::env::var").IsPhrase := by decide
  have hargs : (arguments [quoted name]).IsFrame := isFrame_arguments (by simp [isPhrase_quoted])
  have hdefault : (fixed ".unwrap_or_default()").IsFrame := by decide
  exact (hname.append hargs.isTail).append hdefault.isTail

theorem isPhrase_operandCode (op : Operand) : (operandCode op).IsPhrase := by
  cases op with
  | literal t => rfl
  | lookup name =>
    have hborrow : (fixed ".as_str()").IsFrame := by decide
    exact (isPhrase_lookupCode name).append hborrow.isTail

/-- The expression for a word may stand behind a mark. -/
theorem isPhrase_exprCode (w : Word) : (exprCode w).IsPhrase := by
  unfold exprCode
  split
  · rfl
  · next name _ => exact isPhrase_lookupCode name
  · have hopen : (fixed "[").IsLine := by decide
    have hclose : (fixed "].concat()").IsFrame := by decide
    have hops : (join ", " (w.operands.map operandCode)).IsPhrase := by
      refine isPhrase_join (by decide) ?_
      intro c hc
      obtain ⟨op, -, rfl⟩ := List.mem_map.1 hc
      exact isPhrase_operandCode op
    exact (hopen.append_phrase hops).append hclose.isTail

/-- Arguments in their parentheses stand apart from what is around them. -/
theorem isFrame_exprs (words : List Word) : (arguments (words.map exprCode)).IsFrame := by
  refine isFrame_arguments ?_
  intro c hc
  obtain ⟨w, -, rfl⟩ := List.mem_map.1 hc
  exact isPhrase_exprCode w

/-! ## Calls -/

/-- A method of what stands before it, with expressions as its arguments. -/
theorem isFrame_method {name : String} (h : (fixed name).IsTail) (words : List Word) :
    (fixed name ++ arguments (words.map exprCode)).IsFrame :=
  h.append_frame (isFrame_exprs words)

/-- A call whose second argument is the result of a function. -/
theorem isFrame_nested {name : String} (h : (fixed name).IsTail) {codes : List Code}
    (hcodes : ∀ c ∈ codes, c.IsPhrase) : (fixed name ++ arguments codes).IsFrame :=
  h.append_frame (isFrame_arguments hcodes)

/-- A call that adds a form part stands apart from what is around it. -/
theorem isFrame_formCall (call : FormCall) : call.code.IsFrame := by
  have hquestion : (fixed "?").IsFrame := by decide
  cases call with
  | text name value => exact isFrame_method (by decide) [name, value]
  | file name path =>
    exact (isFrame_method (by decide) [name, path]).isTail.append_frame hquestion
  | renamed name path filename =>
    have hfile : (fixed "multipart::Part::file").IsPhrase := by decide
    have hname : (fixed "?.file_name").IsTail := by decide
    have hpart := ((hfile.append (isFrame_exprs [path]).isTail).append hname).append
      (isFrame_exprs [filename]).isTail
    exact isFrame_nested (by decide)
      (List.forall_mem_cons.2 ⟨isPhrase_exprCode name, List.forall_mem_singleton.2 hpart⟩)
  | contents name path =>
    have hread : (fixed "std::fs::read_to_string").IsPhrase := by decide
    have hcontents := (hread.append (isFrame_exprs [path]).isTail).append hquestion.isTail
    exact isFrame_nested (by decide)
      (List.forall_mem_cons.2 ⟨isPhrase_exprCode name, List.forall_mem_singleton.2 hcontents⟩)

/-- A call of the chain stands apart from what is around it. -/
theorem isFrame_requestCall (call : RequestCall) : call.code.IsFrame := by
  cases call with
  | header name value => exact isFrame_method (by decide) [name, value]
  | credentials user password =>
    have hsome : (fixed "Some").IsPhrase := by decide
    have hpassword := hsome.append (isFrame_exprs [password]).isTail
    exact isFrame_nested (by decide)
      (List.forall_mem_cons.2 ⟨isPhrase_exprCode user, List.forall_mem_singleton.2 hpassword⟩)
  | body content => exact isFrame_method (by decide) [content]
  | bodyFile path =>
    have hopen : (fixed "std::fs::File::open").IsPhrase := by decide
    have hquestion : (fixed "?").IsFrame := by decide
    have hfile := (hopen.append (isFrame_exprs [path]).isTail).append hquestion.isTail
    exact isFrame_nested (by decide) (List.forall_mem_singleton.2 hfile)
  | form => decide

/-! ## Programs -/

/-- A program in which what stands for a name is one. -/
structure Program.IsSound (p : Program) : Prop where
  imports : ∀ path ∈ p.imports, IsPhrase [.code path]
  shortcut : ∀ function, p.start = .shortcut function → Text.isName function = true
  constant : ∀ name, p.start = .constant name → Text.isName name = true

/-- The start of the chain may stand before anything. -/
theorem isLine_start {p : Program} (h : p.IsSound) : (p.start.code p.url).IsLine := by
  unfold Start.code
  split
  · next function hstart =>
    have hclient : (fixed "client.").IsLine := by decide
    exact (hclient.append_phrase (isPhrase_name (h.shortcut function hstart))).append_frame
      (isFrame_exprs [p.url])
  · next name hstart =>
    have hmethod : (fixed "reqwest::Method::").IsLine := by decide
    have hconstant := hmethod.append_phrase (isPhrase_name (h.constant name hstart))
    have hrequest : (fixed "client.request").IsPhrase := by decide
    exact hrequest.append_frame (isFrame_arguments
      (List.forall_mem_cons.2 ⟨hconstant, List.forall_mem_singleton.2 (isPhrase_exprCode p.url)⟩))
  · next method _ =>
    have hfrom : (fixed "reqwest::Method::from_bytes(").IsLine := by decide
    have hbytes : (fixed ".as_bytes())?").IsFrame := by decide
    have hmethod := (hfrom.append_phrase (isPhrase_exprCode method)).append hbytes.isTail
    have hrequest : (fixed "client.request").IsPhrase := by decide
    exact hrequest.append_frame (isFrame_arguments
      (List.forall_mem_cons.2 ⟨hmethod, List.forall_mem_singleton.2 (isPhrase_exprCode p.url)⟩))

/-- The statement that builds the form is a line, as is no statement at all. -/
theorem isLine_formCode (form : Option (List FormCall)) : (formCode form).IsLine := by
  cases form with
  | none => exact isLine_nil
  | some calls =>
    have hnew : (fixed "    let form = multipart::Form::new()").IsLine := by decide
    have hindent : (fixed "\n        ").IsFrame := by decide
    have hend : (fixed ";\n").IsLine := by decide
    have hcalls : IsLine (calls.flatMap fun call => fixed "\n        " ++ call.code) :=
      isLine_flatMap fun call _ => hindent.isLine.append (isFrame_formCall call).isLine
    exact (hnew.append hcalls).append hend

/-- The calls of the chain, each on a line, are a line. -/
theorem isLine_chainCode (calls : List RequestCall) : (chainCode calls).IsLine := by
  have hindent : (fixed "        ").IsLine := by decide
  have hend : (fixed "\n").IsLine := by decide
  exact isLine_flatMap fun call _ => (hindent.append (isFrame_requestCall call).isLine).append hend

/-- A sound program is a line. -/
theorem Program.isLine_code {p : Program} (h : p.IsSound) : p.code.IsLine := by
  have huse : (fixed "use ").IsLine := by decide
  have hsemicolon : (fixed ";\n").IsFrame := by decide
  have himports : IsLine (p.imports.flatMap fun path =>
      fixed "use " ++ [.code path] ++ fixed ";\n") :=
    isLine_flatMap fun path hpath =>
      (huse.append_phrase (h.imports path hpath)).append_frame hsemicolon
  have hmain : (fixed "\nfn main() -> Result<(), Box<dyn std::error::Error>> \x7b\n").IsLine := by
    decide
  have hclient : (fixed "    let client = Client::new();\n").IsLine := by decide
  have hresponse : (fixed "    let response = ").IsLine := by decide
  have hend : (fixed "\n").IsLine := by decide
  have hsend : (fixed "        .send()?;\n    println!(").IsLine := by decide
  have hprint : (fixed ", response.text()?);\n    Ok(())\n\x7d\n").IsFrame := by decide
  have hfront := ((himports.append hmain).append hclient).append (isLine_formCode p.form)
  have hchain := (((hfront.append hresponse).append (isLine_start h)).append hend).append
    (isLine_chainCode p.calls)
  exact ((hchain.append hsend).append_phrase (isPhrase_quoted _)).append_frame hprint

/-- The methods with functions of their own are known ones, and all of these are names in lower
case. -/
theorem isName_of_ofMethod_shortcut {method : Word} {function : Text}
    (h : Start.ofMethod method = .shortcut function) : Text.isName function = true := by
  have hall : ∀ verb ∈ shortcuts, Text.isName (Text.lower verb) = true := by decide
  unfold Start.ofMethod at h
  split at h
  · next verb _ =>
    split at h
    · next hv =>
      obtain rfl := Start.shortcut.inj h
      exact hall verb (List.contains_iff_mem.1 hv)
    · split at h
      · exact absurd h (by simp)
      · exact absurd h (by simp)
  · exact absurd h (by simp)

/-- The methods with constants are known ones, and all of these are names. -/
theorem isName_of_ofMethod_constant {method : Word} {name : Text}
    (h : Start.ofMethod method = .constant name) : Text.isName name = true := by
  have hall : ∀ verb ∈ constants, Text.isName verb = true := by decide
  unfold Start.ofMethod at h
  split at h
  · next verb _ =>
    split at h
    · exact absurd h (by simp)
    · split at h
      · next hv =>
        obtain rfl := Start.constant.inj h
        exact hall verb (List.contains_iff_mem.1 hv)
      · exact absurd h (by simp)
  · exact absurd h (by simp)

/-- The modules that programs import. -/
theorem imports_ofRequest (r : Request) :
    ∀ path ∈ (Program.ofRequest r).imports,
      path ∈ ["reqwest::blocking::Client".toList, "reqwest::blocking::multipart".toList] := by
  intro path hpath
  rcases List.mem_append.1 (mem_sortedOnce.1 hpath) with hpath | hpath
  · exact List.mem_append_left ["reqwest::blocking::multipart".toList] hpath
  · split at hpath
    · exact List.mem_append_right ["reqwest::blocking::Client".toList] hpath
    · cases hpath

/-- The program of any request is sound. -/
theorem isSound_ofRequest (r : Request) : (Program.ofRequest r).IsSound where
  imports path hpath := by
    have hall : ∀ path ∈ ["reqwest::blocking::Client".toList,
        "reqwest::blocking::multipart".toList], IsPhrase [.code path] := by decide
    exact hall path (imports_ofRequest r path hpath)
  shortcut _ h := isName_of_ofMethod_shortcut h
  constant _ h := isName_of_ofMethod_constant h

/-! ## Outlines of programs -/

def FormCall.outline : FormCall → FormCall
  | .text name value => .text name.outline value.outline
  | .file name path => .file name.outline path.outline
  | .renamed name path filename => .renamed name.outline path.outline filename.outline
  | .contents name path => .contents name.outline path.outline

def Start.outline : Start → Start
  | .shortcut function => .shortcut function
  | .constant name => .constant name
  | .general method => .general method.outline

def RequestCall.outline : RequestCall → RequestCall
  | .header name value => .header name.outline value.outline
  | .credentials user password => .credentials user.outline password.outline
  | .body content => .body content.outline
  | .bodyFile path => .bodyFile path.outline
  | .form => .form

/-- The program with the outlines of its words. -/
def Program.outline (p : Program) : Program where
  imports := p.imports
  form := p.form.map fun calls => calls.map FormCall.outline
  start := p.start.outline
  url := p.url.outline
  calls := p.calls.map RequestCall.outline

theorem FormCall.erase_code (call : FormCall) : call.code.erase = call.outline.code := by
  cases call <;> simp [FormCall.code, FormCall.outline]

theorem Start.erase_code (url : Word) (start : Start) :
    (start.code url).erase = start.outline.code url.outline := by
  cases start with
  | shortcut function =>
    simp only [Start.code, Start.outline, erase_append, erase_arguments, List.map_cons,
      List.map_nil, erase_exprCode, erase_fixed, Code.erase_code]
  | constant name =>
    simp only [Start.code, Start.outline, erase_append, erase_arguments, List.map_cons,
      List.map_nil, erase_exprCode, erase_fixed, Code.erase_code]
  | general method => simp [Start.code, Start.outline]

/-- A call without the texts of its literals is its outline, written down. -/
theorem RequestCall.erase_code (call : RequestCall) : call.code.erase = call.outline.code := by
  cases call <;> simp [RequestCall.code, RequestCall.outline]

theorem erase_formCode (form : Option (List FormCall)) :
    (formCode form).erase = formCode (form.map fun calls => calls.map FormCall.outline) := by
  cases form with
  | none => rfl
  | some calls => simp [formCode, List.flatMap_map, FormCall.erase_code]

theorem erase_chainCode (calls : List RequestCall) :
    (chainCode calls).erase = chainCode (calls.map RequestCall.outline) := by
  simp [chainCode, List.flatMap_map, RequestCall.erase_code]

/-- The erasure of a program is that of its outline. -/
theorem Program.erase_code (p : Program) : p.code.erase = p.outline.code.erase := by
  have hform : (formCode p.form).erase = (formCode p.outline.form).erase := by
    show _ = (formCode (p.form.map _)).erase
    rw [← erase_formCode, Code.erase_erase]
  have hstart : (p.start.code p.url).erase = (p.outline.start.code p.outline.url).erase := by
    show _ = (p.start.outline.code p.url.outline).erase
    rw [← Start.erase_code, Code.erase_erase]
  have hchain : (chainCode p.calls).erase = (chainCode p.outline.calls).erase := by
    show _ = (chainCode (p.calls.map _)).erase
    rw [← erase_chainCode, Code.erase_erase]
  simp only [Program.code, erase_append, hform, hstart, hchain]
  rfl

/-! ## Programs of requests that are alike -/

theorem ofMethod_eq (method : Word) :
    Start.ofMethod method = match Style.rust.verb? method with
      | some verb => if shortcuts.contains verb then .shortcut (Text.lower verb) else .constant verb
      | none => .general method := by
  have hverbs : Style.rust.verbs = shortcuts ++ constants := rfl
  unfold Start.ofMethod Style.verb?
  cases method.literal? with
  | none => rfl
  | some verb =>
    simp only [Option.filter_some, hverbs, List.contains_append]
    by_cases hs : shortcuts.contains verb = true
    · simp only [hs, Bool.true_or, if_true]
    · rw [Bool.eq_false_iff.2 hs, Bool.false_or]
      by_cases hc : constants.contains verb = true
      · simp only [hc, if_true, hs]
      · simp only [hc]
        rfl

/-- Methods that are alike and fall under the same verb start the chain alike. -/
theorem outline_ofMethod {m n : Word} (h : m.outline = n.outline)
    (hverb : Style.rust.verb? m = Style.rust.verb? n) :
    (Start.ofMethod m).outline = (Start.ofMethod n).outline := by
  rw [ofMethod_eq, ofMethod_eq, hverb]
  split
  · rfl
  · exact congrArg Start.general h

/-- Parts that are alike are added alike. -/
theorem outline_ofPart {p q : FormPart} (h : FormPart.Alike p q) :
    (FormCall.ofPart p).outline = (FormCall.ofPart q).outline := by
  cases h with
  | field hname hvalue => simp only [FormCall.ofPart, FormCall.outline, hname, hvalue]
  | file hname hfilename hpath hnamed =>
    rw [FormCall.ofPart, FormCall.ofPart, hnamed]
    split
    · simp only [FormCall.outline, hname, hpath]
    · simp only [FormCall.outline, hname, hpath, hfilename]
  | fileContent hname hpath => simp only [FormCall.ofPart, FormCall.outline, hname, hpath]

/-- Forms that are alike are built alike. -/
theorem outline_formOf {a b : Body} (h : Body.Alike a b) :
    ((formOf a).map fun calls => calls.map FormCall.outline) =
      (formOf b).map fun calls => calls.map FormCall.outline := by
  cases h with
  | multipart h =>
    have hcalls := h.map_eq outline_ofPart
    rw [formOf, formOf, Option.map_some, Option.map_some, List.map_map, List.map_map]
    exact congrArg some hcalls
  | _ => rfl

/-- Bodies that are alike are given by the same calls, up to texts. -/
theorem outline_bodyCalls {a b : Body} (h : Body.Alike a b) :
    (bodyCalls a).map RequestCall.outline = (bodyCalls b).map RequestCall.outline := by
  cases h with
  | raw hcontent _ => simp only [bodyCalls, List.map_cons, RequestCall.outline, hcontent]
  | urlEncoded h => simp only [bodyCalls, List.map_cons, RequestCall.outline, h]
  | file hpath _ => simp only [bodyCalls, List.map_cons, RequestCall.outline, hpath]
  | _ => rfl

/-- Requests that are alike make the same calls, up to texts. -/
theorem outline_callsOf {r s : Request} (h : r.Alike .rust s) :
    (callsOf r).map RequestCall.outline = (callsOf s).map RequestCall.outline := by
  have hfields : (r.headers.map fun h => RequestCall.header h.name h.value).map
        RequestCall.outline =
      (s.headers.map fun h => RequestCall.header h.name h.value).map RequestCall.outline := by
    rw [List.map_map, List.map_map]
    refine map_eq_map_of_determined ?_ h.headers
    intro a b hab
    obtain ⟨hname, hvalue⟩ := Header.mk.inj hab
    show RequestCall.header _ _ = RequestCall.header _ _
    rw [hname, hvalue]
  have himplied (i : Option Word) :
      (i.toList.map fun type => RequestCall.header (Word.ofString "Content-Type") type).map
          RequestCall.outline =
        (i.map Word.outline).toList.map fun type =>
          .header (Word.ofString "Content-Type").outline type := by
    cases i with
    | none => rfl
    | some type => rfl
  have hcredentials (o : Option Credentials) :
      (o.toList.map fun c => RequestCall.credentials c.user c.password).map RequestCall.outline =
        (o.map Credentials.outline).toList.map fun c => .credentials c.user c.password := by
    cases o with
    | none => rfl
    | some c => rfl
  simp only [callsOf, List.map_append, hfields, himplied, h.impliedContentType, hcredentials,
    h.credentials, outline_bodyCalls h.body]

/-- The programs for requests of one skeleton have the same outline. -/
theorem outline_ofRequest {r s : Request} (h : r.Alike .rust s) :
    (Program.ofRequest r).outline = (Program.ofRequest s).outline := by
  have himports : importsOf r = importsOf s := by
    have hform : (formOf r.body).isSome = (formOf s.body).isSome := by
      have hsome := congrArg Option.isSome (outline_formOf h.body)
      rwa [Option.isSome_map, Option.isSome_map] at hsome
    rw [importsOf, importsOf, hform]
  simp only [Program.outline, Program.ofRequest, himports, outline_formOf h.body,
    outline_ofMethod h.method h.verb, h.url, outline_callsOf h]

end Rust
end CurlScribe
