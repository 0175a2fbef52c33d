import CurlScribe.Proofs.Target.HeaderFields
import CurlScribe.Proofs.Target.Rows
import CurlScribe.Proofs.Target.RustShape

/-!
# Header fields as Rust sources give them

A Rust source has one row for each call of its chain. Those that add a header field are read from
the text: the row is parsed and both of its arguments are evaluated. What is read are the fields
that the calls of the program add, in order.
-/

namespace CurlScribe
namespace Rust
open Code Target

/-! ## Rows of programs -/

/-- Calls behind a line, one a line, with a semicolon behind the last one. -/
def closedLines (line : Code) : List Code → List Code
  | [] => [line ++ fixed ";"]
  | call :: calls => line :: closedLines (fixed "        " ++ call) calls

/-- The lines of the statement that makes the form. -/
def formLines : Option (List FormCall) → List Code
  | none => []
  | some calls =>
    closedLines (fixed "    let form = multipart::Form::new()") (calls.map FormCall.code)

/-- The lines of a program. -/
def Program.lines (p : Program) : List Code :=
  (p.imports.map fun path => fixed "use " ++ [.code path] ++ fixed ";")
    ++ [[], fixed "fn main() -> Result<(), Box<dyn std::error::Error>> \x7b",
      fixed "    let client = Client::new();"]
    ++ formLines p.form ++ [fixed "    let response = " ++ p.start.code p.url]
    ++ (p.calls.map fun call => fixed "        " ++ call.code)
    ++ [fixed "        .send()?;",
      fixed "    println!(" ++ quoted "\x7b\x7d".toList ++ fixed ", response.text()?);",
      fixed "    Ok(())", fixed "\x7d"]

theorem text_ended_closedLines (quote : Text → Text) (line : Code) (calls : List Code) :
    (ended (closedLines line calls)).text quote =
      (line ++ (calls.flatMap fun call => fixed "\n        " ++ call) ++ fixed ";\n").text
        quote := by
  induction calls generalizing line with
  | nil => simp [closedLines, ended, Code.text, fixed]
  | cons call calls ih =>
    have hend : (fixed "\n").text quote ++ (fixed "        ").text quote =
        (fixed "\n        ").text quote := rfl
    rw [closedLines, ended, List.flatMap_cons, text_append,
      show List.flatMap _ _ = ended _ from rfl, ih, List.flatMap_cons]
    simp only [text_append, ← hend, List.append_assoc]

/-- The lines of a program are its code. -/
theorem Program.text_ended_lines (quote : Text → Text) (p : Program) :
    (ended p.lines).text quote = p.code.text quote := by
  have himport (path : Text) : (ended [fixed "use " ++ [.code path] ++ fixed ";"]).text quote =
      Code.text quote (fixed "use " ++ [.code path] ++ fixed ";\n") := by
    simp [ended, Code.text, fixed]
  have hform : (ended (formLines p.form)).text quote = (formCode p.form).text quote := by
    cases p.form with
    | none => rfl
    | some calls => rw [formLines, text_ended_closedLines, formCode, List.flatMap_map]
  have hcall (call : RequestCall) : (ended [fixed "        " ++ call.code]).text quote =
      (fixed "        " ++ call.code ++ fixed "\n").text quote := by
    rw [ended, List.flatMap_singleton]
  have himports := text_ended_flatMap himport p.imports
  have hcalls := text_ended_flatMap hcall p.calls
  rw [Program.lines, Program.code, chainCode, List.map_eq_flatMap, List.map_eq_flatMap]
  simp only [ended_append, text_append, himports, hform, hcalls]
  simp [ended, Code.text, fixed]

theorem lacks_lookupCode (name : Text) : Lacks ['\n'] (lookupCode name) := by
  simp only [lookupCode, lacks_append]
  exact ⟨⟨by decide, lacks_arguments (by decide) (by simp)⟩, by decide⟩

theorem lacks_operandCode (op : Operand) : Lacks ['\n'] (operandCode op) := by
  cases op with
  | literal t => exact lacks_quoted t
  | lookup name => exact lacks_append.2 ⟨lacks_lookupCode name, by decide⟩

/-- No line ends in an expression: texts are quoted, and the rest is written on one line. -/
theorem lacks_exprCode (w : Word) : Lacks ['\n'] (exprCode w) := by
  unfold exprCode
  split
  · exact lacks_quoted _
  · exact lacks_lookupCode _
  · have hitems : Lacks ['\n'] (join ", " (w.operands.map operandCode)) := by
      refine lacks_join (by decide) ?_
      rw [List.forall_mem_map]
      exact fun op _ => lacks_operandCode op
    simp only [lacks_append]
    exact ⟨⟨by decide, hitems⟩, by decide⟩

theorem lacks_exprs (words : List Word) : Lacks ['\n'] (arguments (words.map exprCode)) := by
  refine lacks_arguments (by decide) ?_
  rw [List.forall_mem_map]
  exact fun w _ => lacks_exprCode w

theorem lacks_formCall (call : FormCall) : Lacks ['\n'] call.code := by
  cases call with
  | text name value => exact lacks_append.2 ⟨by decide, lacks_exprs [name, value]⟩
  | file name path =>
    exact lacks_append.2 ⟨lacks_append.2 ⟨by decide, lacks_exprs [name, path]⟩, by decide⟩
  | renamed name path filename =>
    have hpart : Lacks ['\n'] (fixed "multipart::Part::file" ++ arguments [exprCode path]
        ++ fixed "?.file_name" ++ arguments [exprCode filename]) := by
      simp only [lacks_append]
      exact ⟨⟨⟨by decide, lacks_exprs [path]⟩, by decide⟩, lacks_exprs [filename]⟩
    refine lacks_append.2 ⟨by decide, lacks_arguments (by decide) ?_⟩
    exact List.forall_mem_cons.2 ⟨lacks_exprCode name, List.forall_mem_singleton.2 hpart⟩
  | contents name path =>
    have hcontents : Lacks ['\n'] (fixed "std::fs::read_to_string" ++ arguments [exprCode path]
        ++ fixed "?") := by
      simp only [lacks_append]
      exact ⟨⟨by decide, lacks_exprs [path]⟩, by decide⟩
    refine lacks_append.2 ⟨by decide, lacks_arguments (by decide) ?_⟩
    exact List.forall_mem_cons.2 ⟨lacks_exprCode name, List.forall_mem_singleton.2 hcontents⟩

/-- No line ends in a call of the chain. -/
theorem lacks_requestCall (call : RequestCall) : Lacks ['\n'] call.code := by
  cases call with
  | header name value => exact lacks_append.2 ⟨by decide, lacks_exprs [name, value]⟩
  | credentials user password =>
    have hsome : Lacks ['\n'] (fixed "Some" ++ arguments [exprCode password]) :=
      lacks_append.2 ⟨by decide, lacks_exprs [password]⟩
    refine lacks_append.2 ⟨by decide, lacks_arguments (by decide) ?_⟩
    exact List.forall_mem_cons.2 ⟨lacks_exprCode user, List.forall_mem_singleton.2 hsome⟩
  | body content => exact lacks_append.2 ⟨by decide, lacks_exprs [content]⟩
  | bodyFile path =>
    have hfile : Lacks ['\n'] (fixed "std::fs::File::open" ++ arguments [exprCode path]
        ++ fixed "?") := by
      simp only [lacks_append]
      exact ⟨⟨by decide, lacks_exprs [path]⟩, by decide⟩
    exact lacks_append.2
      ⟨by decide, lacks_arguments (by decide) (List.forall_mem_singleton.2 hfile)⟩
  | form => decide

/-- No line ends in the start of the chain. -/
theorem lacks_start {p : Program} (h : p.IsSound) : Lacks ['\n'] (p.start.code p.url) := by
  have hname {name : Text} (hname : Text.isName name = true) : Lacks ['\n'] [.code name] :=
    lacks_name hname (List.forall_mem_singleton.2 rfl)
  have hargs {method : Code} (hmethod : Lacks ['\n'] method) :
      Lacks ['\n'] (fixed "client.request" ++ arguments [method, exprCode p.url]) := by
    refine lacks_append.2 ⟨by decide, lacks_arguments (by decide) ?_⟩
    exact List.forall_mem_cons.2 ⟨hmethod, List.forall_mem_singleton.2 (lacks_exprCode p.url)⟩
  unfold Start.code
  split
  next function hstart =>
    simp only [lacks_append]
    exact ⟨⟨by decide, hname (h.shortcut function hstart)⟩, lacks_exprs [p.url]⟩
  next name hstart => exact hargs (lacks_append.2 ⟨by decide, hname (h.constant name hstart)⟩)
  next method _ =>
    refine hargs ?_
    simp only [lacks_append]
    exact ⟨⟨by decide, lacks_exprCode method⟩, by decide⟩

/-- A call on a line of its own. -/
theorem isRow_chainLine {call : Code} (h : call.IsPhrase) (hlacks : Lacks ['\n'] call) :
    IsRow (fixed "        " ++ call) where
  isPhrase := IsLine.append_phrase (by decide) h
  unbroken := lacks_append.2 ⟨by decide, hlacks⟩

/-- The lines of a chain may each stand on a row of its own if its calls may. -/
theorem isRow_closedLines {line : Code} (hline : line.IsRow) {calls : List Code}
    (h : ∀ call ∈ calls, call.IsPhrase ∧ Lacks ['\n'] call) :
    ∀ row ∈ closedLines line calls, row.IsRow := by
  induction calls generalizing line with
  | nil =>
    have hend : IsFrame (fixed ";") := by decide
    refine List.forall_mem_singleton.2 ⟨hline.isPhrase.append hend.isTail, ?_⟩
    exact lacks_append.2 ⟨hline.unbroken, by decide⟩
  | cons call calls ih =>
    obtain ⟨⟨hphrase, hlacks⟩, hcalls⟩ := List.forall_mem_cons.1 h
    exact List.forall_mem_cons.2 ⟨hline, ih (isRow_chainLine hphrase hlacks) hcalls⟩

/-- All lines of a program may stand on rows of their own, whatever its words are. -/
theorem Program.isRow_lines {p : Program} (hsound : p.IsSound)
    (himports : ∀ path ∈ p.imports, path ∈ ["reqwest::blocking::Client".toList,
      "reqwest::blocking::multipart".toList]) : ∀ line ∈ p.lines, line.IsRow := by
  have himport : ∀ path ∈ p.imports, IsRow (fixed "use " ++ [.code path] ++ fixed ";") := by
    have hall : ∀ path ∈ ["reqwest::blocking::Client".toList,
        "reqwest::blocking::multipart".toList],
        IsRow (fixed "use " ++ [.code path] ++ fixed ";") := by decide
    exact fun path hpath => hall path (himports path hpath)
  have hmain : ∀ line ∈ [[], fixed "fn main() -> Result<(), Box<dyn std::error::Error>> \x7b",
      fixed "    let client = Client::new();"], IsRow line := by decide
  have hform : ∀ line ∈ formLines p.form, line.IsRow := by
    cases p.form with
    | none => exact List.forall_mem_nil _
    | some calls =>
      refine isRow_closedLines (by decide) ?_
      rw [List.forall_mem_map]
      exact fun call _ => ⟨(isFrame_formCall call).isTail.isPhrase, lacks_formCall call⟩
  have hresponse : IsRow (fixed "    let response = " ++ p.start.code p.url) := by
    have hlet : IsLine (fixed "    let response = ") := by decide
    exact ⟨hlet.append_phrase (isLine_start hsound).isPhrase,
      lacks_append.2 ⟨by decide, lacks_start hsound⟩⟩
  have hcalls : ∀ call ∈ p.calls, IsRow (fixed "        " ++ call.code) := fun call _ =>
    isRow_chainLine (isFrame_requestCall call).isTail.isPhrase (lacks_requestCall call)
  have hsend : ∀ line ∈ [fixed "        .send()?;",
      fixed "    println!(" ++ quoted "\x7b\x7d".toList ++ fixed ", response.text()?);",
      fixed "    Ok(())", fixed "\x7d"], IsRow line := by decide
  simp only [Program.lines, List.forall_mem_append, List.forall_mem_map, List.forall_mem_singleton]
  exact ⟨⟨⟨⟨⟨himport, hmain⟩, hform⟩, hresponse⟩, hcalls⟩, hsend⟩

/-- The source of a Rust client is read row by row as the lines of the program. -/
theorem rows?_source {r : Request} {source : Source} (h : r.render .rust = .ok source) :
    rustLexicon.rows? source.text =
      some ((Program.ofRequest r).lines.map tokens ++ [[]]) := by
  obtain rfl := Except.ok.inj h
  have hrows := rows?_ended reads_rust
    (Program.isRow_lines (isSound_ofRequest r) (imports_ofRequest r))
  rw [Program.text_ended_lines] at hrows
  rw [Program.source, hrows]

/-! ## Reading -/

section Reading

variable (σ : Environment)

/-- How a row begins that adds a header field. -/
def headerOpening : List Token := spelt "        .header("

/-- The field that a row adds, if it is one that adds a header field. What is parsed is the call
behind the indentation and the dot. -/
def readCall? (row : List Token) : Option (List Field) :=
  if headerOpening <+: row then
    match parse (row.drop 9) with
    | some (.call _ [name, value]) =>
      (evalRustText σ name).bind fun n => (evalRustText σ value).map fun v => [(n, v)]
    | _ => none
  else some []

/-- The header fields that a source adds, in order. -/
def readFields? (source : Text) : Option (List Field) :=
  (rustLexicon.rows? source).bind (gather? (readCall? σ))

variable {σ} {front row : List Token}

/-- The row has another token where a row that adds a header field has one of its beginning. -/
def Differs (row : List Token) : Prop :=
  ∃ (i : ℕ) (t u : Token), row[i]? = some t ∧ headerOpening[i]? = some u ∧ t ≠ u

theorem Differs.append (h : Differs front) (back : List Token) : Differs (front ++ back) := by
  obtain ⟨i, t, u, hfront, hopening, hne⟩ := h
  obtain ⟨hi, -⟩ := List.getElem?_eq_some_iff.1 hfront
  exact ⟨i, t, u, (List.getElem?_append_left hi).trans hfront, hopening, hne⟩

/-- A row that differs from the beginning of a call for a field is no such call. -/
theorem Differs.not_isPrefix (h : Differs row) : ¬headerOpening <+: row := by
  obtain ⟨i, t, u, hrow, hopening, hne⟩ := h
  rintro ⟨rest, rfl⟩
  obtain ⟨hi, -⟩ := List.getElem?_eq_some_iff.1 hopening
  rw [List.getElem?_append_left hi, hopening] at hrow
  exact hne (Option.some.inj hrow).symm

theorem readCall?_of_not_isPrefix (h : ¬headerOpening <+: row) : readCall? σ row = some [] :=
  if_neg h

/-- Code differs as soon as a line in front of it does. -/
theorem differs_of_line (line : Code) {back : Code} (hline : line.IsLine)
    (hdiffers : Differs line.tokens) (h : IsPhrase (line ++ back)) :
    Differs (tokens (line ++ back)) := by
  have hback : back.IsPhrase := by
    rwa [IsPhrase, symbols_append, scan_append, show scan .clear line.symbols = _ from hline] at h
  rw [tokens_append hline.isPhrase hback (.inl hline)]
  exact hdiffers.append _

/-- The call of another method than that for header fields differs in its name. -/
theorem differs_of_method (line : Code) {back : Code} {name : Text} (hline : line.IsLine)
    (hname : line.tokens[9]? = some (.name name)) (hne : name ≠ "header".toList)
    (h : IsPhrase (line ++ back)) : Differs (tokens (line ++ back)) :=
  differs_of_line line hline
    ⟨9, .name name, .name "header".toList, hname, rfl, fun heq => hne (Token.name.inj heq)⟩ h

/-- A call for a form part differs from one for a field in its name. -/
theorem differs_formCall (call : FormCall) : Differs (tokens (fixed "        " ++ call.code)) := by
  have hrow := isRow_chainLine (isFrame_formCall call).isTail.isPhrase (lacks_formCall call)
  cases call with
  | text name value =>
    exact differs_of_method (fixed "        " ++ fixed ".text" ++ fixed "(") (by decide) rfl
      (by decide) hrow.isPhrase
  | file name path =>
    exact differs_of_method (fixed "        " ++ fixed ".file" ++ fixed "(") (by decide) rfl
      (by decide) hrow.isPhrase
  | renamed name path filename =>
    exact differs_of_method (fixed "        " ++ fixed ".part" ++ fixed "(") (by decide) rfl
      (by decide) hrow.isPhrase
  | contents name path =>
    exact differs_of_method (fixed "        " ++ fixed ".text" ++ fixed "(") (by decide) rfl
      (by decide) hrow.isPhrase

/-- So do all lines of the form. -/
theorem differs_closedLines {line : Code} (hline : line.IsPhrase) (hdiffers : Differs line.tokens)
    (calls : List FormCall) :
    ∀ row ∈ closedLines line (calls.map FormCall.code), Differs row.tokens := by
  induction calls generalizing line with
  | nil =>
    have hend : IsFrame (fixed ";") := by decide
    refine List.forall_mem_singleton.2 ?_
    rw [tokens_append hline hend.isLine.isPhrase (.inr hend.isTail)]
    exact hdiffers.append _
  | cons call calls ih =>
    have hrow := isRow_chainLine (isFrame_formCall call).isTail.isPhrase (lacks_formCall call)
    exact List.forall_mem_cons.2 ⟨hdiffers, ih hrow.isPhrase (differs_formCall call)⟩

/-! ## Calls -/

/-- A row that adds a header field is read as the field with the values of its words. -/
theorem readCall?_header (name value : Word) :
    readCall? σ (tokens (fixed "        " ++ RequestCall.code (.header name value))) =
      some [(name.value σ, value.value σ)] := by
  obtain ⟨x, hx, hn⟩ := isTermFor_rust name
  obtain ⟨y, hy, hv⟩ := isTermFor_rust value
  have hheader : IsOperand [.name "header".toList] (.name "header".toList) := fun _ _ _ _ => rfl
  have hparse := (hheader.call (.cons hx (.cons hy .nil))).isTerm.parse_eq
  have hspaces : Spells IsLine (fixed "        ") (spelt "        ") := ⟨by decide, rfl⟩
  have hmethod : Spells IsPhrase (fixed ".header") (spelt ".header") := ⟨by decide, rfl⟩
  have hargs : AllSpell [exprCode name, exprCode value] [rustTokens name, rustTokens value] :=
    .cons (spells_rust name) (.cons (spells_rust value) .nil)
  have hrow := hspaces.append_phrase ((hmethod.call hargs).mono IsLine.isPhrase)
  have hdrop : (spelt "        " ++ (spelt ".header" ++
      argumentTokens [rustTokens name, rustTokens value])).drop 9 =
        [.name "header".toList] ++ argumentTokens [rustTokens name, rustTokens value] := rfl
  rw [RequestCall.code, hrow.tokens_eq, readCall?, if_pos ⟨_, rfl⟩, hdrop, hparse]
  simp only [hn, hv, Option.bind_some, Option.map_some]

/-- The row of a call is read as the field that the call adds, if it adds one. -/
theorem readCall?_call (call : RequestCall) :
    readCall? σ (tokens (fixed "        " ++ call.code)) = call.fields? σ := by
  have hrow := isRow_chainLine (isFrame_requestCall call).isTail.isPhrase (lacks_requestCall call)
  cases call with
  | header name value =>
    rw [readCall?_header, RequestCall.fields?, text?, text?, meaning_rust, meaning_rust]
    rfl
  | credentials user password =>
    exact readCall?_of_not_isPrefix (differs_of_method
      (fixed "        " ++ fixed ".basic_auth" ++ fixed "(") (by decide) rfl (by decide)
      hrow.isPhrase).not_isPrefix
  | body content =>
    exact readCall?_of_not_isPrefix (differs_of_method
      (fixed "        " ++ fixed ".body" ++ fixed "(") (by decide) rfl (by decide)
      hrow.isPhrase).not_isPrefix
  | bodyFile path =>
    exact readCall?_of_not_isPrefix (differs_of_method
      (fixed "        " ++ fixed ".body" ++ fixed "(") (by decide) rfl (by decide)
      hrow.isPhrase).not_isPrefix
  | form => exact readCall?_of_not_isPrefix (by decide)

/-- Only the rows of the chain are read as calls. -/
theorem Program.gather?_lines {p : Program} (hsound : p.IsSound)
    (himports : ∀ path ∈ p.imports, path ∈ ["reqwest::blocking::Client".toList,
      "reqwest::blocking::multipart".toList]) :
    gather? (readCall? σ) (p.lines.map tokens ++ [[]]) = p.fields? σ := by
  have himport : ∀ path ∈ p.imports,
      ¬headerOpening <+: tokens (fixed "use " ++ [.code path] ++ fixed ";") := by
    have hall : ∀ path ∈ ["reqwest::blocking::Client".toList,
        "reqwest::blocking::multipart".toList],
        ¬headerOpening <+: tokens (fixed "use " ++ [.code path] ++ fixed ";") := by decide
    exact fun path hpath => hall path (himports path hpath)
  have hmain : ∀ line ∈ [[], fixed "fn main() -> Result<(), Box<dyn std::error::Error>> \x7b",
      fixed "    let client = Client::new();"], ¬headerOpening <+: tokens line := by decide
  have hform : ∀ line ∈ formLines p.form, ¬headerOpening <+: tokens line := by
    cases p.form with
    | none => exact List.forall_mem_nil _
    | some calls =>
      have hlet : Differs (tokens (fixed "    let form = multipart::Form::new()")) :=
        ⟨4, _, _, rfl, rfl, by decide⟩
      exact fun line hline => (differs_closedLines (by decide) hlet calls line hline).not_isPrefix
  have hresponse :
      ¬headerOpening <+: tokens (fixed "    let response = " ++ p.start.code p.url) := by
    have hlet : IsLine (fixed "    let response = ") := by decide
    exact (differs_of_line _ hlet ⟨4, _, _, rfl, rfl, by decide⟩
      (hlet.append_phrase (isLine_start hsound).isPhrase)).not_isPrefix
  have hback : ∀ row ∈ [fixed "        .send()?;",
      fixed "    println!(" ++ quoted "\x7b\x7d".toList ++ fixed ", response.text()?);",
      fixed "    Ok(())", fixed "\x7d"].map tokens ++ [[]], ¬headerOpening <+: row := by decide
  have hcalls : gather? (readCall? σ)
      (p.calls.map fun call => tokens (fixed "        " ++ call.code)) = p.fields? σ := by
    rw [List.map_eq_flatMap]
    exact gather?_flatMap fun call _ => (gather?_singleton _).trans (readCall?_call call)
  -- in front of the calls and behind them, no row begins like a call for a field
  have hfront : ∀ line ∈ (p.imports.map fun path => fixed "use " ++ [.code path] ++ fixed ";")
      ++ [[], fixed "fn main() -> Result<(), Box<dyn std::error::Error>> \x7b",
        fixed "    let client = Client::new();"]
      ++ formLines p.form ++ [fixed "    let response = " ++ p.start.code p.url],
      ¬headerOpening <+: tokens line := by
    simp only [List.forall_mem_append, List.forall_mem_map, List.forall_mem_singleton]
    exact ⟨⟨⟨himport, hmain⟩, hform⟩, hresponse⟩
  rw [Program.lines, List.map_append, List.map_append, List.append_assoc, List.map_map]
  refine (gather?_between ?_ ?_ _).trans hcalls
  · rw [List.forall_mem_map]
    exact fun line hline => readCall?_of_not_isPrefix (hfront line hline)
  · exact fun row hrow => readCall?_of_not_isPrefix (hback row hrow)

/-- The fields that are read in the source of a Rust client are those that its calls add, in
order. -/
theorem readFields?_source {r : Request} {source : Source} (h : r.render .rust = .ok source) :
    readFields? σ source.text = (Program.ofRequest r).fields? σ := by
  rw [readFields?, rows?_source h, Option.bind_some]
  exact Program.gather?_lines (isSound_ofRequest r) (imports_ofRequest r)

/-- The source of a Rust client gives the header fields of the request, in order, and behind them
the content type that the body implies. -/
theorem sentFields_source {r : Request} {source : Source} (h : r.render .rust = .ok source) :
    readFields? σ source.text = some (r.sentFields σ) := by
  rw [readFields?_source h, fields?_ofRequest]

end Reading

end Rust
end CurlScribe
