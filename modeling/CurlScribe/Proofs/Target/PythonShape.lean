import CurlScribe.Proofs.Target.Control
import CurlScribe.Proofs.Target.Imports
import CurlScribe.Proofs.Target.Skeleton

/-!
# The shape of Python programs

The code of a Python program is a row of lines. Each lexes whatever the request says, and none holds
a control character, so that the lines of a block can be indented as they are written and are still
the same lines. Up to erasure the lines are determined by the outline of the program, and that by
the skeleton of the request.
-/

namespace CurlScribe

namespace Code

/-- No control character stands in the fixed text of the code. -/
def IsVisible (code : Code) : Prop := ∀ piece ∈ code, match piece with
  | .code t => t.IsVisible
  | .quoted _ => True

instance (code : Code) : Decidable code.IsVisible :=
  @List.decidableBAll _ _ (fun piece => match piece with
    | .code t => inferInstanceAs (Decidable t.IsVisible)
    | .quoted _ => isTrue trivial) code

@[simp] theorem isVisible_append {a b : Code} :
    IsVisible (a ++ b) ↔ a.IsVisible ∧ b.IsVisible := List.forall_mem_append

@[simp] theorem isVisible_quoted (t : Text) : IsVisible (quoted t) := by simp [IsVisible, quoted]

theorem isVisible_name {name : Text} (h : Text.isName name = true) : IsVisible [.code name] := by
  intro piece hp
  obtain rfl := List.mem_singleton.1 hp
  exact fun c hc => Text.isControl_of_isNameChar (Text.forall_isNameChar h c hc)

/-- Joined code has no control characters if its pieces and the separator have none. -/
theorem isVisible_join {sep : String} {codes : List Code} (hs : IsVisible (fixed sep))
    (h : ∀ c ∈ codes, IsVisible c) : IsVisible (join sep codes) := by
  induction codes with
  | nil => exact fun _ hp => absurd hp (by simp [join])
  | cons c codes ih =>
    have hc := h c List.mem_cons_self
    have hrest := ih fun d hd => h d (List.mem_cons_of_mem _ hd)
    cases codes with
    | nil => simpa [join] using hc
    | cons d codes =>
      rw [join, List.intercalate_cons_cons, isVisible_append, isVisible_append]
      exact ⟨⟨hc, hs⟩, hrest⟩

theorem isVisible_arguments {codes : List Code} (h : ∀ c ∈ codes, IsVisible c) :
    IsVisible (arguments codes) := by
  rw [arguments, isVisible_append, isVisible_append]
  exact ⟨⟨by decide, isVisible_join (by decide) h⟩, by decide⟩

/-- The text of visible code is visible if quoted texts are. -/
theorem IsVisible.text {quote : Text → Text} (hquote : ∀ t, Text.IsVisible (quote t)) {code : Code}
    (h : code.IsVisible) : Text.IsVisible (code.text quote) := by
  intro c hc
  obtain ⟨piece, hp, hc⟩ := List.mem_flatMap.1 hc
  cases piece with
  | code t => exact h (.code t) hp c hc
  | quoted t => exact hquote t c hc

/-- A phrase that stands on one line. -/
structure IsSolid (code : Code) : Prop where
  isPhrase : code.IsPhrase
  isVisible : code.IsVisible

namespace IsSolid

variable {a b c : Code}

/-- A frame may follow solid code. -/
theorem append_frame (ha : a.IsSolid) (hb : b.IsFrame) (hv : b.IsVisible) : (a ++ b).IsSolid :=
  ⟨ha.isPhrase.append hb.isTail, isVisible_append.2 ⟨ha.isVisible, hv⟩⟩

/-- Solid code may follow a line. -/
theorem after_line (ha : a.IsLine) (hv : a.IsVisible) (hb : b.IsSolid) : (a ++ b).IsSolid :=
  ⟨ha.append_phrase hb.isPhrase, isVisible_append.2 ⟨hv, hb.isVisible⟩⟩

/-- Solid code may stand on both sides of a frame. -/
theorem append_between (ha : a.IsSolid) (hb : b.IsFrame) (hv : b.IsVisible) (hc : c.IsSolid) :
    (a ++ b ++ c).IsSolid := by
  have hfront : (a ++ b).IsLine := ha.isPhrase.append_frame hb
  exact after_line hfront (ha.append_frame hb hv).isVisible hc

end IsSolid

theorem isSolid_quoted (t : Text) : (quoted t).IsSolid := ⟨rfl, isVisible_quoted t⟩

theorem isSolid_name {name : Text} (h : Text.isName name = true) : IsSolid [.code name] :=
  ⟨isPhrase_name h, isVisible_name h⟩

/-- Solid code is joined by frames. -/
theorem isSolid_join {sep : String} {codes : List Code} (hs : IsFrame (fixed sep))
    (hv : IsVisible (fixed sep)) (h : ∀ c ∈ codes, IsSolid c) : (join sep codes).IsSolid :=
  ⟨isPhrase_join hs fun c hc => (h c hc).isPhrase, isVisible_join hv fun c hc => (h c hc).isVisible⟩

/-- A phrase with arguments behind it. -/
theorem IsSolid.call {a : Code} (ha : a.IsSolid) {codes : List Code}
    (h : ∀ c ∈ codes, IsSolid c) : (a ++ arguments codes).IsSolid :=
  ha.append_frame (isFrame_arguments fun c hc => (h c hc).isPhrase)
    (isVisible_arguments fun c hc => (h c hc).isVisible)

end Code

namespace Python
open Code

/-! ## Expressions -/

/-- A literal is quoted and a look-up is a call, so operands are solid. -/
theorem isSolid_operandCode (op : Operand) : (operandCode op).IsSolid := by
  cases op with
  | literal t => exact isSolid_quoted t
  | lookup name =>
    have hname : (fixed "os.getenv").IsSolid := ⟨by decide, by decide⟩
    exact hname.call (by simp [isSolid_quoted])

theorem isSolid_exprCode (w : Word) : (exprCode w).IsSolid := by
  refine isSolid_join (by decide) (by decide) ?_
  intro c hc
  obtain ⟨op, -, rfl⟩ := List.mem_map.1 hc
  exact isSolid_operandCode op

/-- The names of handles are names, whatever their numbers are. -/
theorem isName_file (n : Nat) : Text.isName ("file_".toList ++ Text.ofNat n) = true := by
  have hdigits : ∀ c ∈ Text.ofNat n, Text.isNameChar c = true := by
    intro c hc
    have hdigit : c.isDigit = true := Nat.isDigit_of_mem_toDigits (by decide) (by decide) hc
    simp [Text.isNameChar, Char.isAlphanum, hdigit]
  have hletters : "ile_".toList.all Text.isNameChar = true := by decide
  refine Text.isName_iff.2 ⟨'f', "ile_".toList ++ Text.ofNat n, rfl, by decide, ?_⟩
  exact List.forall_mem_append.2 ⟨List.all_eq_true.1 hletters, hdigits⟩

theorem isSolid_fileName (n : Nat) : (fileName n).IsSolid := isSolid_name (isName_file n)

/-- The value of an entry is solid, with or without a file. -/
theorem isSolid_entryValue (v : EntryValue) : v.code.IsSolid := by
  cases v with
  | text value =>
    exact (IsSolid.after_line (by decide) (by decide) (isSolid_exprCode value)).append_frame
      (by decide) (by decide)
  | attachment filename file =>
    have hempty : IsSolid [] := ⟨rfl, by decide⟩
    exact hempty.call (by simp [isSolid_exprCode, isSolid_fileName])
  | contents file =>
    exact (IsSolid.after_line (by decide) (by decide) (isSolid_fileName file)).append_frame
      (by decide) (by decide)

/-! ## Lines -/

theorem isSolid_entryLine (e : Entry) : e.line.IsSolid :=
  ((IsSolid.after_line (by decide) (by decide) (isSolid_exprCode e.name)).append_between
    (by decide) (by decide) (isSolid_entryValue e.value)).append_frame (by decide) (by decide)

/-- Whatever header fields say, the lines of the dictionary are solid. -/
theorem isSolid_headerLines (headers : List (Word × Word)) :
    ∀ line ∈ headerLines headers, line.IsSolid := by
  intro line hline
  unfold headerLines at hline
  split at hline
  · exact absurd hline (by simp)
  · simp only [List.mem_append, List.mem_cons, List.not_mem_nil, or_false] at hline
    rcases hline with (rfl | hline) | rfl | rfl
    · exact ⟨by decide, by decide⟩
    · obtain ⟨⟨name, value⟩, -, rfl⟩ := List.mem_map.1 hline
      exact ((IsSolid.after_line (by decide) (by decide) (isSolid_exprCode name)).append_between
        (by decide) (by decide) (isSolid_exprCode value)).append_frame (by decide) (by decide)
    · exact ⟨by decide, by decide⟩
    · exact ⟨rfl, by decide⟩

/-- Whatever the data says, its line is solid. -/
theorem isSolid_dataLines (content : Content) : ∀ line ∈ dataLines content, line.IsSolid := by
  intro line hline
  cases content with
  | data content =>
    simp only [dataLines, List.mem_cons, List.not_mem_nil, or_false] at hline
    rcases hline with rfl | rfl
    · exact IsSolid.after_line (by decide) (by decide) (isSolid_exprCode content)
    · exact ⟨rfl, by decide⟩
  | _ => exact absurd hline (by simp [dataLines])

/-- Whatever a form says, the lines of its entries are solid. -/
theorem isSolid_entryLines (content : Content) : ∀ line ∈ entryLines content, line.IsSolid := by
  intro line hline
  cases content with
  | entries entries =>
    simp only [entryLines, List.mem_append, List.mem_cons, List.not_mem_nil, or_false] at hline
    rcases hline with (rfl | hline) | rfl
    · exact ⟨by decide, by decide⟩
    · obtain ⟨e, -, rfl⟩ := List.mem_map.1 hline
      exact isSolid_entryLine e
    · exact ⟨by decide, by decide⟩
  | _ => exact absurd hline (by simp [entryLines])

/-- A program in which what stands for a name is one. -/
structure Program.IsSound (p : Program) : Prop where
  imports : ∀ name ∈ p.imports, Text.isName name = true
  call : ∀ function, p.call = .shortcut function → Text.isName function = true

theorem isSolid_argumentCodes (p : Program) : ∀ c ∈ p.argumentCodes, c.IsSolid := by
  intro c hc
  simp only [Program.argumentCodes, List.mem_append] at hc
  rcases hc with (hc | hc) | hc
  · split at hc
    · exact absurd hc (by simp)
    · obtain rfl := List.mem_singleton.1 hc
      exact ⟨by decide, by decide⟩
  · split at hc
    · exact absurd hc (by simp)
    · obtain rfl := List.mem_singleton.1 hc
      exact ⟨by decide, by decide⟩
    · obtain rfl := List.mem_singleton.1 hc
      exact IsSolid.after_line (by decide) (by decide) (isSolid_fileName 0)
    · obtain rfl := List.mem_singleton.1 hc
      exact ⟨by decide, by decide⟩
  · obtain ⟨⟨user, password⟩, -, rfl⟩ := List.mem_map.1 hc
    have hauth : (fixed "auth=").IsSolid := ⟨by decide, by decide⟩
    exact hauth.call (by simp [isSolid_exprCode])

/-- The line of the call is solid: its method is quoted or a known name. -/
theorem isSolid_callLine {p : Program} (h : p.IsSound) : p.callLine.IsSolid := by
  have hargs : ∀ c ∈ exprCode p.url :: p.argumentCodes, c.IsSolid :=
    List.forall_mem_cons.2 ⟨isSolid_exprCode p.url, isSolid_argumentCodes p⟩
  unfold Program.callLine
  split
  · next function hcall =>
    have hname := isSolid_name (h.call function hcall)
    exact IsSolid.after_line (by decide) (by decide) (hname.call hargs)
  · next method _ =>
    have hrequest : (fixed "request").IsSolid := ⟨by decide, by decide⟩
    exact IsSolid.after_line (by decide) (by decide)
      (hrequest.call (List.forall_mem_cons.2 ⟨isSolid_exprCode method, hargs⟩))

/-- The lines of the request are solid. -/
theorem isSolid_requestLines {p : Program} (h : p.IsSound) :
    ∀ line ∈ p.requestLines, line.IsSolid := by
  intro line hline
  rcases List.mem_append.1 hline with hline | hline
  · exact isSolid_entryLines p.content line hline
  · obtain rfl := List.mem_singleton.1 hline
    exact isSolid_callLine h

/-- The line that opens files is solid, whatever their paths are. -/
theorem isSolid_withLine (files : List Word) : (withLine files).IsSolid := by
  have hopen : (fixed "open").IsSolid := ⟨by decide, by decide⟩
  refine (IsSolid.after_line (by decide) (by decide) ?_).append_frame (by decide) (by decide)
  refine isSolid_join (by decide) (by decide) ?_
  intro c hc
  obtain ⟨i, hi, rfl⟩ := List.mem_mapIdx.1 hc
  exact (hopen.call (by simp [isSolid_exprCode, isSolid_quoted])).append_between (by decide)
    (by decide) (isSolid_fileName i)

/-! ## Lines in their places -/

/-- A line of a block that stands deeper. -/
def indent (line : Code) : Code := fixed "    " ++ line

/-- All lines of a program, those of the block where they stand. -/
def Program.lines (p : Program) : List Code :=
  p.frontLines
    ++ (if p.files.isEmpty then p.requestLines
      else withLine p.files :: p.requestLines.map indent)
    ++ backLines

/-- The code of a program, every line ended. -/
def Program.code (p : Program) : Code := p.lines.flatMap fun line => line ++ fixed "\n"

/-- The lines in front of the request are solid. -/
theorem isSolid_frontLines {p : Program} (h : p.IsSound) : ∀ line ∈ p.frontLines, line.IsSolid := by
  intro line hline
  simp only [Program.frontLines, List.mem_append, List.mem_singleton] at hline
  rcases hline with ((hline | rfl) | hline) | hline
  · obtain ⟨name, hname, rfl⟩ := List.mem_map.1 hline
    exact IsSolid.after_line (by decide) (by decide) (isSolid_name (h.imports name hname))
  · exact ⟨rfl, by decide⟩
  · exact isSolid_headerLines p.headers line hline
  · exact isSolid_dataLines p.content line hline

theorem isSolid_backLines : ∀ line ∈ backLines, line.IsSolid := by
  intro line hline
  simp only [backLines, List.mem_cons, List.not_mem_nil, or_false] at hline
  rcases hline with rfl | rfl
  · exact ⟨rfl, by decide⟩
  · exact ⟨by decide, by decide⟩

/-- All lines of a sound program are phrases without control characters, indented or not. -/
theorem isSolid_lines {p : Program} (h : p.IsSound) : ∀ line ∈ p.lines, line.IsSolid := by
  intro line hline
  rcases List.mem_append.1 hline with hline | hline
  · rcases List.mem_append.1 hline with hline | hline
    · exact isSolid_frontLines h line hline
    · split at hline
      · exact isSolid_requestLines h line hline
      · rcases List.mem_cons.1 hline with rfl | hline
        · exact isSolid_withLine p.files
        · obtain ⟨inner, hinner, rfl⟩ := List.mem_map.1 hline
          exact IsSolid.after_line (by decide) (by decide) (isSolid_requestLines h inner hinner)
  · exact isSolid_backLines line hline

/-- A sound program is a line. -/
theorem Program.isLine_code {p : Program} (h : p.IsSound) : p.code.IsLine :=
  isLine_flatMap fun line hline => (isSolid_lines h line hline).isPhrase.append_frame (by decide)

/-- The only control characters in a sound program are its line ends. -/
theorem Program.eq_of_isControl {p : Program} (h : p.IsSound) {c : Char}
    (hc : c ∈ p.code.text PythonLiteral.quote) (hcontrol : Text.isControl c = true) :
    c = '\n' := by
  obtain ⟨piece, hpiece, hc⟩ := List.mem_flatMap.1 hc
  obtain ⟨line, hline, hpiece⟩ := List.mem_flatMap.1 hpiece
  -- a character of a line, or the line end that follows the line
  rcases List.mem_append.1 hpiece with hpiece | hpiece
  · have hvisible := (isSolid_lines h line hline).isVisible.text PythonLiteral.isVisible_quote
    have hmem : c ∈ Code.text PythonLiteral.quote line := List.mem_flatMap.2 ⟨piece, hpiece, hc⟩
    exact absurd hcontrol (by simp [hvisible c hmem])
  · obtain rfl := List.mem_singleton.1 hpiece
    exact List.mem_singleton.1 hc

/-! ## Lines as they are written -/

/-- The text of code. -/
def printed (code : Code) : Text := code.text PythonLiteral.quote

@[simp] theorem printed_append (a b : Code) : printed (a ++ b) = printed a ++ printed b :=
  List.flatMap_append

@[simp] theorem printed_fixed (s : String) : printed (fixed s) = s.toList := List.append_nil _

/-- An indented line is printed behind four spaces. -/
theorem printed_indent (line : Code) : printed (indent line) = "    ".toList ++ printed line := by
  rw [indent, printed_append, printed_fixed]

/-- No control character is printed on a solid line, so that lines end where the program ends
them. -/
theorem isVisible_printed {line : Code} (h : line.IsSolid) : (printed line).IsVisible :=
  h.isVisible.text PythonLiteral.isVisible_quote

@[simp] theorem written_append (front back : List Code) :
    written (front ++ back) = written front ++ written back := List.flatMap_append

/-- A row of lines is written as the code is in which every line is ended. -/
theorem written_eq (lines : List Code) :
    written lines = printed (lines.flatMap fun line => line ++ fixed "\n") := by
  rw [printed, Code.text, List.flatMap_assoc]
  exact List.flatMap_congr fun line _ => (printed_append line (fixed "\n")).symm

/-- The lines of what is written are found again. -/
theorem lines_written {lines : List Code} (h : ∀ line ∈ lines, line.IsSolid) :
    Text.lines (written lines) = lines.map printed := by
  induction lines with
  | nil => rfl
  | cons line lines ih =>
    obtain ⟨hline, hlines⟩ := List.forall_mem_cons.1 h
    have hwritten : written (line :: lines) = printed line ++ '\n' :: written lines := by
      rw [written, List.flatMap_cons, List.append_assoc]
      rfl
    rw [hwritten, Text.lines_append (isVisible_printed hline), ih hlines, List.map_cons]

/-- Indenting what is written, without regard to what is a literal there, indents the lines. -/
theorem indentText_written {lines : List Code} (h : ∀ line ∈ lines, line.IsSolid) :
    indentText (written lines) = written (lines.map indent) := by
  rw [indentText, lines_written h, written, List.flatMap_map, List.flatMap_map]
  refine List.flatMap_congr fun line _ => ?_
  show _ = printed (indent line) ++ ['\n']
  rw [printed_indent]

/-- The text of a program is that of its code, in which the lines of the block stand where they
belong before they are written. -/
theorem Program.text_eq {p : Program} (h : p.IsSound) :
    p.text = p.code.text PythonLiteral.quote := by
  show _ = printed p.code
  rw [Program.code, ← written_eq, Program.lines, written_append, written_append, Program.text,
    indentText_written (isSolid_requestLines h)]
  split
  · rfl
  · rw [← written_append]
    rfl

/-! ## Programs for requests -/

/-- The modules that programs import. -/
theorem imports_ofRequest {r : Request} {p : Program} (h : Program.ofRequest r = .ok p) :
    ∀ name ∈ p.imports, name ∈ ["os".toList, "requests".toList] := by
  unfold Program.ofRequest at h
  split at h
  · cases h
  · obtain rfl := Except.ok.inj h
    intro name hname
    rcases List.mem_append.1 (mem_sortedOnce.1 hname) with hname | hname
    · exact List.mem_append_right ["os".toList] hname
    · split at hname
      · cases hname
      · exact List.mem_append_left ["requests".toList] hname

/-- The functions that programs call by their names are named for methods. -/
theorem call_ofRequest {r : Request} {p : Program} (h : Program.ofRequest r = .ok p)
    {function : Text} (hcall : p.call = .shortcut function) :
    ∃ verb ∈ shortcuts, Text.lower verb = function := by
  have hmethod : p.call = Call.ofMethod r.effectiveMethod := by
    unfold Program.ofRequest at h
    split at h
    · cases h
    · obtain rfl := Except.ok.inj h
      rfl
  rw [hmethod] at hcall
  unfold Call.ofMethod at hcall
  split at hcall
  next verb _ =>
    split at hcall
    next hverb => exact ⟨verb, List.contains_iff_mem.1 hverb, Call.shortcut.inj hcall⟩
    · cases hcall
  · cases hcall

/-- The program of a request is sound, whatever the request says. -/
theorem isSound_ofRequest {r : Request} {p : Program} (h : Program.ofRequest r = .ok p) :
    p.IsSound := by
  have hmodules : ∀ name ∈ ["os".toList, "requests".toList], Text.isName name = true := by decide
  have hfunctions : ∀ verb ∈ shortcuts, Text.isName (Text.lower verb) = true := by decide
  constructor
  · intro name hname
    exact hmodules name (imports_ofRequest h name hname)
  · intro function hcall
    obtain ⟨verb, hverb, rfl⟩ := call_ofRequest h hcall
    exact hfunctions verb hverb

/-! ## Outlines of programs -/

def EntryValue.outline : EntryValue → EntryValue
  | .text value => .text value.outline
  | .attachment filename file => .attachment filename.outline file
  | .contents file => .contents file

def Entry.outline (e : Entry) : Entry := ⟨e.name.outline, e.value.outline⟩

def Content.outline : Content → Content
  | .nothing => .nothing
  | .data content => .data content.outline
  | .openFile => .openFile
  | .entries es => .entries (es.map Entry.outline)

def Call.outline : Call → Call
  | .shortcut function => .shortcut function
  | .general method => .general method.outline

/-- The program with the outlines of its words. -/
def Program.outline (p : Program) : Program where
  imports := p.imports
  headers := p.headers.map Body.pairOutline
  files := p.files.map Word.outline
  content := p.content.outline
  call := p.call.outline
  url := p.url.outline
  credentials := p.credentials.map Body.pairOutline

theorem erase_fileName (n : Nat) : (fileName n).erase = fileName n := rfl

/-- An entry without the texts of its literals is its outline, written down. -/
theorem erase_entryLine (e : Entry) : e.line.erase = e.outline.line := by
  have hvalue : e.value.code.erase = e.value.outline.code := by
    cases e.value with
    | text value => simp [EntryValue.code, EntryValue.outline]
    | attachment filename file => simp [EntryValue.code, EntryValue.outline, erase_fileName]
    | contents file => simp [EntryValue.code, EntryValue.outline, erase_fileName]
  simp [Entry.line, Entry.outline, hvalue]

/-- The lines of header fields are those of their outlines. -/
theorem erase_headerLines (headers : List (Word × Word)) :
    (headerLines headers).map Code.erase = headerLines (headers.map Body.pairOutline) := by
  unfold headerLines
  simp only [List.isEmpty_map]
  split
  · rfl
  · simp [Body.pairOutline, Function.comp_def]

theorem erase_dataLines (content : Content) :
    (dataLines content).map Code.erase = dataLines content.outline := by
  cases content with
  | data content => simp [dataLines, Content.outline]
  | _ => rfl

/-- The lines of entries are those of their outlines. -/
theorem erase_entryLines (content : Content) :
    (entryLines content).map Code.erase = entryLines content.outline := by
  cases content with
  | entries entries =>
    simp [entryLines, Content.outline, Function.comp_def, erase_entryLine]
  | _ => rfl

/-- Names of arguments are fixed, and their values are variables or outlines. -/
theorem erase_argumentCodes (p : Program) :
    p.argumentCodes.map Code.erase = p.outline.argumentCodes := by
  have hheaders : p.outline.headers.isEmpty = p.headers.isEmpty := List.isEmpty_map
  have hcontent : p.outline.content = p.content.outline := rfl
  have hcredentials : p.outline.credentials = p.credentials.map Body.pairOutline := rfl
  rw [Program.argumentCodes, Program.argumentCodes, List.map_append, List.map_append, hheaders,
    hcontent, hcredentials]
  congr 1
  · congr 1
    · split
      · rfl
      · rfl
    · cases p.content with
      | _ => rfl
  · cases p.credentials with
    | none => rfl
    | some c => simp [Body.pairOutline]

/-- The call without the texts of its literals is that of the outline. -/
theorem erase_callLine (p : Program) : p.callLine.erase = p.outline.callLine := by
  rw [Program.callLine, Program.callLine, show p.outline.call = p.call.outline from rfl]
  cases p.call with
  | shortcut function =>
    simp only [Call.outline, erase_append, erase_arguments, List.map_cons, erase_exprCode,
      erase_argumentCodes]
    rfl
  | general method =>
    simp only [Call.outline, erase_append, erase_arguments, List.map_cons, erase_exprCode,
      erase_argumentCodes]
    rfl

/-- The line that opens files is that of the outlines of their paths. -/
theorem erase_withLine (files : List Word) :
    (withLine files).erase = (withLine (files.map Word.outline)).erase := by
  rw [withLine, withLine, erase_append, erase_append, erase_append, erase_append, erase_join,
    erase_join]
  congr 3
  -- file by file, because the variables are numbered by their places
  refine List.ext_getElem (by simp) ?_
  intro i _ _
  simp

theorem erase_indent (line : Code) : (indent line).erase = indent line.erase := rfl

/-- The lines of the request are those of its outline. -/
theorem erase_requestLines (p : Program) :
    p.requestLines.map Code.erase = p.outline.requestLines := by
  rw [Program.requestLines, List.map_append, List.map_singleton, erase_entryLines, erase_callLine]
  rfl

/-- All lines of a program are those of its outline. -/
theorem erase_lines (p : Program) :
    p.lines.map Code.erase = p.outline.lines.map Code.erase := by
  -- the call is indented below the line that opens the files, if there is one
  have hrequest : (if p.files.isEmpty then p.requestLines
        else withLine p.files :: p.requestLines.map indent).map Code.erase =
      (if p.outline.files.isEmpty then p.outline.requestLines
        else withLine p.outline.files :: p.outline.requestLines.map indent).map Code.erase := by
    have hfiles : p.outline.files.isEmpty = p.files.isEmpty := List.isEmpty_map
    rw [hfiles, ← erase_requestLines]
    split
    · rw [map_erase_map_erase]
    · rw [List.map_cons, List.map_cons, erase_withLine, List.map_map, List.map_map, List.map_map]
      congr 1
      refine List.map_congr_left ?_
      intro line _
      simp [erase_indent]
  have hheaders : (headerLines p.headers).map Code.erase =
      (headerLines p.outline.headers).map Code.erase := by
    show _ = (headerLines (p.headers.map Body.pairOutline)).map Code.erase
    rw [← erase_headerLines, map_erase_map_erase]
  have hdata : (dataLines p.content).map Code.erase =
      (dataLines p.outline.content).map Code.erase := by
    show _ = (dataLines p.content.outline).map Code.erase
    rw [← erase_dataLines, map_erase_map_erase]
  simp only [Program.lines, Program.frontLines, List.map_append, hrequest, hheaders, hdata]
  rfl

/-- The erasure of a program is that of its outline. -/
theorem Program.erase_code (p : Program) : p.code.erase = p.outline.code.erase := by
  have hlines (lines : List Code) :
      erase (lines.flatMap fun line => line ++ fixed "\n") =
        (lines.map Code.erase).flatMap fun line => line ++ fixed "\n" := by
    rw [erase_flatMap, List.flatMap_map]
    simp only [erase_append, erase_fixed]
  rw [Program.code, Program.code, hlines, hlines, erase_lines]

/-! ## Programs of requests that are alike -/

/-- How a method is called depends on its verb only, and on the method itself where it has none. -/
theorem ofMethod_eq (method : Word) :
    Call.ofMethod method = match Style.python.verb? method with
      | some verb => .shortcut (Text.lower verb)
      | none => .general method := by
  unfold Call.ofMethod Style.verb?
  cases method.literal? with
  | none => rfl
  | some verb =>
    show (if shortcuts.contains verb then _ else _) = _
    by_cases hv : shortcuts.contains verb = true
    · rw [if_pos hv, Option.filter_some, show Style.python.verbs = shortcuts from rfl, if_pos hv]
    · rw [if_neg hv, Option.filter_some, show Style.python.verbs = shortcuts from rfl, if_neg hv]

/-- Methods that are alike and fall under the same verb are called alike. -/
theorem outline_ofMethod {m n : Word} (h : m.outline = n.outline)
    (hverb : Style.python.verb? m = Style.python.verb? n) :
    (Call.ofMethod m).outline = (Call.ofMethod n).outline := by
  rw [ofMethod_eq, ofMethod_eq, hverb]
  split
  · rfl
  · exact congrArg Call.general h

/-- Bodies that are alike read files from paths that are alike. -/
theorem outline_filesOf {a b : Body} (h : Body.Alike a b) :
    (filesOf a).map Word.outline = (filesOf b).map Word.outline := by
  cases h with
  | multipart h =>
    show (List.filterMap FormPart.path? _).map Word.outline =
      (List.filterMap FormPart.path? _).map Word.outline
    induction h with
    | nil => rfl
    | cons h _ ih =>
      cases h with
      | field _ _ => exact ih
      | file _ _ hpath _ =>
        simp only [List.filterMap_cons, FormPart.path?, List.map_cons, hpath, ih]
      | fileContent _ hpath =>
        simp only [List.filterMap_cons, FormPart.path?, List.map_cons, hpath, ih]
  | file hpath _ => exact congrArg (fun w => [w]) hpath
  | _ => rfl

/-- Forms that are alike have entries that are alike, with the same handles. -/
theorem outline_entriesOf {ps qs : List FormPart} (h : FormPart.AllAlike ps qs) (opened : Nat) :
    (entriesOf opened ps).map Entry.outline = (entriesOf opened qs).map Entry.outline := by
  induction h generalizing opened with
  | nil => rfl
  | cons h _ ih =>
    cases h with
    | field hname hvalue =>
      simp only [entriesOf, List.map_cons, Entry.outline, EntryValue.outline, hname, hvalue, ih]
    | file hname hfilename _ _ =>
      simp only [entriesOf, List.map_cons, Entry.outline, EntryValue.outline, hname, hfilename, ih]
    | fileContent hname _ =>
      simp only [entriesOf, List.map_cons, Entry.outline, EntryValue.outline, hname, ih]

/-- Bodies that are alike are passed alike. -/
theorem outline_ofBody {a b : Body} (h : Body.Alike a b) :
    (Content.ofBody a).outline = (Content.ofBody b).outline := by
  cases h with
  | raw hcontent _ => exact congrArg Content.data hcontent
  | urlEncoded h => exact congrArg Content.data h
  | multipart h => exact congrArg Content.entries (outline_entriesOf h 0)
  | _ => rfl

/-- Requests that are alike pass header fields that are alike. -/
theorem outline_headersOf {r s : Request} (h : r.Alike .python s) :
    (headersOf r).map Body.pairOutline = (headersOf s).map Body.pairOutline := by
  have hfields : (r.headers.map fun h => (h.name, h.value)).map Body.pairOutline =
      (s.headers.map fun h => (h.name, h.value)).map Body.pairOutline := by
    rw [List.map_map, List.map_map]
    refine map_eq_map_of_determined ?_ h.headers
    intro a b hab
    obtain ⟨hname, hvalue⟩ := Header.mk.inj hab
    exact Prod.ext hname hvalue
  have himplied (i : Option Word) :
      (i.toList.map fun type => (Word.ofString "Content-Type", type)).map Body.pairOutline =
        (i.map Word.outline).toList.map fun type =>
          ((Word.ofString "Content-Type").outline, type) := by
    cases i with
    | none => rfl
    | some type => rfl
  rw [headersOf, headersOf, List.map_append, List.map_append, hfields, himplied, himplied,
    h.impliedContentType]

/-- The programs for requests of one skeleton have the same outline. -/
theorem outline_ofRequest {r s : Request} (h : r.Alike .python s) {p q : Program}
    (hp : Program.ofRequest r = .ok p) (hq : Program.ofRequest s = .ok q) :
    p.outline = q.outline := by
  unfold Program.ofRequest at hp hq
  split at hp
  · exact absurd hp (by simp)
  split at hq
  · exact absurd hq (by simp)
  obtain rfl := Except.ok.inj hp
  obtain rfl := Except.ok.inj hq
  have himports : importsOf r = importsOf s := by
    rw [importsOf, importsOf, h.usesVariables]
  have hcredentials : (r.credentials.map fun c => (c.user, c.password)).map Body.pairOutline =
      (s.credentials.map fun c => (c.user, c.password)).map Body.pairOutline := by
    have hpair (o : Option Credentials) :
        (o.map fun c => (c.user, c.password)).map Body.pairOutline =
          (o.map Credentials.outline).map fun c => (c.user, c.password) := by
      cases o with
      | none => rfl
      | some c => rfl
    rw [hpair, hpair, h.credentials]
  simp only [Program.outline, himports, outline_headersOf h, outline_filesOf h.body,
    outline_ofBody h.body, outline_ofMethod h.method h.verb, h.url, hcredentials]

end Python
end CurlScribe
