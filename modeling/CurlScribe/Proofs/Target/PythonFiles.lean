import Mathlib.Data.List.Nodup
import CurlScribe.Proofs.Target.Meaning
import CurlScribe.Proofs.Target.PythonHandles
import CurlScribe.Proofs.Target.Rows
import CurlScribe.Target.Render

/-!
# Files that Python programs open

A program whose request reads files makes it inside a block that holds them open. The source is read
here as its lines: the line that opens files names the path of each and a variable for it, the lines
of the block are those of a program that opens nothing, four columns further right, and an entry of
a body in parts refers to the file of its own part. Literals do not reach over the end of a line, so
that no text of the request is in the way of the indentation.
-/

namespace CurlScribe
namespace Python
open Target Code

/-! ## Reading lines -/

/-- The text is an expression for the word: whatever the variables are, it evaluates to what the
word stands for. -/
def Denotes (t : Text) (w : Word) : Prop :=
  ∀ σ, meaning pythonLexicon (evalPython σ) t = some (w.value σ)

/-- The clauses that open files in order, the first of them at the given place. -/
inductive Opens : Nat → List Word → List Text → Prop
  | nil (place : Nat) : Opens place [] []
  | cons {place : Nat} {path : Word} {paths : List Word} {expression : Text} {clauses : List Text}
    (denotes : Denotes expression path) (later : Opens (place + 1) paths clauses) :
    Opens place (path :: paths)
      (("open(".toList ++ expression ++ ", 'rb') as ".toList ++ handle place) :: clauses)

/-- The line that opens files in order. -/
def IsOpening (paths : List Word) (line : Text) : Prop :=
  ∃ clauses, Opens 0 paths clauses ∧
    line = "with ".toList ++ ", ".toList.intercalate clauses ++ ":".toList

/-- The entries of parts in order, and the files that the parts are read from. `opened` is the
number of files that belong to parts before these. -/
inductive Lists : Nat → List FormPart → List Word → List Text → Prop
  | nil (opened : Nat) : Lists opened [] [] []
  | field {opened : Nat} {name value : Word} {parts : List FormPart} {files : List Word}
    {n v : Text} {lines : List Text} (hname : Denotes n name) (hvalue : Denotes v value)
    (later : Lists opened parts files lines) :
    Lists opened (.field name value :: parts) files
      (("    (".toList ++ n ++ ", (None, ".toList ++ v ++ ")),".toList) :: lines)
  | file {opened : Nat} {name filename path : Word} {parts : List FormPart} {files : List Word}
    {n f : Text} {lines : List Text} (hname : Denotes n name) (hfilename : Denotes f filename)
    (later : Lists (opened + 1) parts files lines) :
    Lists opened (.file name filename path :: parts) (path :: files)
      (("    (".toList ++ n ++ ", (".toList ++ f ++ ", ".toList ++ handle opened ++ ")),".toList)
        :: lines)
  | fileContent {opened : Nat} {name path : Word} {parts : List FormPart} {files : List Word}
    {n : Text} {lines : List Text} (hname : Denotes n name)
    (later : Lists (opened + 1) parts files lines) :
    Lists opened (.fileContent name path :: parts) (path :: files)
      (("    (".toList ++ n ++ ", (None, ".toList ++ handle opened ++ ".read())),".toList) :: lines)

/-- The line passes what is called `passed` as the argument of the given name. -/
def Passes (argument passed line : Text) : Prop :=
  ∃ tokens, pythonLexicon.lex line = some tokens ∧
    [.name argument, .punctuation '=', .name passed] <:+: tokens

/-- The statements that make a request with the given body, and the files that the body is read
from: the entries of the parts of the body and the call, or the call alone. -/
def IsRequest : Body → List Word → List Text → Prop
  | .multipart parts, files, statements => ∃ entries call,
    statements = "files = [".toList :: entries ++ ["]".toList, call] ∧
      Lists 0 parts files entries ∧ Passes "files".toList "files".toList call
  | .file path _, files, statements => files = [path] ∧
    ∃ call, statements = [call] ∧ Passes "data".toList (handle 0) call
  | _, files, statements => files = [] ∧ ∃ call, statements = [call]

/-- The body is a file, or one of its parts is read from a file. -/
def ReadsFiles : Body → Prop
  | .file _ _ => True
  | .multipart parts => ∃ part ∈ parts, ∀ name value, part ≠ .field name value
  | _ => False

/-- The variables of open files in lines of which each can be read by itself. -/
def handlesInLines (lines : List Text) : Option (List Text) :=
  (lines.mapM handlesIn).map List.flatten

/-- The line `opening` opens files for the lines of `block`, which are statements that stand four
columns further right. Both name every file that is open, once and in order. -/
structure IsBlock (files : List Word) (statements : List Text) (opening : Text)
    (block : List Text) : Prop where
  isOpening : IsOpening files opening
  deeper : ∀ line ∈ block, "    ".toList <+: line
  drop_eq : block.map (List.drop 4) = statements
  nodup : ((List.range files.length).map handle).Nodup
  handles_opening : handlesInLines [opening] = some ((List.range files.length).map handle)
  handles_block : handlesInLines block = some ((List.range files.length).map handle)

/-- Lines around statements. None of them is like a line that opens files or names a file, and those
behind the statements do not go on with a block. -/
structure IsAround (front statements back : List Text) : Prop where
  not_with : ∀ line ∈ front ++ statements ++ back, ¬"with ".toList <+: line
  not_deeper : ∀ line ∈ back, ¬"    ".toList <+: line
  handles_eq : handlesInLines (front ++ back) = some []

/-! ## Lines of sources -/

/-- Code that is joined is printed as texts that are joined. -/
theorem printed_join (sep : String) (codes : List Code) :
    printed (join sep codes) = sep.toList.intercalate (codes.map printed) := by
  induction codes with
  | nil => rfl
  | cons c codes ih =>
    cases codes with
    | nil => simp [join]
    | cons d codes =>
      rw [join, List.intercalate_cons_cons, printed_append, printed_append, printed_fixed,
        List.map_cons, List.map_cons, List.intercalate_cons_cons]
      exact congrArg (_ ++ ·) ih

/-- The text of solid lines is read as the texts of these lines. -/
theorem splitOn_printed {lines : List Code} (h : ∀ line ∈ lines, line.IsSolid) :
    (printed (lines.flatMap fun line => line ++ fixed "\n")).splitOn '\n' =
      lines.map printed ++ [[]] := by
  have hlines : ∀ line ∈ lines.map printed, '\n' ∉ line := by
    intro line hline
    obtain ⟨code, hcode, rfl⟩ := List.mem_map.1 hline
    have hvisible := (h code hcode).isVisible.text PythonLiteral.isVisible_quote
    exact fun hmem => absurd (hvisible '\n' hmem) (by decide)
  rw [← written_eq, written, ← splitOn_ended '\n' hlines, List.flatMap_map]
  rfl

/-- The handles that lines mention are read from what is printed of them. -/
theorem handlesInLines_map {lines : List Code} (h : ∀ line ∈ lines, IsPhrase line) :
    handlesInLines (lines.map printed) = some (lines.flatMap Code.handles) := by
  have hall : (lines.map printed).mapM handlesIn = some (lines.map Code.handles) := by
    induction lines with
    | nil => rfl
    | cons line lines ih =>
      obtain ⟨hline, hlines⟩ := List.forall_mem_cons.1 h
      rw [List.map_cons, List.mapM_cons, ih hlines,
        show handlesIn (printed line) = _ from hline.handlesIn_text]
      rfl
  rw [handlesInLines, hall]
  rfl

/-! ## The parts of sources -/

/-- The expression for a word denotes it. -/
theorem denotes_exprCode (w : Word) : Denotes (printed (exprCode w)) w :=
  fun σ => meaning_python σ w

@[simp] theorem printed_fileName (n : Nat) : printed (fileName n) = handle n := List.append_nil _

@[simp] theorem printed_arguments (codes : List Code) :
    printed (arguments codes) =
      "(".toList ++ ", ".toList.intercalate (codes.map printed) ++ ")".toList := by
  rw [arguments, printed_append, printed_append, printed_join]
  rfl

theorem printed_openClause (place : Nat) (path : Word) :
    printed (openClause place path) =
      "open(".toList ++ printed (exprCode path) ++ ", 'rb') as ".toList ++ handle place := by
  have hmode : printed (quoted ['r', 'b']) = "'rb'".toList := by decide
  simp [openClause, hmode]

/-- The clauses open the files in order, counting from the place of the first. -/
theorem opens_clauses (place : Nat) (paths : List Word) :
    Opens place paths ((paths.mapIdx fun i => openClause (place + i)).map printed) := by
  induction paths generalizing place with
  | nil => exact .nil place
  | cons path paths ih =>
    have hplaces : (fun i => openClause (place + (i + 1))) =
        fun i => openClause (place + 1 + i) := by
      funext i
      rw [Nat.add_right_comm, Nat.add_assoc]
    rw [List.mapIdx_cons, List.map_cons, printed_openClause, hplaces]
    exact .cons (denotes_exprCode path) (ih (place + 1))

/-- The line that opens files opens those it is given, in order. -/
theorem isOpening_withLine (files : List Word) : IsOpening files (printed (withLine files)) := by
  refine ⟨_, opens_clauses 0 files, ?_⟩
  have hplaces : (fun i => openClause (0 + i)) = openClause := by
    funext i
    rw [Nat.zero_add]
  show printed (fixed "with " ++ join ", " (files.mapIdx openClause) ++ fixed ":") = _
  rw [hplaces, printed_append, printed_append, printed_join, printed_fixed, printed_fixed]

/-- The entries of a form list its parts, each with the handle of its file. Handles are counted on
where the row of parts is cut. -/
theorem lists_entriesOf (opened : Nat) (parts : List FormPart) :
    Lists opened parts (parts.filterMap FormPart.path?)
      (((entriesOf opened parts).map Entry.line).map printed) := by
  induction parts generalizing opened with
  | nil => exact .nil opened
  | cons part parts ih =>
    -- each kind of part has a line of its own form, and those of files count on
    cases part with
    | field name value =>
      have hline : printed (Entry.line ⟨name, .text value⟩) = "    (".toList ++
          printed (exprCode name) ++ ", (None, ".toList ++ printed (exprCode value) ++
            ")),".toList := by
        simp [Entry.line, EntryValue.code]
      rw [entriesOf, List.map_cons, List.map_cons, hline]
      exact .field (denotes_exprCode name) (denotes_exprCode value) (ih opened)
    | file name filename path =>
      have hline : printed (Entry.line ⟨name, .attachment filename opened⟩) = "    (".toList ++
          printed (exprCode name) ++ ", (".toList ++ printed (exprCode filename) ++ ", ".toList ++
            handle opened ++ ")),".toList := by
        simp [Entry.line, EntryValue.code]
      rw [entriesOf, List.map_cons, List.map_cons, hline]
      exact .file (denotes_exprCode name) (denotes_exprCode filename) (ih (opened + 1))
    | fileContent name path =>
      have hline : printed (Entry.line ⟨name, .contents opened⟩) = "    (".toList ++
          printed (exprCode name) ++ ", (None, ".toList ++ handle opened ++
            ".read())),".toList := by
        simp [Entry.line, EntryValue.code]
      rw [entriesOf, List.map_cons, List.map_cons, hline]
      exact .fileContent (denotes_exprCode name) (ih (opened + 1))

/-! ## Calls -/

/-- The tokens of an argument stand among those of the arguments. -/
theorem tokens_infix_join {sep : String} (hsep : IsFrame (fixed sep)) {codes : List Code}
    (h : ∀ c ∈ codes, IsPhrase c) {c : Code} (hc : c ∈ codes) :
    c.tokens <:+: (join sep codes).tokens := by
  induction codes with
  | nil => cases hc
  | cons d codes ih =>
    obtain ⟨hd, hcodes⟩ := List.forall_mem_cons.1 h
    cases codes with
    | nil =>
      obtain rfl := List.mem_singleton.1 hc
      simp [join]
    | cons e codes =>
      have hjoin : join sep (d :: e :: codes) = d ++ fixed sep ++ join sep (e :: codes) := by
        rw [join, List.intercalate_cons_cons]
        rfl
      have hrest := isPhrase_join hsep hcodes
      rw [hjoin, tokens_append (hd.append_frame hsep).isPhrase hrest (.inl (hd.append_frame hsep)),
        tokens_append hd hsep.isTail.isPhrase (.inr hsep.isTail)]
      rcases List.mem_cons.1 hc with rfl | hc
      · rw [List.append_assoc]
        exact (List.prefix_append _ _).isInfix
      · exact (ih hcodes hc).trans (List.suffix_append _ _).isInfix

/-- Every argument of a call is found in it. -/
theorem tokens_infix_arguments {codes : List Code} (h : ∀ c ∈ codes, IsPhrase c) {c : Code}
    (hc : c ∈ codes) : c.tokens <:+: (arguments codes).tokens := by
  have hopen : IsLine (fixed "(") := by decide
  have hclose : IsFrame (fixed ")") := by decide
  have hjoin : IsPhrase (join ", " codes) := isPhrase_join (by decide) h
  rw [arguments, tokens_append (hopen.append_phrase hjoin) hclose.isTail.isPhrase
    (.inr hclose.isTail), tokens_append hopen.isPhrase hjoin (.inl hopen)]
  exact (tokens_infix_join (by decide) h hc).trans ⟨_, _, rfl⟩

/-- The arguments behind the URL stand in the line of the call. -/
theorem tokens_infix_callLine {p : Program} (hsound : p.IsSound) {c : Code}
    (hc : c ∈ p.argumentCodes) : c.tokens <:+: p.callLine.tokens := by
  have hresponse : IsLine (fixed "response = requests.") := by decide
  have hphrases : ∀ c ∈ exprCode p.url :: p.argumentCodes, IsPhrase c :=
    List.forall_mem_cons.2
      ⟨(isSolid_exprCode p.url).isPhrase, fun c hc => (isSolid_argumentCodes p c hc).isPhrase⟩
  have hinside {f : Code} (hf : f.IsPhrase) {codes : List Code} (h : ∀ c ∈ codes, IsPhrase c)
      (hmem : c ∈ codes) :
      c.tokens <:+: (fixed "response = requests." ++ (f ++ arguments codes)).tokens := by
    have harguments := (isFrame_arguments h).isTail
    rw [tokens_append hresponse.isPhrase (hf.append harguments) (.inl hresponse),
      tokens_append hf harguments.isPhrase (.inr harguments)]
    exact (tokens_infix_arguments h hmem).trans
      ((List.suffix_append _ _).trans (List.suffix_append _ _)).isInfix
  -- the general function takes the method in front of the URL
  unfold Program.callLine
  split
  next function hcall =>
    exact hinside (isPhrase_name (hsound.call function hcall)) hphrases (List.mem_cons_of_mem _ hc)
  next method _ =>
    exact hinside (by decide)
      (List.forall_mem_cons.2 ⟨(isSolid_exprCode method).isPhrase, hphrases⟩)
      (List.mem_cons_of_mem _ (List.mem_cons_of_mem _ hc))

/-- The call passes what its arguments say. -/
theorem passes_callLine {p : Program} (hsound : p.IsSound) {c : Code} (hc : c ∈ p.argumentCodes)
    {argument passed : Text}
    (htokens : c.tokens = [.name argument, .punctuation '=', .name passed]) :
    Passes argument passed (printed p.callLine) :=
  ⟨_, (isSolid_callLine hsound).isPhrase.lex_text reads_python,
    htokens ▸ tokens_infix_callLine hsound hc⟩

/-- The statements of a request are those that its body asks for. -/
theorem isRequest_requestLines {r : Request} {p : Program} (h : Program.ofRequest r = .ok p) :
    IsRequest r.body (filesOf r.body) (p.requestLines.map printed) := by
  have hsound := isSound_ofRequest h
  have hcontent := content_ofRequest h
  rw [Program.requestLines, hcontent]
  cases hbody : r.body with
  | multipart parts =>
    have hentries : p.content = .entries (entriesOf 0 parts) := by rw [hcontent, hbody]; rfl
    have hfiles : fixed "files=files" ∈ p.argumentCodes := by
      rw [Program.argumentCodes, hentries]
      exact List.mem_append_left _ (List.mem_append_right _ (List.mem_singleton.2 rfl))
    refine ⟨_, printed p.callLine, ?_, lists_entriesOf 0 parts,
      passes_callLine hsound hfiles (by decide)⟩
    rw [Content.ofBody, entryLines, List.map_append, List.map_append, List.map_append]
    simp only [List.map_cons, List.map_nil, printed_fixed, List.append_assoc, List.cons_append,
      List.nil_append]
  | file path contentType =>
    have hopen : p.content = .openFile := by rw [hcontent, hbody]; rfl
    have hdata : fixed "data=" ++ fileName 0 ∈ p.argumentCodes := by
      rw [Program.argumentCodes, hopen]
      exact List.mem_append_left _ (List.mem_append_right _ (List.mem_singleton.2 rfl))
    exact ⟨rfl, printed p.callLine, rfl, passes_callLine hsound hdata (by decide)⟩
  | empty => exact ⟨rfl, printed p.callLine, rfl⟩
  | raw content contentType => exact ⟨rfl, printed p.callLine, rfl⟩
  | urlEncoded pairs => exact ⟨rfl, printed p.callLine, rfl⟩

/-- Files are listed just if one of the parts is not a plain field. -/
theorem Lists.ne_nil_iff {opened : Nat} {parts : List FormPart} {files : List Word}
    {lines : List Text} (h : Lists opened parts files lines) :
    files ≠ [] ↔ ∃ part ∈ parts, ∀ name value, part ≠ .field name value := by
  induction h with
  | nil opened => simp
  | field _ _ _ ih => simp [ih]
  | file _ _ _ _ => simp
  | fileContent _ _ _ => simp

/-- Files are opened just if the body reads files. -/
theorem IsRequest.ne_nil_iff {body : Body} {files : List Word} {statements : List Text}
    (h : IsRequest body files statements) : files ≠ [] ↔ ReadsFiles body := by
  cases body with
  | multipart parts =>
    obtain ⟨_, _, _, hlists, _⟩ := h
    exact hlists.ne_nil_iff
  | file path contentType =>
    obtain ⟨rfl, _⟩ := h
    simp [ReadsFiles]
  | empty =>
    obtain ⟨rfl, _⟩ := h
    simp [ReadsFiles]
  | raw content contentType =>
    obtain ⟨rfl, _⟩ := h
    simp [ReadsFiles]
  | urlEncoded pairs =>
    obtain ⟨rfl, _⟩ := h
    simp [ReadsFiles]

/-! ## Sources -/

/-- The program with nothing to open. -/
def Program.withoutFiles (p : Program) : Program := { p with files := [] }

/-- In front of the request no handle is mentioned. -/
theorem handles_frontLines {p : Program} (h : p.IsApart) :
    ∀ line ∈ p.frontLines, line.handles = [] := by
  intro line hline
  rcases List.mem_append.1 hline with hline | hline
  · rcases List.mem_append.1 hline with hline | hline
    · rcases List.mem_append.1 hline with hline | hline
      · obtain ⟨name, hname, rfl⟩ := List.mem_map.1 hline
        exact h.imports name hname
      · obtain rfl := List.mem_singleton.1 hline
        decide
    · exact handles_headerLines p.headers line hline
  · exact handles_dataLines p.content line hline

/-- What the lines of the header dictionary begin with. -/
theorem head?_headerLines (headers : List (Word × Word)) :
    ∀ line ∈ headerLines headers,
      (printed line).head? ∈ [some 'h', some ' ', some '\x7d', none] := by
  intro line hline
  unfold headerLines at hline
  split at hline
  · cases hline
  · simp only [List.mem_append, List.mem_cons, List.not_mem_nil, or_false] at hline
    rcases hline with (rfl | hline) | rfl | rfl
    · decide
    · obtain ⟨⟨name, value⟩, -, rfl⟩ := List.mem_map.1 hline
      simp
    · decide
    · decide

theorem head?_dataLines (content : Content) :
    ∀ line ∈ dataLines content, (printed line).head? ∈ [some 'd', none] := by
  intro line hline
  cases content with
  | data content =>
    simp only [dataLines, List.mem_cons, List.not_mem_nil, or_false] at hline
    rcases hline with rfl | rfl
    · simp
    · decide
  | _ => cases hline

theorem head?_requestLines (p : Program) :
    ∀ line ∈ p.requestLines, (printed line).head? ∈ [some 'f', some ' ', some ']', some 'r'] := by
  intro line hline
  rcases List.mem_append.1 hline with hline | hline
  · cases hcontent : p.content with
    | entries entries =>
      simp only [hcontent, entryLines, List.mem_append, List.mem_cons, List.not_mem_nil,
        or_false] at hline
      rcases hline with (rfl | hline) | rfl
      · decide
      · obtain ⟨e, -, rfl⟩ := List.mem_map.1 hline
        simp [Entry.line]
      · decide
    | _ => simp [hcontent, entryLines] at hline
  · obtain rfl := List.mem_singleton.1 hline
    simp [Program.callLine]

/-- What lines in front of the request begin with. None of it is the letter of the line that opens
files. -/
theorem head?_frontLines (p : Program) :
    ∀ line ∈ p.frontLines, (printed line).head? ∈
      [some 'i', none] ++ [some 'h', some ' ', some '\x7d', none] ++ [some 'd', none] := by
  intro line hline
  simp only [Program.frontLines, List.mem_append, List.mem_singleton] at hline
  rcases hline with ((hline | rfl) | hline) | hline
  · obtain ⟨name, -, rfl⟩ := List.mem_map.1 hline
    simp
  · decide
  · exact List.mem_append_left _ (List.mem_append_right _ (head?_headerLines p.headers line hline))
  · exact List.mem_append_right _ (head?_dataLines p.content line hline)

/-- No other line of a program begins as the line does that opens files. -/
theorem head?_lines {p : Program} :
    ∀ line ∈ p.frontLines ++ p.requestLines ++ backLines, (printed line).head? ≠ some 'w' := by
  have hback : ∀ line ∈ backLines, (printed line).head? ≠ some 'w' := by decide
  simp only [List.forall_mem_append]
  refine ⟨⟨fun line hline hhead => ?_, fun line hline hhead => ?_⟩, hback⟩
  · exact absurd (hhead ▸ head?_frontLines p line hline) (by decide)
  · exact absurd (hhead ▸ head?_requestLines p line hline) (by decide)

/-- A source falls into the lines of its program, and an empty one behind the last end. -/
theorem Program.splitOn_source {p : Program} (h : p.IsSound) :
    p.source.text.splitOn '\n' = p.lines.map printed ++ [[]] := by
  rw [Program.source, Program.text_eq h]
  exact splitOn_printed (isSolid_lines h)

theorem Program.isSound_withoutFiles {p : Program} (h : p.IsSound) : p.withoutFiles.IsSound :=
  ⟨h.imports, h.call⟩

/-- Where no files are opened, no line begins like the one that opens them. -/
theorem not_with_lines {p : Program} :
    ∀ line ∈ (p.frontLines ++ p.requestLines ++ backLines).map printed ++ [[]],
      ¬"with ".toList <+: line := by
  intro line hline hprefix
  obtain ⟨rest, rfl⟩ := hprefix
  rcases List.mem_append.1 hline with hline | hline
  · obtain ⟨code, hcode, heq⟩ := List.mem_map.1 hline
    exact head?_lines code hcode (by rw [heq]; rfl)
  · cases List.mem_singleton.1 hline

/-- What follows the request is not indented, so that it ends the block. -/
theorem not_deeper_backLines : ∀ line ∈ backLines.map printed ++ [[]], ¬"    ".toList <+: line := by
  decide

/-- The lines around the request are the same with and without a block. -/
theorem isAround_lines {p : Program} (hsound : p.IsSound) (h : p.IsApart) :
    IsAround (p.frontLines.map printed) (p.requestLines.map printed)
      (backLines.map printed ++ [[]]) where
  not_with := by
    have hlines := not_with_lines (p := p)
    rwa [List.map_append, List.map_append, List.append_assoc] at hlines
  not_deeper := not_deeper_backLines
  handles_eq := by
    -- nothing follows the end of the last line
    have hphrases : ∀ line ∈ p.frontLines ++ (backLines ++ [[]]), line.IsPhrase := by
      have hsolid : ∀ line ∈ p.frontLines ++ p.requestLines ++ backLines, line.IsSolid :=
        isSolid_lines (Program.isSound_withoutFiles hsound)
      simp only [List.mem_append, List.mem_singleton] at hsolid ⊢
      rintro line (hline | hline | rfl)
      · exact (hsolid line (.inl (.inl hline))).isPhrase
      · exact (hsolid line (.inr hline)).isPhrase
      · exact isLine_nil.isPhrase
    have hback : (backLines ++ [[]]).flatMap Code.handles = [] := by decide
    have hfront := List.flatMap_eq_nil_iff.2 (handles_frontLines h)
    have hlines := handlesInLines_map hphrases
    rwa [List.map_append, List.map_append, List.flatMap_append, hfront, hback] at hlines

/-- The request in a block is the line that opens the files and, indented, the lines of the
request. -/
theorem isBlock_lines {p : Program} (hsound : p.IsSound)
    (h : p.requestLines.flatMap Code.handles = (List.range p.files.length).map handle) :
    IsBlock p.files (p.requestLines.map printed) (printed (withLine p.files))
      ((p.requestLines.map indent).map printed) := by
  have hphrases : ∀ line ∈ p.requestLines, line.IsPhrase := fun line hline =>
    (isSolid_requestLines hsound line hline).isPhrase
  have hdeeper : ∀ line ∈ p.requestLines.map indent, line.IsPhrase := by
    intro line hline
    obtain ⟨inner, hinner, rfl⟩ := List.mem_map.1 hline
    exact IsLine.append_phrase (by decide) (hphrases inner hinner)
  -- the parts of the block, one by one
  constructor
  case isOpening => exact isOpening_withLine p.files
  case deeper =>
    intro line hline
    obtain ⟨code, hcode, rfl⟩ := List.mem_map.1 hline
    obtain ⟨inner, -, rfl⟩ := List.mem_map.1 hcode
    exact ⟨printed inner, (printed_indent inner).symm⟩
  case drop_eq =>
    rw [List.map_map, List.map_map]
    refine List.map_congr_left fun line _ => ?_
    show (printed (indent line)).drop 4 = printed line
    rw [printed_indent]
    rfl
  case nodup => exact List.Nodup.map handle_injective List.nodup_range
  case handles_opening =>
    have hwith := (isSolid_withLine p.files).isPhrase
    have hline := handlesInLines_map (List.forall_mem_singleton.2 hwith)
    rwa [List.flatMap_singleton, handles_withLine] at hline
  case handles_block =>
    rw [handlesInLines_map hdeeper, List.flatMap_map, ← h]
    exact congrArg some (List.flatMap_congr fun line hline => handles_indent (hphrases line hline))

/-- A Python program opens files if the body of the request is read from files, and opens these in
order, each under the name of its place. The block that this begins is the statements of the same
program without open files, four columns further right, whatever texts they contain. Every part has
one entry, in order, with the name of the part and the file of the part, and there is no other use
of an open file in the program. -/
theorem files_opened {r : Request} {source : Source} (h : r.render .python = .ok source) :
    ∃ (files : List Word) (front statements back : List Text),
      IsRequest r.body files statements ∧ (files ≠ [] ↔ ReadsFiles r.body) ∧
      IsAround front statements back ∧
      (∀ p, Program.ofRequest r = .ok p →
        p.withoutFiles.source.text.splitOn '\n' = front ++ statements ++ back) ∧
      (files = [] → source.text.splitOn '\n' = front ++ statements ++ back) ∧
      (files ≠ [] → ∃ opening block, IsBlock files statements opening block ∧
        source.text.splitOn '\n' = front ++ opening :: (block ++ back)) := by
  obtain ⟨p, hp, rfl⟩ : ∃ p, Program.ofRequest r = .ok p ∧ p.source = source := by
    cases hp : Program.ofRequest r with
    | error e => rw [Request.render, hp] at h; cases h
    | ok p => rw [Request.render, hp] at h; exact ⟨p, rfl, Except.ok.inj h⟩
  have hsound := isSound_ofRequest hp
  have hrequest := isRequest_requestLines hp
  have hblock := isBlock_lines hsound (handles_requestLines hp)
  rw [← files_ofRequest hp] at hrequest
  refine ⟨p.files, p.frontLines.map printed, p.requestLines.map printed,
    backLines.map printed ++ [[]], hrequest, hrequest.ne_nil_iff,
    isAround_lines hsound (isApart_ofRequest hp), ?without, ?none, ?some⟩
  case without =>
    intro q hq
    obtain rfl := Except.ok.inj (hp.symm.trans hq)
    have hlines : p.withoutFiles.lines = p.frontLines ++ p.requestLines ++ backLines := rfl
    rw [Program.splitOn_source (Program.isSound_withoutFiles hsound), hlines]
    simp only [List.map_append, List.append_assoc]
  case none =>
    -- without files the program is its own plain form
    intro hnone
    have hlines : p.lines = p.frontLines ++ p.requestLines ++ backLines := by
      rw [Program.lines, hnone]
      rfl
    rw [Program.splitOn_source hsound, hlines]
    simp only [List.map_append, List.append_assoc]
  case some =>
    intro hsome
    have hlines : p.lines =
        p.frontLines ++ (withLine p.files :: p.requestLines.map indent) ++ backLines := by
      rw [Program.lines, if_neg (mt List.isEmpty_iff.1 hsome)]
    refine ⟨_, _, hblock, ?_⟩
    rw [Program.splitOn_source hsound, hlines]
    simp only [List.map_append, List.map_cons, List.append_assoc, List.cons_append]

/-- A field whose text has a line that opens files, beside parts that are read from files. -/
theorem files_opened_lines :
    let photo := Word.ofString "it's.png"
    let log := Word.ofString "a\nb.log"
    let request : Request := {
      method := none
      url := Word.ofString "http://a/"
      headers := []
      credentials := none
      body := .multipart [.field (Word.ofString "note") (Word.ofString "1\nwith open('x'):\n    2"),
        .file (Word.ofString "photo") (Word.ofString "\"p\".png") photo,
        .fileContent (Word.ofString "log") log]
      usedVariables := [] }
    ∃ source front statements opening block back,
      request.render .python = .ok source ∧ IsRequest request.body [photo, log] statements ∧
        IsBlock [photo, log] statements opening block ∧ IsAround front statements back ∧
          source.text.splitOn '\n' = front ++ opening :: (block ++ back) := by
  intro photo log request
  obtain ⟨files, front, statements, back, hrequest, -, haround, -, -, hsome⟩ :=
    files_opened (show request.render .python = .ok _ from rfl)
  obtain rfl : files = [photo, log] := by
    obtain ⟨entries, call, -, hlists, -⟩ := hrequest
    cases hlists with
    | field _ _ hlists =>
      cases hlists with
      | file _ _ hlists =>
        cases hlists with
        | fileContent _ hlists =>
          cases hlists
          rfl
  obtain ⟨opening, block, hblock, hlines⟩ := hsome (List.cons_ne_nil _ _)
  exact ⟨_, front, statements, opening, block, back, rfl, hrequest, hblock, haround, hlines⟩

end Python
end CurlScribe
