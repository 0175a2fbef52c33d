import CurlScribe.Proofs.Target.HeaderFields
import CurlScribe.Proofs.Target.PythonFiles

/-!
# Header fields as Python sources give them

The header dictionary is read from the lines of a Python source: it begins and ends with a line of
its own, and each line in between is one entry, whose name and value are parsed and evaluated. What
is read are the entries of the program, in order, and the call passes the dictionary if there is
one.
-/

namespace CurlScribe
namespace Python
open Code Target

section Reading

variable (σ : Environment)

/-- The line that begins the dictionary. -/
def openingLine : Text := "headers = \x7b".toList

/-- The line that ends the dictionary. -/
def closingLine : Text := "\x7d".toList

/-- The lines between the first line that begins a dictionary and the next one that ends it. -/
def dictionaryLines (lines : List Text) : List Text :=
  (lines.dropWhile (· != openingLine)).tail.takeWhile (· != closingLine)

/-- The string that tokens stand for. -/
def valueOf? (tokens : List Token) : Option Text := (parse tokens).bind (evalPython σ)

/-- The entry on a line: a name, a colon, and a value with a comma behind it. -/
def lineField? (line : Text) : Option Field :=
  (pythonLexicon.lex line).bind fun tokens =>
    match tokens.splitOn (.punctuation ':') with
    | [name, value] =>
      if value.getLast? = some (.punctuation ',') then
        (valueOf? σ name).bind fun n => (valueOf? σ value.dropLast).map fun v => (n, v)
      else none
    | _ => none

/-- The entries of the header dictionary of a source, in order. -/
def readFields? (source : Text) : Option (List Field) :=
  (dictionaryLines (source.splitOn '\n')).mapM (lineField? σ)

variable {σ}

/-! ## The lines of a dictionary -/

theorem dictionaryLines_eq_nil {lines : List Text} (h : ∀ line ∈ lines, line ≠ openingLine) :
    dictionaryLines lines = [] := by
  have hdrop : lines.dropWhile (· != openingLine) = [] :=
    List.dropWhile_eq_nil_iff.2 fun line hline => bne_iff_ne.2 (h line hline)
  rw [dictionaryLines, hdrop]
  rfl

/-- The lines of the first dictionary are found between its two marks. -/
theorem dictionaryLines_append {front entries : List Text}
    (hfront : ∀ line ∈ front, line ≠ openingLine) (hentries : ∀ line ∈ entries, line ≠ closingLine)
    (back : List Text) :
    dictionaryLines (front ++ openingLine :: (entries ++ closingLine :: back)) = entries := by
  have hdrop : (front ++ openingLine :: (entries ++ closingLine :: back)).dropWhile
      (· != openingLine) = openingLine :: (entries ++ closingLine :: back) := by
    rw [List.dropWhile_append_of_pos fun line hline => bne_iff_ne.2 (hfront line hline)]
    exact List.dropWhile_cons_of_neg (by simp)
  rw [dictionaryLines, hdrop, List.tail_cons,
    List.takeWhile_append_of_pos fun line hline => bne_iff_ne.2 (hentries line hline)]
  simp

/-! ## Entries -/

/-- There is no colon in an expression, apart from its texts. -/
theorem lacks_exprCode (w : Word) : Lacks [':'] (exprCode w) := by
  refine lacks_join (by decide) ?_
  rw [List.forall_mem_map]
  intro op _
  cases op with
  | literal t => exact lacks_quoted t
  | lookup name => exact lacks_append.2 ⟨by decide, lacks_arguments (by decide) (by simp)⟩

theorem colon_not_mem_pythonTokens (w : Word) : .punctuation ':' ∉ pythonTokens w := by
  rw [← (spells_python w).tokens_eq]
  exact (lacks_exprCode w).not_mem (List.mem_singleton.2 rfl) rfl

/-- The expression for a word is read as the value of the word. -/
theorem valueOf?_pythonTokens (w : Word) : valueOf? σ (pythonTokens w) = some (w.value σ) := by
  obtain ⟨e, hterm, heval⟩ := isTermFor_python w
  rw [valueOf?, hterm.parse_eq, Option.bind_some, heval]

/-- The line of an entry. -/
def entryLine (entry : Word × Word) : Code :=
  fixed "    " ++ exprCode entry.1 ++ fixed ": " ++ exprCode entry.2 ++ fixed ","

/-- The line of an entry is read as the values of its words. -/
theorem lineField?_entryLine (entry : Word × Word) :
    lineField? σ (printed (entryLine entry)) = some (entry.1.value σ, entry.2.value σ) := by
  obtain ⟨name, value⟩ := entry
  have hindent : Spells IsLine (fixed "    ") (spelt "    ") := ⟨by decide, rfl⟩
  have hcolon : Spells IsFrame (fixed ": ") (spelt ": ") := ⟨by decide, rfl⟩
  have hcomma : Spells IsFrame (fixed ",") (spelt ",") := ⟨by decide, rfl⟩
  have hline := (((hindent.append_phrase (spells_python name)).append_frame hcolon).append_phrase
    (spells_python value)).append_frame hcomma
  -- the colon behind the name is the only one
  have hfront : .punctuation ':' ∉ spelt "    " ++ pythonTokens name :=
    List.not_mem_append (by decide) (colon_not_mem_pythonTokens name)
  have hback : .punctuation ':' ∉ spelt " " ++ pythonTokens value ++ [.punctuation ','] :=
    List.not_mem_append (List.not_mem_append (by decide) (colon_not_mem_pythonTokens value))
      (by decide)
  have hsplit : (spelt "    " ++ pythonTokens name ++ spelt ": " ++ pythonTokens value
      ++ spelt ",").splitOn (.punctuation ':') =
        [spelt "    " ++ pythonTokens name,
          spelt " " ++ pythonTokens value ++ [.punctuation ',']] := by
    rw [← List.splitOn_eq_singleton hback, ← List.splitOn_append_cons_self_of_not_mem hfront]
    simp only [List.append_assoc]
    rfl
  have hname : valueOf? σ (spelt "    " ++ pythonTokens name) =
      valueOf? σ (pythonTokens name) := rfl
  have hvalue : valueOf? σ (spelt " " ++ pythonTokens value) =
      valueOf? σ (pythonTokens value) := rfl
  rw [lineField?, entryLine,
    show pythonLexicon.lex (printed _) = _ from hline.lex_text reads_python,
    Option.bind_some, hsplit]
  simp only [List.getLast?_concat, if_true, List.dropLast_concat, hname, hvalue,
    valueOf?_pythonTokens, Option.bind_some, Option.map_some]

/-- An entry is indented, so that it does not end the dictionary. -/
theorem printed_entryLine_ne (entry : Word × Word) : printed (entryLine entry) ≠ closingLine := by
  have hspace : (printed (entryLine entry)).head? = some ' ' := by simp [entryLine]
  intro heq
  rw [heq] at hspace
  exact absurd hspace (by decide)

/-! ## Sources -/

/-- Lines that do not begin as the line does that begins the dictionary. -/
theorem ne_openingLine {line : Text} (h : line.head? ≠ some 'h') : line ≠ openingLine := by
  rintro rfl
  exact h rfl

/-- The lines in front of the dictionary. -/
def importLines (p : Program) : List Code :=
  (p.imports.map fun name => fixed "import " ++ [.code name]) ++ [[]]

/-- The lines behind the dictionary. -/
def restLines (p : Program) : List Code :=
  dataLines p.content
    ++ ((if p.files.isEmpty then p.requestLines
      else withLine p.files :: p.requestLines.map indent) ++ backLines)

theorem lines_eq (p : Program) :
    p.lines = importLines p ++ headerLines p.headers ++ restLines p := by
  simp only [Program.lines, Program.frontLines, importLines, restLines, List.append_assoc]

/-- No dictionary begins among the imports. -/
theorem ne_openingLine_importLines (p : Program) :
    ∀ line ∈ importLines p, printed line ≠ openingLine := by
  simp only [importLines, List.forall_mem_append, List.forall_mem_map]
  exact ⟨fun name _ => ne_openingLine (by simp), by decide⟩

/-- No dictionary begins behind the first one. -/
theorem ne_openingLine_restLines (p : Program) :
    ∀ line ∈ restLines p, printed line ≠ openingLine := by
  have hdata : ∀ line ∈ dataLines p.content, printed line ≠ openingLine := fun line hline =>
    ne_openingLine fun hhead => absurd (hhead ▸ head?_dataLines p.content line hline) (by decide)
  have hrequest : ∀ line ∈ p.requestLines, printed line ≠ openingLine := fun line hline =>
    ne_openingLine fun hhead => absurd (hhead ▸ head?_requestLines p line hline) (by decide)
  have hblock : ∀ line ∈ withLine p.files :: p.requestLines.map indent,
      printed line ≠ openingLine := by
    refine List.forall_mem_cons.2 ⟨ne_openingLine (by simp [withLine]), ?_⟩
    rw [List.forall_mem_map]
    exact fun line _ => ne_openingLine (by simp [printed_indent])
  have hback : ∀ line ∈ backLines, printed line ≠ openingLine := by decide
  simp only [restLines, List.forall_mem_append]
  refine ⟨hdata, ?_, hback⟩
  split
  · exact hrequest
  · exact hblock

/-- The lines of a program, with the dictionary among them if there is one. -/
theorem dictionaryLines_lines (p : Program) :
    dictionaryLines (p.lines.map printed ++ [[]]) = (p.headers.map entryLine).map printed := by
  have himports : ∀ line ∈ (importLines p).map printed, line ≠ openingLine :=
    List.forall_mem_map.2 (ne_openingLine_importLines p)
  rw [lines_eq]
  cases p.headers with
  | nil =>
    have hrest : ∀ line ∈ (restLines p).map printed, line ≠ openingLine :=
      List.forall_mem_map.2 (ne_openingLine_restLines p)
    have hend : ∀ line ∈ ([[]] : List Text), line ≠ openingLine := by decide
    rw [List.map_append, List.map_append]
    refine dictionaryLines_eq_nil ?_
    simp only [List.forall_mem_append]
    exact ⟨⟨⟨himports, List.forall_mem_nil _⟩, hrest⟩, hend⟩
  | cons entry entries =>
    -- entries are indented, so that the first line that ends a dictionary ends this one
    have hentries :
        ∀ line ∈ ((entry :: entries).map entryLine).map printed, line ≠ closingLine := by
      simp only [List.forall_mem_map]
      exact fun entry _ => printed_entryLine_ne entry
    have hdictionary : (headerLines (entry :: entries)).map printed =
        openingLine :: (((entry :: entries).map entryLine).map printed ++ [closingLine, []]) := by
      rw [headerLines, List.isEmpty_cons, if_neg (by decide), List.map_append, List.map_append]
      rfl
    have happend := dictionaryLines_append himports hentries
      ([] :: ((restLines p).map printed ++ [[]]))
    rw [List.map_append, List.map_append, hdictionary, List.append_assoc]
    simpa only [List.cons_append, List.append_assoc, List.nil_append] using happend

/-- The fields that are read in the source of a Python client are the entries of its dictionary, in
order. -/
theorem readFields?_source {r : Request} {p : Program} (h : Program.ofRequest r = .ok p) :
    readFields? σ p.source.text = p.fields? σ := by
  have hread : lineField? σ ∘ printed ∘ entryLine = fun (entry : Word × Word) =>
      (text? σ entry.1).bind fun n => (text? σ entry.2).map fun v => (n, v) := by
    funext entry
    show lineField? σ (printed (entryLine entry)) = _
    rw [lineField?_entryLine, text?, text?, meaning_python, meaning_python]
    rfl
  rw [readFields?, Program.splitOn_source (isSound_ofRequest h), dictionaryLines_lines,
    List.map_map, List.mapM_map, hread]
  rfl

/-- The source of a Python client gives the header fields of the request, in order, and behind them
the content type that the body implies. -/
theorem sentFields_source {r : Request} {source : Source} (h : r.render .python = .ok source) :
    readFields? σ source.text = some (r.sentFields σ) := by
  obtain ⟨p, hp, rfl⟩ := Except.map_eq_ok.1 h
  rw [readFields?_source hp, fields?_ofRequest σ hp]

end Reading

/-- A line passes an argument wherever it stands. -/
theorem passes_indent {line : Code} (hline : line.IsPhrase) {argument passed : Text}
    (h : Passes argument passed (printed line)) :
    Passes argument passed (printed (indent line)) := by
  obtain ⟨ts, hlex, hinfix⟩ := h
  have hindent : IsLine (fixed "    ") := by decide
  obtain rfl : line.tokens = ts :=
    Option.some.inj ((hline.lex_text reads_python).symm.trans hlex)
  refine ⟨_, (hindent.append_phrase hline).lex_text reads_python, ?_⟩
  rw [indent, tokens_append hindent.isPhrase hline (.inl hindent)]
  exact hinfix.trans (List.suffix_append _ _).isInfix

/-- If there is a dictionary, a line of the source passes it to the call. -/
theorem passes_dictionary {r : Request} {p : Program} (h : Program.ofRequest r = .ok p)
    (hheaders : p.headers ≠ []) :
    ∃ line ∈ p.source.text.splitOn '\n', Passes "headers".toList "headers".toList line := by
  have hsound := isSound_ofRequest h
  have hargument : fixed "headers=headers" ∈ p.argumentCodes := by
    rw [Program.argumentCodes, if_neg (mt List.isEmpty_iff.1 hheaders), List.append_assoc]
    exact List.mem_append_left _ (List.mem_singleton.2 rfl)
  have hpasses : Passes "headers".toList "headers".toList (printed p.callLine) :=
    passes_callLine hsound hargument (by decide)
  have hcall : p.callLine ∈ p.requestLines := List.mem_append_right _ (List.mem_singleton.2 rfl)
  rw [Program.splitOn_source hsound, lines_eq, restLines]
  by_cases hfiles : p.files.isEmpty
  · refine ⟨printed p.callLine, ?_, hpasses⟩
    simp only [hfiles, if_true, List.mem_append, List.mem_map]
    exact .inl ⟨p.callLine, .inr (.inr (.inl hcall)), rfl⟩
  · refine ⟨printed (indent p.callLine), ?_,
      passes_indent (isSolid_callLine hsound).isPhrase hpasses⟩
    have hmem : indent p.callLine ∈ withLine p.files :: p.requestLines.map indent :=
      List.mem_cons_of_mem _ (List.mem_map_of_mem hcall)
    simp only [hfiles, Bool.false_eq_true, if_false, List.mem_append, List.mem_map]
    exact .inl ⟨indent p.callLine, .inr (.inr (.inl hmem)), rfl⟩

end Python
end CurlScribe
