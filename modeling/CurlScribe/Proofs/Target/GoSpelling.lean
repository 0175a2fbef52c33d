import CurlScribe.Proofs.Target.GoLookups
import CurlScribe.Proofs.Target.Meaning
import CurlScribe.Proofs.Target.Rows
import CurlScribe.Target.Render

/-!
# The rows of Go programs

The source of a Go client is read row by row as the imported paths and the statements of the program
say, in order and with nothing between them. A text in an expression is one token of its row, even
if its literal goes over several lines.
-/

namespace CurlScribe
namespace Go
open Code Target

/-! ## Expressions -/

/-- The tokens of a dotted name. -/
def Selector.tokens (s : Selector) : List Token :=
  .name s.root.name :: s.members.flatMap fun member => [.punctuation '.', .name member]

mutual

/-- The tokens of an expression. -/
def Expr.tokens : Expr → List Token
  | .string operands => (spelt " + ").intercalate (operands.map goOperandTokens)
  | .nil => spelt "nil"
  | .select s => s.tokens
  | .call f args => f.tokens ++ argumentTokens (Expr.allTokens args)
  | .newValue type => spelt "&" ++ type.tokens ++ spelt "\x7b\x7d"
  | .bytesOf e => spelt "[]byte(" ++ e.tokens ++ spelt ")"

def Expr.allTokens : List Expr → List (List Token)
  | [] => []
  | e :: rest => e.tokens :: Expr.allTokens rest

end

/-- The dotted name is written as its tokens. -/
def Selector.IsSpelt (s : Selector) : Prop := Spells IsPhrase s.code s.tokens

/-- What is said of the selectors of all programs is checked for each of the known ones. -/
theorem isSpelt_of_mem_knownSelectors : ∀ s ∈ knownSelectors, s.IsSpelt := by
  have hall : ∀ s ∈ knownSelectors, s.code.IsPhrase ∧ s.code.tokens = s.tokens := by decide
  exact fun s hs => ⟨(hall s hs).1, (hall s hs).2⟩

mutual

/-- An expression is spelt by its code if its selectors are by theirs. -/
theorem Expr.spells_code :
    (e : Expr) → (∀ s ∈ e.selectors, s.IsSpelt) → Spells IsPhrase e.code e.tokens
  | .string operands, _ => by
    rw [Expr.code, Expr.tokens]
    exact AllSpell.join (by decide) (.map fun op _ => spells_goOperandCode op)
  | .nil, _ => by
    rw [Expr.code, Expr.tokens]
    exact ⟨by decide, rfl⟩
  | .select s, h => by
    rw [Expr.code, Expr.tokens]
    exact h s (by simp)
  | .call f args, h => by
    rw [Expr.selectors, List.forall_mem_cons] at h
    obtain ⟨hf, hargs⟩ := h
    rw [Expr.code, Expr.tokens]
    exact (Spells.call hf (Expr.allSpell_codes args hargs)).mono IsLine.isPhrase
  | .newValue type, h => by
    have hand : Spells IsLine (fixed "&") (spelt "&") := ⟨by decide, rfl⟩
    have hbraces : Spells IsFrame (fixed "\x7b\x7d") (spelt "\x7b\x7d") := ⟨by decide, rfl⟩
    have htype : type.IsSpelt := h type (by simp)
    rw [Expr.code, Expr.tokens]
    exact ((hand.append_phrase htype).append_frame hbraces).mono IsLine.isPhrase
  | .bytesOf e, h => by
    have hopen : Spells IsLine (fixed "[]byte(") (spelt "[]byte(") := ⟨by decide, rfl⟩
    have hclose : Spells IsFrame (fixed ")") (spelt ")") := ⟨by decide, rfl⟩
    rw [Expr.selectors] at h
    rw [Expr.code, Expr.tokens]
    exact ((hopen.append_phrase (e.spells_code h)).append_frame hclose).mono IsLine.isPhrase

/-- The arguments of a call are spelt one by one. -/
theorem Expr.allSpell_codes :
    (es : List Expr) → (∀ s ∈ Expr.selectorsOf es, s.IsSpelt) →
      AllSpell (Expr.codes es) (Expr.allTokens es)
  | [], _ => by
    rw [Expr.codes, Expr.allTokens]
    exact .nil
  | e :: rest, h => by
    rw [Expr.selectorsOf, List.forall_mem_append] at h
    rw [Expr.codes, Expr.allTokens]
    exact .cons (e.spells_code h.1) (Expr.allSpell_codes rest h.2)

end

/-! ## Marks in expressions -/

/-- The marks that end a row or the front of one, which no expression is written with. -/
def rowMarks : List Char := ['\n', '=']

/-- No known selector is written with a mark that ends a row or its front. -/
theorem lacks_of_mem_knownSelectors : ∀ s ∈ knownSelectors, Lacks rowMarks s.code := by decide

theorem lacks_operandCode (op : Operand) : Lacks rowMarks (operandCode op) := by
  cases op with
  | literal t => exact lacks_quoted t
  | lookup name =>
    have hgetenv : Lacks rowMarks (Selector.ofPackage .os "Getenv").code := by decide
    exact lacks_append.2 ⟨hgetenv, lacks_arguments (by decide) (by simp)⟩

mutual

/-- The marks stand in no fixed text of an expression, at whatever depth. -/
theorem Expr.lacks_code :
    (e : Expr) → (∀ s ∈ e.selectors, Lacks rowMarks s.code) → Lacks rowMarks e.code
  | .string operands, _ => by
    rw [Expr.code]
    refine lacks_join (by decide) ?_
    rw [List.forall_mem_map]
    exact fun op _ => lacks_operandCode op
  | .nil, _ => by
    rw [Expr.code]
    decide
  | .select s, h => by
    rw [Expr.code]
    exact h s (by simp)
  | .call f args, h => by
    rw [Expr.selectors, List.forall_mem_cons] at h
    obtain ⟨hf, hargs⟩ := h
    rw [Expr.code, lacks_append]
    exact ⟨hf, lacks_arguments (by decide) (Expr.lacks_codes args hargs)⟩
  | .newValue type, h => by
    rw [Expr.code, lacks_append, lacks_append]
    exact ⟨⟨by decide, h type (by simp)⟩, by decide⟩
  | .bytesOf e, h => by
    rw [Expr.selectors] at h
    rw [Expr.code, lacks_append, lacks_append]
    exact ⟨⟨by decide, e.lacks_code h⟩, by decide⟩

/-- Nor do they in arguments. -/
theorem Expr.lacks_codes :
    (es : List Expr) → (∀ s ∈ Expr.selectorsOf es, Lacks rowMarks s.code) →
      ∀ code ∈ Expr.codes es, Lacks rowMarks code
  | [], _ => by
    rw [Expr.codes]
    exact List.forall_mem_nil _
  | e :: rest, h => by
    rw [Expr.selectorsOf, List.forall_mem_append] at h
    rw [Expr.codes]
    exact List.forall_mem_cons.2 ⟨e.lacks_code h.1, Expr.lacks_codes rest h.2⟩

end

/-! ## Statements -/

/-- The token of a variable that is assigned, the blank identifier for none. -/
def targetToken : Option Variable → Token
  | some v => .name v.name
  | none => .name "_".toList

/-- The tokens of the variables that are declared or assigned. -/
def targetTokens (targets : List (Option Variable)) : List Token :=
  (spelt ", ").intercalate (targets.map fun target => [targetToken target])

namespace Statement

/-- The lines of a statement. -/
def lines : Statement → List Code
  | define targets value =>
    [fixed "\t" ++ targetsCode (targets.map some) ++ fixed " := " ++ value.code]
  | assign targets value => [fixed "\t" ++ targetsCode targets ++ fixed " = " ++ value.code]
  | declare target value => [fixed "\tvar " ++ [.code target.name] ++ fixed " = " ++ value.code]
  | checkError => [fixed "\tif err != nil \x7b", fixed "\t\tlog.Fatal(err)", fixed "\t\x7d"]
  | later value => [fixed "\tdefer " ++ value.code]
  | run value => [fixed "\t" ++ value.code]
  | gap => [[]]

/-- The tokens of the lines of a statement. -/
def rows : Statement → List (List Token)
  | define targets value =>
    [spelt "\t" ++ targetTokens (targets.map some) ++ spelt " := " ++ value.tokens]
  | assign targets value => [spelt "\t" ++ targetTokens targets ++ spelt " = " ++ value.tokens]
  | declare target value => [spelt "\tvar " ++ [.name target.name] ++ spelt " = " ++ value.tokens]
  | checkError => [spelt "\tif err != nil \x7b", spelt "\t\tlog.Fatal(err)", spelt "\t\x7d"]
  | later value => [spelt "\tdefer " ++ value.tokens]
  | run value => [spelt "\t" ++ value.tokens]
  | gap => [[]]

end Statement

theorem spells_variable (v : Variable) : Spells IsPhrase [.code v.name] [.name v.name] :=
  spells_name (by cases v <;> decide)

/-- The targets of a definition are spelt by their names, or by a blank one. -/
theorem spells_targetsCode (targets : List (Option Variable)) :
    Spells IsPhrase (targetsCode targets) (targetTokens targets) := by
  refine AllSpell.join (by decide) (.map fun target _ => ?_)
  cases target with
  | some v => exact spells_variable v
  | none => exact ⟨by decide, by decide⟩

theorem lacks_targetsCode (targets : List (Option Variable)) :
    Lacks rowMarks (targetsCode targets) := by
  refine lacks_join (by decide) ?_
  rw [List.forall_mem_map]
  intro target _
  cases target with
  | some v => cases v <;> decide
  | none => decide

namespace Statement

variable {s : Statement}

/-- The selectors of a statement with one expression are those of the expression. -/
theorem forall_mem_selectorsOf_singleton {e : Expr} {p : Selector → Prop}
    (h : ∀ sel ∈ Expr.selectorsOf [e], p sel) : ∀ sel ∈ e.selectors, p sel := by
  rwa [Expr.selectorsOf, Expr.selectorsOf, List.append_nil] at h

/-- The rows of a statement are spelt by its lines. -/
theorem allSpell_lines (h : ∀ sel ∈ s.selectors, sel.IsSpelt) : AllSpell s.lines s.rows := by
  have htab : Spells IsLine (fixed "\t") (spelt "\t") := ⟨by decide, rfl⟩
  -- every statement but the fixed ones is a line and the code of its value
  have hvalue {front : Code} {ts : List Token} {e : Expr} (hfront : Spells IsLine front ts)
      (he : ∀ sel ∈ Expr.selectorsOf [e], sel.IsSpelt) :
      AllSpell [front ++ e.code] [ts ++ e.tokens] :=
    .cons (hfront.append_phrase (e.spells_code (forall_mem_selectorsOf_singleton he))) .nil
  cases s with
  | define targets value =>
    have heq : Spells IsFrame (fixed " := ") (spelt " := ") := ⟨by decide, rfl⟩
    exact hvalue ((htab.append_phrase (spells_targetsCode _)).append_frame heq) h
  | assign targets value =>
    have heq : Spells IsFrame (fixed " = ") (spelt " = ") := ⟨by decide, rfl⟩
    exact hvalue ((htab.append_phrase (spells_targetsCode _)).append_frame heq) h
  | declare target value =>
    have hvar : Spells IsLine (fixed "\tvar ") (spelt "\tvar ") := ⟨by decide, rfl⟩
    have heq : Spells IsFrame (fixed " = ") (spelt " = ") := ⟨by decide, rfl⟩
    exact hvalue ((hvar.append_phrase (spells_variable target)).append_frame heq) h
  | checkError =>
    exact .cons ⟨by decide, rfl⟩ (.cons ⟨by decide, rfl⟩ (.cons ⟨by decide, rfl⟩ .nil))
  | later value =>
    have hdefer : Spells IsLine (fixed "\tdefer ") (spelt "\tdefer ") := ⟨by decide, rfl⟩
    exact hvalue hdefer h
  | run value => exact hvalue htab h
  | gap => exact .cons ⟨rfl, rfl⟩ .nil

/-- A statement breaks no line but between its lines. -/
theorem lacks_lines (h : ∀ sel ∈ s.selectors, Lacks rowMarks sel.code) :
    ∀ line ∈ s.lines, Lacks ['\n'] line := by
  have hvalue {front : Code} {e : Expr} (hfront : Lacks ['\n'] front)
      (he : ∀ sel ∈ Expr.selectorsOf [e], Lacks rowMarks sel.code) :
      ∀ line ∈ [front ++ e.code], Lacks ['\n'] line := by
    have hcode := e.lacks_code (forall_mem_selectorsOf_singleton he)
    exact List.forall_mem_singleton.2 (lacks_append.2 ⟨hfront, hcode.mono (by decide)⟩)
  have htargets (targets : List (Option Variable)) : Lacks ['\n'] (targetsCode targets) :=
    (lacks_targetsCode targets).mono (by decide)
  -- what is not an expression or a target is fixed text
  cases s with
  | define targets value =>
    refine hvalue ?_ h
    simp only [lacks_append]
    exact ⟨⟨by decide, htargets _⟩, by decide⟩
  | assign targets value =>
    refine hvalue ?_ h
    simp only [lacks_append]
    exact ⟨⟨by decide, htargets _⟩, by decide⟩
  | declare target value =>
    refine hvalue ?_ h
    cases target <;> decide
  | checkError => decide
  | later value => exact hvalue (by decide) h
  | run value => exact hvalue (by decide) h
  | gap => decide

/-- The lines of a statement are its code. -/
theorem text_ended_lines (quote : Text → Text) (s : Statement) :
    (ended s.lines).text quote = s.code.text quote := by
  cases s <;> simp [lines, ended, Statement.code, Code.text, fixed]

end Statement

/-! ## Programs -/

/-- The lines of a program. -/
def Program.lines (p : Program) : List Code :=
  [fixed "package main", [], fixed "import ("]
    ++ (p.imports.map fun package => fixed "\t" ++ quoted package.path)
    ++ [fixed ")", [], fixed "func main() \x7b"] ++ p.statements.flatMap Statement.lines
    ++ [fixed "\x7d"]

/-- The rows in front of the statements of a program. -/
def importRows (imports : List Package) : List (List Token) :=
  [spelt "package main", [], spelt "import ("]
    ++ (imports.map fun package => spelt "\t" ++ [.string package.path])
    ++ [spelt ")", [], spelt "func main() \x7b"]

/-- The rows of a program. -/
def Program.rows (p : Program) : List (List Token) :=
  importRows p.imports ++ p.statements.flatMap Statement.rows ++ [spelt "\x7d"]

/-- The lines of a program, each with its end, are its code. -/
theorem Program.text_ended_lines (quote : Text → Text) (p : Program) :
    (ended p.lines).text quote = p.code.text quote := by
  have himport (package : Package) : (ended [fixed "\t" ++ quoted package.path]).text quote =
      (fixed "\t" ++ quoted package.path ++ fixed "\n").text quote := by
    rw [ended, List.flatMap_singleton]
  have himports := text_ended_flatMap himport p.imports
  have hstatements := text_ended_flatMap (Statement.text_ended_lines quote) p.statements
  have hopen : (ended [fixed "package main", [], fixed "import ("]).text quote =
      (fixed "package main\n\nimport (\n").text quote := rfl
  have hmain : (ended [fixed ")", [], fixed "func main() \x7b"]).text quote =
      (fixed ")\n\nfunc main() \x7b\n").text quote := rfl
  have hclose : (ended [fixed "\x7d"]).text quote = (fixed "\x7d\n").text quote := rfl
  rw [Program.lines, Program.code, List.map_eq_flatMap]
  simp only [ended_append, text_append, hopen, himports, hmain, hstatements, hclose]

/-- The lines of a program have its rows for tokens. -/
theorem Program.map_tokens_lines {p : Program}
    (h : ∀ s ∈ p.statements, ∀ sel ∈ s.selectors, sel.IsSpelt) :
    p.lines.map tokens = p.rows := by
  have himport (package : Package) :
      tokens (fixed "\t" ++ quoted package.path) = spelt "\t" ++ [.string package.path] := by
    cases package <;> rfl
  have hstatements : (p.statements.flatMap Statement.lines).map tokens =
      p.statements.flatMap Statement.rows := by
    rw [List.map_flatMap]
    exact List.flatMap_congr fun s hs => (Statement.allSpell_lines (h s hs)).map_tokens
  simp only [Program.lines, Program.rows, importRows, List.map_append, List.map_map, hstatements]
  simp only [Function.comp_def, himport]
  rfl

/-- Each line of a program may stand on a row of its own. -/
theorem Program.isRow_lines {p : Program}
    (h : ∀ s ∈ p.statements, ∀ sel ∈ s.selectors, sel ∈ knownSelectors) :
    ∀ line ∈ p.lines, IsRow line := by
  have himports : ∀ line ∈ p.imports.map fun package => fixed "\t" ++ quoted package.path,
      IsRow line := by
    rw [List.forall_mem_map]
    intro package _
    cases package <;> decide
  have hstatements : ∀ line ∈ p.statements.flatMap Statement.lines, IsRow line := by
    intro line hline
    obtain ⟨s, hs, hline⟩ := List.mem_flatMap.1 hline
    have hspell := Statement.allSpell_lines fun sel hsel =>
      isSpelt_of_mem_knownSelectors sel (h s hs sel hsel)
    have hlacks := Statement.lacks_lines fun sel hsel =>
      lacks_of_mem_knownSelectors sel (h s hs sel hsel)
    exact ⟨hspell.isPhrase line hline, hlacks line hline⟩
  simp only [Program.lines, List.forall_mem_append]
  exact ⟨⟨⟨⟨by decide, himports⟩, by decide⟩, hstatements⟩, by decide⟩

/-- The source of a Go client is read row by row as its imports and its statements, in order. -/
theorem rows?_source {r : Request} {source : Source} (h : r.render .go = .ok source) :
    goLexicon.rows? source.text = some ((Program.ofRequest r).rows ++ [[]]) := by
  obtain rfl := Except.ok.inj h
  have hknown : ∀ s ∈ (Program.ofRequest r).statements, ∀ sel ∈ s.selectors,
      sel ∈ knownSelectors :=
    fun s hs sel hsel => selectors_statementsOf_subset r (List.mem_flatMap.2 ⟨s, hs, hsel⟩)
  have htokens := Program.map_tokens_lines fun s hs sel hsel =>
    isSpelt_of_mem_knownSelectors sel (hknown s hs sel hsel)
  show goLexicon.rows? ((Program.ofRequest r).code.text GoLiteral.quote) = _
  rw [← Program.text_ended_lines, rows?_ended reads_go (Program.isRow_lines hknown), htokens]

end Go
end CurlScribe
