import CurlScribe.Proofs.Target.Phrase
import CurlScribe.Target.GoSyntax
import CurlScribe.Target.PythonSyntax
import CurlScribe.Target.RustSyntax

/-!
# What expressions mean

A word becomes an expression of the target language, and this module says what that expression
evaluates to. The text is lexed and parsed, and the parsed expression is evaluated by the rules of
the language at hand in an environment that gives the variables that are set. Nothing here knows how
expressions are written: parsing and evaluating could fail, and that they do not is part of what is
shown.
-/

namespace CurlScribe
namespace Target

/-! ## Expressions -/

/-- An expression of any of the languages. -/
inductive Expression where
  | literal (value : Text)
  | name (t : Text)
  /-- `e.m` -/
  | member (e : Expression) (m : Text)
  /-- `e::m` -/
  | scoped (e : Expression) (m : Text)
  | call (function : Expression) (arguments : List Expression)
  | sum (a b : Expression)
  | array (items : List Expression)

/-! ## Parsing -/

/-- What an open bracket belongs to. -/
inductive Bracket where
  /-- No bracket: the level of the whole text. -/
  | none
  | call (function : Expression)
  | array

/-- What the last token leaves to be completed. -/
inductive Pending where
  | nothing
  | dot
  | colon
  | twoColons

/-- What has been read since a bracket was opened: the items before the last comma, the sum before
the last `+`, and the operand that is being read. -/
structure Level where
  bracket : Bracket
  items : List Expression
  total : Option Expression
  operand : Option Expression
  pending : Pending

/-- The levels that are open, the innermost first. -/
abbrev Parser := List Level

namespace Level

/-- The level behind a bracket that has just been opened. -/
def opened (bracket : Bracket) : Level := ⟨bracket, [], .none, .none, .nothing⟩

/-- The sum of the operands so far, with the last one. -/
def value? (l : Level) : Option Expression :=
  match l.pending, l.total, l.operand with
  | .nothing, .none, some e => some e
  | .nothing, some s, some e => some (.sum s e)
  | _, _, _ => .none

/-- All items, with the last one; there are none if nothing stands between the brackets. -/
def items? (l : Level) : Option (List Expression) :=
  match l.items, l.pending, l.total, l.operand with
  | [], .nothing, .none, .none => some []
  | _, _, _, _ => l.value?.map fun e => l.items ++ [e]

/-- A primary expression as the operand. -/
def primary (l : Level) (e : Expression) : Option Level :=
  match l.pending, l.operand with
  | .nothing, .none => some { l with operand := some e }
  | _, _ => .none

/-- A name: a primary expression, or what is selected from the operand. -/
def select (l : Level) (m : Text) : Option Level :=
  match l.pending, l.operand with
  | .dot, some e => some { l with operand := some (.member e m), pending := .nothing }
  | .twoColons, some e => some { l with operand := some (.scoped e m), pending := .nothing }
  | _, _ => l.primary (.name m)

/-- A mark that stands between the parts of an operand. -/
def mark (l : Level) (c : Char) : Option Level :=
  match c, l.pending, l.operand with
  | '.', .nothing, some _ => some { l with pending := .dot }
  | ':', .nothing, some _ => some { l with pending := .colon }
  | ':', .colon, some _ => some { l with pending := .twoColons }
  | '+', .nothing, some _ => l.value?.map fun e => { l with total := some e, operand := .none }
  | ',', .nothing, some _ =>
    match l.bracket with
    | .none => .none
    | _ => l.value?.map fun e =>
      { l with items := l.items ++ [e], total := .none, operand := .none }
  | _, _, _ => .none

end Level

namespace Parser

/-- The parser after one more token. -/
def step : Parser → Token → Option Parser
  | [], _ => none
  | levels, .layout ' ' => some levels
  | _, .layout _ => none
  | _, .number _ => none
  | l :: outer, .string value => (l.primary (.literal value)).map (· :: outer)
  | l :: outer, .name m => (l.select m).map (· :: outer)
  | l :: outer, .punctuation '(' =>
    match l.pending, l.operand with
    | .nothing, some f => some (.opened (.call f) :: { l with operand := none } :: outer)
    | _, _ => none
  | l :: outer, .punctuation '[' =>
    match l.pending, l.operand with
    | .nothing, none => some (.opened .array :: l :: outer)
    | _, _ => none
  | l :: next :: outer, .punctuation ')' =>
    match l.bracket with
    | .call f => l.items?.map fun items => { next with operand := some (.call f items) } :: outer
    | _ => none
  | l :: next :: outer, .punctuation ']' =>
    match l.bracket with
    | .array => l.items?.map fun items => { next with operand := some (.array items) } :: outer
    | _ => none
  | l :: outer, .punctuation c => (l.mark c).map (· :: outer)

/-- The parser after tokens. -/
def run (levels : Parser) (tokens : List Token) : Option Parser := tokens.foldlM step levels

end Parser

/-- The expression that a whole row of tokens is. -/
def parse (tokens : List Token) : Option Expression :=
  match Parser.run [.opened .none] tokens with
  | some [l] => l.value?
  | _ => none

/-! ## Evaluating -/

/-- The variables that are set, and their values. -/
abbrev Environment := Text → Option Text

variable (σ : Environment)

/-- The string that a Go expression evaluates to. `os.Getenv` of a variable that is not set is
empty. -/
def evalGo : Expression → Option Text
  | .literal value => some value
  | .sum a b => (evalGo a).bind fun s => (evalGo b).map (s ++ ·)
  | .call (.member (.name package) function) [e] =>
    if package = "os".toList ∧ function = "Getenv".toList then
      (evalGo e).map fun name => (σ name).getD []
    else none
  | _ => none

/-- The string that a Python expression evaluates to. `os.getenv` of a variable that is not set is
its second argument. -/
def evalPython : Expression → Option Text
  | .literal value => some value
  | .sum a b => (evalPython a).bind fun s => (evalPython b).map (s ++ ·)
  | .call (.member (.name module) function) [e, d] =>
    if module = "os".toList ∧ function = "getenv".toList then
      (evalPython e).bind fun name => (evalPython d).map fun default => (σ name).getD default
    else none
  | _ => none

/-- The values of Rust expressions. -/
inductive RustValue where
  /-- A borrowed string. -/
  | borrowed (t : Text)
  /-- An owned string. -/
  | owned (t : Text)
  /-- What the look-up of a variable returns. -/
  | result (found : Option Text)
  /-- An array of borrowed strings. -/
  | array (ts : List Text)

namespace RustValue

/-- The string that a value is, borrowed or owned. -/
def text? : RustValue → Option Text
  | borrowed t => some t
  | owned t => some t
  | _ => none

/-- The value of a method without arguments. -/
def method? (method : Text) : RustValue → Option RustValue
  | result found =>
    if method = "unwrap_or_default".toList then some (owned (found.getD [])) else none
  | owned t => if method = "as_str".toList then some (borrowed t) else none
  | array ts => if method = "concat".toList then some (owned ts.flatten) else none
  | borrowed _ => none

end RustValue

mutual

/-- The value that a Rust expression evaluates to. Operands of an array have to be borrowed
strings, since they are of one type. -/
def evalRust : Expression → Option RustValue
  | .literal value => some (.borrowed value)
  | .array items => (evalArray items).map .array
  | .call (.scoped (.scoped (.name crate) module) function) [e] =>
    if crate = "std".toList ∧ module = "env".toList ∧ function = "var".toList then
      match evalRust e with
      | some (.borrowed name) => some (.result (σ name))
      | _ => none
    else none
  | .call (.member e method) [] => (evalRust e).bind (RustValue.method? method)
  | _ => none

def evalArray : List Expression → Option (List Text)
  | [] => some []
  | e :: rest =>
    match evalRust e with
    | some (.borrowed t) => (evalArray rest).map (t :: ·)
    | _ => none

end

/-- The string that the text of an expression stands for, in a language with the given literals and
rules of evaluation. -/
def meaning (L : Lexicon) (eval : Expression → Option Text) (t : Text) : Option Text :=
  ((L.lex t).bind parse).bind eval

end Target
end CurlScribe
