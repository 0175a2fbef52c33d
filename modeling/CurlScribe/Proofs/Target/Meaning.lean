import CurlScribe.Proofs.Target.Expression
import CurlScribe.Proofs.Target.Spelling

/-!
# Expressions mean their words

The expression that is written for a word is lexed, parsed and evaluated to the texts of the word
and the values of its variables in order, in all three languages. An operand is read on top of
whatever the parser has open, and so is a sum of operands, an array or a call with such terms in it;
the rules are proved of tokens, by induction on the operands or on the items.
-/

namespace CurlScribe
open Code (Spells AllSpell spells_quoted)

namespace Target

/-! ## Operands and terms -/

/-- The parser reads tokens in a row one behind the other. -/
theorem Parser.run_append (levels : Parser) (front back : List Token) :
    Parser.run levels (front ++ back) =
      (Parser.run levels front).bind fun middle => Parser.run middle back := List.foldlM_append

/-- An expression behind the sum of those before it. -/
def addTo : Option Expression → Expression → Expression
  | none, e => e
  | some s, e => .sum s e

/-- Tokens that are one operand: on top of whatever is open, they are parsed as the expression. -/
def IsOperand (tokens : List Token) (e : Expression) : Prop :=
  ∀ bracket items total outer,
    Parser.run (⟨bracket, items, total, none, .nothing⟩ :: outer) tokens =
      some (⟨bracket, items, total, some e, .nothing⟩ :: outer)

/-- Tokens that are an operand or a sum: where an expression may begin, they are parsed as the
expression, of which the last operand is not added yet. -/
def IsTerm (tokens : List Token) (e : Expression) : Prop :=
  ∀ bracket items outer, ∃ total last,
    Parser.run (⟨bracket, items, none, none, .nothing⟩ :: outer) tokens =
      some (⟨bracket, items, total, some last, .nothing⟩ :: outer) ∧ addTo total last = e

variable {tokens : List Token} {e : Expression}

/-- The value of a level is what it has added up. -/
theorem value?_level (bracket : Bracket) (items : List Expression) (total : Option Expression)
    (last : Expression) :
    (⟨bracket, items, total, some last, .nothing⟩ : Level).value? = some (addTo total last) := by
  cases total with
  | none => rfl
  | some s => rfl

/-- The items of a level are those before the last comma and what has been added up behind it. -/
theorem items?_level (bracket : Bracket) (items : List Expression) (total : Option Expression)
    (last : Expression) :
    (⟨bracket, items, total, some last, .nothing⟩ : Level).items? =
      some (items ++ [addTo total last]) := by
  cases items with
  | nil => cases total <;> rfl
  | cons first items => cases total <;> rfl

/-- An operand is a term of its own. -/
theorem IsOperand.isTerm (h : IsOperand tokens e) : IsTerm tokens e :=
  fun bracket items outer => ⟨none, e, h bracket items none outer, rfl⟩

/-- A term alone is parsed as its expression. -/
theorem IsTerm.parse_eq (h : IsTerm tokens e) : parse tokens = some e := by
  obtain ⟨total, last, hrun, rfl⟩ := h .none [] []
  rw [parse, show Parser.run [.opened .none] tokens = _ from hrun]
  exact value?_level .none [] total last

/-- A literal is an operand. -/
theorem isOperand_string (t : Text) : IsOperand [.string t] (.literal t) := fun _ _ _ _ => rfl

/-! ## Sums -/

/-- Operands with `+` between them are parsed as their sum from the left. -/
theorem isTerm_sum {α : Type} {spell : α → List Token} {expr : α → Expression}
    (h : ∀ x, IsOperand (spell x) (expr x)) (x : α) (xs : List α) :
    IsTerm ((spelt " + ").intercalate ((x :: xs).map spell))
      ((xs.map expr).foldl .sum (expr x)) := by
  -- on the operands, for any sum of those before them
  have hsum (x : α) (total : Option Expression) : ∀ bracket items outer, ∃ before last,
      Parser.run (⟨bracket, items, total, none, .nothing⟩ :: outer)
        ((spelt " + ").intercalate ((x :: xs).map spell)) =
          some (⟨bracket, items, before, some last, .nothing⟩ :: outer) ∧
        addTo before last = (xs.map expr).foldl .sum (addTo total (expr x)) := by
    induction xs generalizing x total with
    | nil =>
      intro bracket items outer
      exact ⟨total, expr x, by simpa using h x bracket items total outer, rfl⟩
    | cons y ys ih =>
      intro bracket items outer
      obtain ⟨before, last, hrun, hlast⟩ := ih y (some (addTo total (expr x))) bracket items outer
      refine ⟨before, last, ?_, hlast⟩
      rw [List.map_cons, List.map_cons, List.intercalate_cons_cons, Parser.run_append,
        Parser.run_append, h x bracket items total outer, ← hrun]
      cases total with
      | none => rfl
      | some s => rfl
  exact hsum x none

/-- A sum evaluates to the values of its operands in a row. -/
theorem eval_foldl_sum {eval : Expression → Option Text}
    (hsum : ∀ a b, eval (.sum a b) = (eval a).bind fun s => (eval b).map (s ++ ·))
    {es : List Expression} {values : List Text} (h : es.map eval = values.map some)
    {e : Expression} {t : Text} (he : eval e = some t) :
    eval (es.foldl .sum e) = some (t ++ values.flatten) := by
  induction es generalizing values e t with
  | nil =>
    obtain rfl : values = [] := List.map_eq_nil_iff.1 h.symm
    rw [List.foldl_nil, he, List.flatten_nil, List.append_nil]
  | cons d es ih =>
    cases values with
    | nil => exact absurd h (by simp)
    | cons v values =>
      obtain ⟨hd, hes⟩ := List.cons.inj h
      have hnext : eval (.sum e d) = some (t ++ v) := by
        rw [hsum, he, hd]
        rfl
      rw [List.foldl_cons, ih hes hnext, List.flatten_cons, List.append_assoc]

/-! ## Brackets -/

/-- Terms with commas between them are parsed as the items of an open bracket. -/
theorem run_items {bracket : Bracket} (hb : bracket ≠ .none) {ts : List Token}
    {tss : List (List Token)} {e : Expression} {es : List Expression} (h : IsTerm ts e)
    (hs : List.Forall₂ IsTerm tss es) (items : List Expression) (outer : Parser) :
    ∃ before total last, Parser.run (⟨bracket, items, none, none, .nothing⟩ :: outer)
        ((spelt ", ").intercalate (ts :: tss)) =
          some (⟨bracket, before, total, some last, .nothing⟩ :: outer) ∧
      before ++ [addTo total last] = items ++ e :: es := by
  induction hs generalizing ts e items with
  | nil =>
    obtain ⟨total, last, hrun, rfl⟩ := h bracket items outer
    exact ⟨items, total, last, by simpa using hrun, rfl⟩
  | cons hd _ ih =>
    obtain ⟨total, last, hrun, rfl⟩ := h bracket items outer
    obtain ⟨before, total', last', hrest, hitems⟩ := ih hd (items ++ [addTo total last])
    refine ⟨before, total', last', ?_, by rw [hitems]; simp⟩
    -- the comma moves the term to the items and leaves the level empty
    have hcomma : Parser.run (⟨bracket, items, total, some last, .nothing⟩ :: outer) (spelt ", ") =
        some (⟨bracket, items ++ [addTo total last], none, none, .nothing⟩ :: outer) := by
      cases bracket with
      | none => exact absurd rfl hb
      | call f => cases total <;> rfl
      | array => cases total <;> rfl
    rw [List.intercalate_cons_cons, Parser.run_append, Parser.run_append, hrun, Option.bind_some,
      hcomma, Option.bind_some, hrest]

/-- What stands between two parentheses or brackets are the items of the level. -/
theorem items?_of_run {bracket : Bracket} (hb : bracket ≠ .none) {tss : List (List Token)}
    {es : List Expression} (h : List.Forall₂ IsTerm tss es) (outer : Parser) :
    ∃ l : Level, Parser.run (.opened bracket :: outer) ((spelt ", ").intercalate tss) =
      some (l :: outer) ∧ l.bracket = bracket ∧ l.items? = some es := by
  cases h with
  | nil => exact ⟨.opened bracket, rfl, rfl, rfl⟩
  | cons h hs =>
    obtain ⟨before, total, last, hrun, hitems⟩ := run_items hb h hs [] outer
    exact ⟨_, hrun, rfl, (items?_level bracket before total last).trans (congrArg some hitems)⟩

/-- Arguments behind an operand make it a call. -/
theorem IsOperand.call {f : Expression} (hf : IsOperand tokens f) {tss : List (List Token)}
    {es : List Expression} (h : List.Forall₂ IsTerm tss es) :
    IsOperand (tokens ++ argumentTokens tss) (.call f es) := by
  intro bracket items total outer
  have hb : Bracket.call f ≠ .none := by simp
  obtain ⟨⟨_, _, _, _, _⟩, hrun, rfl, hitems⟩ := items?_of_run hb h
    (⟨bracket, items, total, none, .nothing⟩ :: outer)
  have hopen : Parser.run (⟨bracket, items, total, some f, .nothing⟩ :: outer) (spelt "(") =
      some (.opened (.call f) :: ⟨bracket, items, total, none, .nothing⟩ :: outer) := rfl
  rw [argumentTokens, Parser.run_append, hf, Option.bind_some, Parser.run_append,
    Parser.run_append, hopen, Option.bind_some, hrun, Option.bind_some]
  show Parser.run _ [.punctuation ')'] = _
  rw [Parser.run, List.foldlM_cons, Parser.step, hitems]
  rfl

/-- Items between brackets are an array. -/
theorem isOperand_array {tss : List (List Token)} {es : List Expression}
    (h : List.Forall₂ IsTerm tss es) :
    IsOperand (spelt "[" ++ (spelt ", ").intercalate tss ++ spelt "]") (.array es) := by
  intro bracket items total outer
  have hb : Bracket.array ≠ .none := by simp
  obtain ⟨⟨_, _, _, _, _⟩, hrun, rfl, hitems⟩ := items?_of_run hb h
    (⟨bracket, items, total, none, .nothing⟩ :: outer)
  have hopen : Parser.run (⟨bracket, items, total, none, .nothing⟩ :: outer) (spelt "[") =
      some (.opened .array :: ⟨bracket, items, total, none, .nothing⟩ :: outer) := rfl
  rw [Parser.run_append, Parser.run_append, hopen, Option.bind_some, hrun, Option.bind_some]
  show Parser.run _ [.punctuation ']'] = _
  rw [Parser.run, List.foldlM_cons, Parser.step, hitems]
  rfl

/-- A member that is selected from an operand. -/
theorem IsOperand.member (h : IsOperand tokens e) (m : Text) :
    IsOperand (tokens ++ [.punctuation '.', .name m]) (.member e m) := by
  intro bracket items total outer
  rw [Parser.run_append, h]
  rfl

end Target

/-! ## Values -/

open Target (Environment)

variable (σ : Environment)

/-- The text that a part stands for, a variable that is not set being empty. -/
def WordPart.value : WordPart → Text
  | .text t => t
  | .reference r => (σ r.name).getD []

/-- The texts of a word and the values of its variables in a row. -/
def Word.value (w : Word) : Text := w.parts.flatMap (WordPart.value σ)

/-- The text that an operand stands for. -/
def Operand.value : Operand → Text
  | .literal t => t
  | .lookup name => (σ name).getD []

/-- The operand for a part has the value of the part. -/
theorem Operand.value_ofPart (p : WordPart) : (Operand.ofPart p).value σ = p.value σ := by
  cases p with
  | text t => rfl
  | reference r => rfl

/-- The values of the operands, one behind the other, are the value of the word. -/
theorem Word.flatten_operands (w : Word) :
    (w.operands.map (Operand.value σ)).flatten = w.value σ := by
  rw [Word.operands]
  split
  · next h =>
    rw [Word.value, List.isEmpty_iff.1 h]
    rfl
  · have hvalue : Operand.value σ ∘ Operand.ofPart = WordPart.value σ :=
      funext (Operand.value_ofPart σ)
    rw [List.map_map, hvalue, Word.value, List.flatMap]

/-- A word has at least one operand. -/
theorem Word.exists_operands (w : Word) : ∃ op ops, w.operands = op :: ops := by
  rw [Word.operands]
  split
  · exact ⟨_, _, rfl⟩
  · next h =>
    cases hp : w.parts with
    | nil => exact absurd (List.isEmpty_iff.2 hp) h
    | cons p parts => exact ⟨_, _, rfl⟩

namespace Target

/-- Tokens that are a term for the word: whatever the variables are, what is parsed evaluates to
what the word stands for. -/
def IsTermFor (eval : Environment → Expression → Option Text) (tokens : List Token) (w : Word) :
    Prop :=
  ∃ e, IsTerm tokens e ∧ ∀ σ, eval σ e = some (w.value σ)

/-- The text of code that spells a term for a word evaluates to the value of the word. -/
theorem IsTermFor.meaning_eq {eval : Environment → Expression → Option Text}
    {tokens : List Token} {w : Word} (h : IsTermFor eval tokens w) {L : Lexicon}
    {quote : Text → Text} (hL : L.Reads quote) {code : Code}
    (hcode : Spells Code.IsPhrase code tokens) :
    meaning L (eval σ) (code.text quote) = some (w.value σ) := by
  obtain ⟨e, hterm, heval⟩ := h
  rw [meaning, hcode.shape.lex_text hL, hcode.tokens_eq, Option.bind_some, hterm.parse_eq,
    Option.bind_some, heval]

/-- The operands of a word with `+` between them are a term for it, in a language that adds strings
and whose operands evaluate to their values. -/
theorem isTermFor_sum {eval : Environment → Expression → Option Text}
    (hsum : ∀ σ a b, eval σ (.sum a b) = (eval σ a).bind fun s => (eval σ b).map (s ++ ·))
    {spell : Operand → List Token} {expr : Operand → Expression}
    (hspell : ∀ op, IsOperand (spell op) (expr op))
    (heval : ∀ σ op, eval σ (expr op) = some (op.value σ)) (w : Word) :
    IsTermFor eval ((spelt " + ").intercalate (w.operands.map spell)) w := by
  obtain ⟨op, ops, h⟩ := w.exists_operands
  rw [h]
  refine ⟨_, isTerm_sum hspell op ops, fun σ => ?_⟩
  have hvalues : (ops.map expr).map (eval σ) = (ops.map (Operand.value σ)).map some := by
    rw [List.map_map, List.map_map]
    exact List.map_congr_left fun op _ => heval σ op
  rw [← Word.flatten_operands, h]
  exact eval_foldl_sum (hsum σ) hvalues (heval σ op)

/-! ## Go -/

/-- The tokens of an operand. -/
def goOperandTokens : Operand → List Token
  | .literal t => [.string t]
  | .lookup name => spelt "os.Getenv" ++ argumentTokens [[.string name]]

/-- The expression that an operand is parsed as. -/
def goOperand : Operand → Expression
  | .literal t => .literal t
  | .lookup name => .call (.member (.name "os".toList) "Getenv".toList) [.literal name]

/-- The tokens of the expression for a word. -/
def goTokens (w : Word) : List Token := (spelt " + ").intercalate (w.operands.map goOperandTokens)

theorem spells_goOperandCode (op : Operand) :
    Spells Code.IsPhrase (Go.operandCode op) (goOperandTokens op) := by
  cases op with
  | literal t => exact spells_quoted t
  | lookup name =>
    have hgetenv : Spells Code.IsPhrase (Go.Selector.ofPackage .os "Getenv").code
        (spelt "os.Getenv") := ⟨by decide, by decide⟩
    have hname : AllSpell [Code.quoted name] [[.string name]] := .cons (spells_quoted name) .nil
    exact (hgetenv.call hname).mono Code.IsLine.isPhrase

/-- The expression for a word is spelt by its tokens. -/
theorem spells_go (w : Word) : Spells Code.IsPhrase (Go.Expr.ofWord w).code (goTokens w) := by
  rw [Go.Expr.ofWord, Go.Expr.code]
  exact AllSpell.join (by decide) (.map fun op _ => spells_goOperandCode op)

/-- Operands are added up, and each is a literal or a call on a name. -/
theorem isTermFor_go (w : Word) : IsTermFor evalGo (goTokens w) w := by
  have hspell (op : Operand) : IsOperand (goOperandTokens op) (goOperand op) := by
    cases op with
    | literal t => exact isOperand_string t
    | lookup name => exact fun _ _ _ _ => rfl
  have heval (σ : Environment) (op : Operand) :
      evalGo σ (goOperand op) = some (op.value σ) := by
    cases op with
    | literal t => rfl
    | lookup name => rfl
  exact isTermFor_sum (fun _ _ _ => rfl) hspell heval w

theorem meaning_go (w : Word) :
    meaning goLexicon (evalGo σ) ((Go.Expr.ofWord w).code.text GoLiteral.quote) =
      some (w.value σ) := (isTermFor_go w).meaning_eq σ reads_go (spells_go w)

/-! ## Python -/

/-- The tokens of an operand. -/
def pythonOperandTokens : Operand → List Token
  | .literal t => [.string t]
  | .lookup name => spelt "os.getenv" ++ argumentTokens [[.string name], [.string []]]

/-- The expression that an operand is parsed as. -/
def pythonOperand : Operand → Expression
  | .literal t => .literal t
  | .lookup name =>
    .call (.member (.name "os".toList) "getenv".toList) [.literal name, .literal []]

/-- The tokens of the expression for a word. -/
def pythonTokens (w : Word) : List Token :=
  (spelt " + ").intercalate (w.operands.map pythonOperandTokens)

theorem spells_pythonOperandCode (op : Operand) :
    Spells Code.IsPhrase (Python.operandCode op) (pythonOperandTokens op) := by
  cases op with
  | literal t => exact spells_quoted t
  | lookup name =>
    have hgetenv : Spells Code.IsPhrase (Code.fixed "os.getenv") (spelt "os.getenv") :=
      ⟨by decide, rfl⟩
    have hname : AllSpell [Code.quoted name, Code.quoted []] [[.string name], [.string []]] :=
      .cons (spells_quoted name) (.cons (spells_quoted []) .nil)
    exact (hgetenv.call hname).mono Code.IsLine.isPhrase

theorem spells_python (w : Word) : Spells Code.IsPhrase (Python.exprCode w) (pythonTokens w) :=
  AllSpell.join (by decide) (.map fun op _ => spells_pythonOperandCode op)

/-- Operands are added up here, too. -/
theorem isTermFor_python (w : Word) : IsTermFor evalPython (pythonTokens w) w := by
  have hspell (op : Operand) : IsOperand (pythonOperandTokens op) (pythonOperand op) := by
    cases op with
    | literal t => exact isOperand_string t
    | lookup name => exact fun _ _ _ _ => rfl
  have heval (σ : Environment) (op : Operand) :
      evalPython σ (pythonOperand op) = some (op.value σ) := by
    cases op with
    | literal t => rfl
    | lookup name => rfl
  exact isTermFor_sum (fun _ _ _ => rfl) hspell heval w

theorem meaning_python (w : Word) :
    meaning pythonLexicon (evalPython σ) ((Python.exprCode w).text PythonLiteral.quote) =
      some (w.value σ) := (isTermFor_python w).meaning_eq σ reads_python (spells_python w)

/-! ## Rust -/

/-- The string that a Rust expression evaluates to, borrowed or owned. -/
def evalRustText (σ : Environment) (e : Expression) : Option Text :=
  (evalRust σ e).bind RustValue.text?

/-- The tokens of the look-up of a variable. -/
def rustLookupTokens (name : Text) : List Token :=
  spelt "std::env::var" ++ argumentTokens [[.string name]] ++ spelt ".unwrap_or_default()"

/-- The calls that look up a variable. -/
def rustLookup (name : Text) : Expression :=
  .call (.member (.call (.scoped (.scoped (.name "std".toList) "env".toList) "var".toList)
    [.literal name]) "unwrap_or_default".toList) []

/-- The tokens of an item of an array. -/
def rustOperandTokens : Operand → List Token
  | .literal t => [.string t]
  | .lookup name => rustLookupTokens name ++ spelt ".as_str()"

/-- The expression that an item of an array is parsed as. -/
def rustOperand : Operand → Expression
  | .literal t => .literal t
  | .lookup name => .call (.member (rustLookup name) "as_str".toList) []

/-- The tokens of the expression for a word. -/
def rustTokens (w : Word) : List Token :=
  match w.operands with
  | [.literal t] => [.string t]
  | [.lookup name] => rustLookupTokens name
  | operands => spelt "[" ++ (spelt ", ").intercalate (operands.map rustOperandTokens)
    ++ spelt "].concat()"

theorem spells_rustLookupCode (name : Text) :
    Spells Code.IsPhrase (Rust.lookupCode name) (rustLookupTokens name) := by
  have hvar : Spells Code.IsPhrase (Code.fixed "std::env::var") (spelt "std::env::var") :=
    ⟨by decide, rfl⟩
  have hname : AllSpell [Code.quoted name] [[.string name]] := .cons (spells_quoted name) .nil
  have hdefault : Spells Code.IsFrame (Code.fixed ".unwrap_or_default()")
      (spelt ".unwrap_or_default()") := ⟨by decide, rfl⟩
  have hcall := (hvar.call hname).mono Code.IsLine.isPhrase
  exact (hcall.append_frame hdefault).mono Code.IsLine.isPhrase

theorem spells_rustOperandCode (op : Operand) :
    Spells Code.IsPhrase (Rust.operandCode op) (rustOperandTokens op) := by
  cases op with
  | literal t => exact spells_quoted t
  | lookup name =>
    have hborrow : Spells Code.IsFrame (Code.fixed ".as_str()") (spelt ".as_str()") :=
      ⟨by decide, rfl⟩
    exact ((spells_rustLookupCode name).append_frame hborrow).mono Code.IsLine.isPhrase

theorem spells_rust (w : Word) : Spells Code.IsPhrase (Rust.exprCode w) (rustTokens w) := by
  have hopen : Spells Code.IsLine (Code.fixed "[") (spelt "[") := ⟨by decide, rfl⟩
  have hclose : Spells Code.IsFrame (Code.fixed "].concat()") (spelt "].concat()") :=
    ⟨by decide, rfl⟩
  have hitems : Spells Code.IsPhrase (Code.join ", " (w.operands.map Rust.operandCode))
      ((spelt ", ").intercalate (w.operands.map rustOperandTokens)) :=
    AllSpell.join (by decide) (.map fun op _ => spells_rustOperandCode op)
  have harray := ((hopen.append_phrase hitems).append_frame hclose).mono Code.IsLine.isPhrase
  unfold Rust.exprCode rustTokens
  -- a word with one operand has no array
  generalize w.operands = ops at harray ⊢
  match ops, harray with
  | [], harray => exact harray
  | [.literal t], _ => exact spells_quoted t
  | [.lookup name], _ => exact spells_rustLookupCode name
  | op :: _ :: _, harray => cases op <;> exact harray

/-- A look-up is a call with a chain of methods behind it, none of which opens a sum. -/
theorem isOperand_rustLookup (name : Text) :
    IsOperand (rustLookupTokens name) (rustLookup name) := fun _ _ _ _ => rfl

theorem isOperand_rustOperand (op : Operand) :
    IsOperand (rustOperandTokens op) (rustOperand op) := by
  cases op with
  | literal t => exact isOperand_string t
  | lookup name => exact fun _ _ _ _ => rfl

theorem evalRust_rustLookup (name : Text) :
    evalRust σ (rustLookup name) = some (.owned ((σ name).getD [])) := by
  rw [rustLookup, evalRust, evalRust, if_pos ⟨rfl, rfl, rfl⟩, evalRust]
  rfl

/-- An operand in an array is a borrowed string, as a literal is. -/
theorem evalRust_rustOperand (op : Operand) :
    evalRust σ (rustOperand op) = some (.borrowed (op.value σ)) := by
  cases op with
  | literal t => rw [rustOperand, evalRust]; rfl
  | lookup name =>
    rw [rustOperand, evalRust, evalRust_rustLookup]
    rfl

/-- An array of operands has their values for items. -/
theorem evalArray_map (ops : List Operand) :
    evalArray σ (ops.map rustOperand) = some (ops.map (Operand.value σ)) := by
  induction ops with
  | nil => rw [List.map_nil, evalArray]; rfl
  | cons op ops ih =>
    rw [List.map_cons, evalArray, evalRust_rustOperand, ih]
    rfl

/-- One operand is written as it is, and several are an array that is concatenated. -/
theorem isTermFor_rust (w : Word) : IsTermFor evalRustText (rustTokens w) w := by
  unfold rustTokens
  split
  next t h =>
    refine ⟨.literal t, (isOperand_string t).isTerm, fun σ => ?_⟩
    rw [← Word.flatten_operands, h, List.map_singleton, List.flatten_singleton, evalRustText,
      evalRust]
    rfl
  next name h =>
    refine ⟨rustLookup name, (isOperand_rustLookup name).isTerm, fun σ => ?_⟩
    rw [← Word.flatten_operands, h, List.map_singleton, List.flatten_singleton, evalRustText,
      evalRust_rustLookup]
    rfl
  next =>
    -- several operands are the items of an array, each a term of its own
    have hitems : List.Forall₂ IsTerm (w.operands.map rustOperandTokens)
        (w.operands.map rustOperand) := by
      rw [List.forall₂_map_left_iff, List.forall₂_map_right_iff, List.forall₂_same]
      exact fun op _ => (isOperand_rustOperand op).isTerm
    have htokens : spelt "].concat()" =
        spelt "]" ++ ([.punctuation '.', .name "concat".toList] ++ argumentTokens []) := rfl
    have hconcat := ((isOperand_array hitems).member "concat".toList).call .nil
    rw [List.append_assoc, List.append_assoc, ← htokens] at hconcat
    refine ⟨_, hconcat.isTerm, fun σ => ?_⟩
    rw [← Word.flatten_operands, evalRustText, evalRust, evalRust, evalArray_map]
    rfl

theorem meaning_rust (w : Word) :
    meaning rustLexicon (fun e => (evalRust σ e).bind RustValue.text?)
      ((Rust.exprCode w).text RustLiteral.quote) = some (w.value σ) :=
  (isTermFor_rust w).meaning_eq σ reads_rust (spells_rust w)

/-! ## All languages -/

/-- The expression for a word evaluates to the texts of the word and the values of its variables in
a row, in every language; for the empty word that is the empty text. -/
theorem meaning_expression :
    (∀ w : Word,
      meaning goLexicon (evalGo σ) ((Go.Expr.ofWord w).code.text GoLiteral.quote) =
          some (w.value σ) ∧
        meaning pythonLexicon (evalPython σ) ((Python.exprCode w).text PythonLiteral.quote) =
          some (w.value σ) ∧
        meaning rustLexicon (fun e => (evalRust σ e).bind RustValue.text?)
          ((Rust.exprCode w).text RustLiteral.quote) = some (w.value σ)) ∧
      Word.empty.value σ = [] :=
  ⟨fun w => ⟨meaning_go σ w, meaning_python σ w, meaning_rust σ w⟩, rfl⟩

end Target
end CurlScribe
