import CurlScribe.Proofs.Target.GoHeaders
import CurlScribe.Proofs.Target.GoScope
import CurlScribe.Proofs.Target.GoSpelling

/-!
# Go programs as they are read

What the rows of a Go source say by themselves: which names a row declares, assigns and uses, and by
which calls it changes the header fields. The rows are taken from the text of the source, and what
is read in them is what the statements of the program say.
-/

namespace CurlScribe
namespace Go
open Code Target

/-! ## Names in rows -/

/-- The words that are no names of variables or packages: keywords, what the language predeclares,
and the blank identifier. -/
def reserved : List Text := ["if", "defer", "var", "nil", "byte", "new", "_"].map String.toList

/-- The names that begin a dotted name, where the first token is selected from what stands before it
or not. -/
def namesFrom (selected : Bool) : List Token → List Text
  | [] => []
  | .name n :: rest =>
    if selected || reserved.contains n then namesFrom false rest else n :: namesFrom false rest
  | .punctuation c :: rest => namesFrom (c == '.') rest
  | _ :: rest => namesFrom false rest

/-- What a row does with names: those that it declares, those that it assigns without declaring any,
and those in its expressions. -/
structure RowNames where
  declares : List Text
  assigns : List Text
  uses : List Text

/-- The names in a row whose expression stands behind an equals sign. -/
def RowNames.ofSides (front back : List Token) : RowNames :=
  if front.getLast? = some (.punctuation ':') ∨ spelt "\tvar" <+: front then
    ⟨namesFrom false front, [], namesFrom false back⟩
  else ⟨[], namesFrom false front, namesFrom false back⟩

/-- The names in a row. In front of an equals sign stand the names that get a value, unless the sign
belongs to a comparison. -/
def RowNames.ofRow (row : List Token) : RowNames :=
  match row.splitOn (.punctuation '=') with
  | [front, back] =>
    if front.getLast? = some (.punctuation '!') then ⟨[], [], namesFrom false row⟩
    else RowNames.ofSides front back
  | _ => ⟨[], [], namesFrom false row⟩

/-- The tokens have the names, whatever follows them. -/
def HasNames (ts : List Token) (names : List Text) : Prop :=
  ∀ rest n, n ∈ namesFrom false (ts ++ rest) ↔ n ∈ names ∨ n ∈ namesFrom false rest

section Names

variable {ts more : List Token} {names others : List Text}

/-- With nothing behind them, tokens have just the names that are read in them. -/
theorem HasNames.mem_iff (h : HasNames ts names) {n : Text} :
    n ∈ namesFrom false ts ↔ n ∈ names := by
  have hn := h [] n
  rwa [List.append_nil, namesFrom, or_iff_left List.not_mem_nil] at hn

/-- Tokens in a row have the names of all of them: none is read over the seam. -/
theorem HasNames.append (h : HasNames ts names) (hmore : HasNames more others) :
    HasNames (ts ++ more) (names ++ others) := by
  intro rest n
  rw [List.append_assoc, h, hmore, List.mem_append, or_assoc]

/-- It is a question of which names there are, and not of how often or in which order. -/
theorem HasNames.congr (h : HasNames ts names) (hmem : ∀ n, n ∈ names ↔ n ∈ others) :
    HasNames ts others := fun rest n => by rw [h, hmem]

theorem hasNames_of_eq (h : ∀ rest, namesFrom false (ts ++ rest) = names ++ namesFrom false rest) :
    HasNames ts names := fun rest n => by rw [h, List.mem_append]

theorem hasNames_string (t : Text) : HasNames [.string t] [] := hasNames_of_eq fun _ => rfl

end Names

/-- Rows with names, and separators without any, have the names of the rows. -/
theorem hasNames_intercalate {sep : String} (hsep : HasNames (spelt sep) [])
    {tss : List (List Token)} {nss : List (List Text)} (h : List.Forall₂ HasNames tss nss) :
    HasNames ((spelt sep).intercalate tss) nss.flatten := by
  induction h with
  | nil => exact hasNames_of_eq fun _ => rfl
  | cons hts htss ih =>
    cases htss with
    | nil => simpa using hts
    | cons _ _ =>
      rw [List.intercalate_cons_cons, List.flatten_cons]
      simpa using (hts.append hsep).append ih

/-- A call has the names of its arguments behind that of its function. -/
theorem hasNames_arguments {tss : List (List Token)} {nss : List (List Text)}
    (h : List.Forall₂ HasNames tss nss) : HasNames (argumentTokens tss) nss.flatten := by
  have hopen : HasNames (spelt "(") [] := hasNames_of_eq fun _ => rfl
  have hcomma : HasNames (spelt ", ") [] := hasNames_of_eq fun _ => rfl
  have hclose : HasNames (spelt ")") [] := hasNames_of_eq fun _ => rfl
  have hall := (hopen.append (hasNames_intercalate hcomma h)).append hclose
  rwa [List.nil_append, List.append_nil] at hall

/-! ## Names in expressions -/

/-- The names of variables and packages that dotted names begin with and look-ups take. -/
def usedNames (selectors : List Selector) (lookups : List Text) : List Text :=
  (selectors.filterMap Selector.variable?).map Variable.name
    ++ (selectors.filterMap Selector.package? ++ lookups.map fun _ => Package.os).map Package.name

theorem mem_usedNames_append (selectors more : List Selector) (lookups others : List Text)
    (n : Text) : n ∈ usedNames (selectors ++ more) (lookups ++ others) ↔
      n ∈ usedNames selectors lookups ++ usedNames more others := by
  simp only [usedNames, List.filterMap_append, List.map_append, List.mem_append]
  tauto

/-- The name that a dotted name begins with is the only one in its tokens. -/
theorem namesFrom_selector (s : Selector) (rest : List Token) :
    namesFrom false (s.tokens ++ rest) =
      namesFrom false [.name s.root.name] ++ namesFrom false rest := by
  have hmembers (members : List Text) : namesFrom false
      ((members.flatMap fun member => [.punctuation '.', .name member]) ++ rest) =
        namesFrom false rest := by
    induction members with
    | nil => rfl
    | cons member members ih => exact ih
  rw [Selector.tokens, List.cons_append, namesFrom, hmembers, namesFrom]
  split <;> rfl

/-- A known selector has the name of its root, if that is a variable or a package. -/
theorem hasNames_selector {s : Selector} (h : s ∈ knownSelectors) :
    HasNames s.tokens (usedNames [s] []) := by
  have hknown : ∀ s ∈ knownSelectors,
      namesFrom false [.name s.root.name] = usedNames [s] [] := by decide
  intro rest n
  rw [namesFrom_selector, hknown s h, List.mem_append]

/-- The names of what is used together are those of each, one after another. -/
theorem mem_usedNames_flatten {α : Type} {f : α → List Selector} {g : α → List Text} {xs : List α}
    {n : Text} : n ∈ (xs.map fun x => usedNames (f x) (g x)).flatten ↔
      n ∈ usedNames (xs.flatMap f) (xs.flatMap g) := by
  induction xs with
  | nil => exact iff_of_false List.not_mem_nil List.not_mem_nil
  | cons x xs ih =>
    rw [List.map_cons, List.flatten_cons, List.mem_append, ih, List.flatMap_cons, List.flatMap_cons,
      mem_usedNames_append, List.mem_append]

/-- Operands have the name of the package of look-ups, if there is one among them. -/
theorem hasNames_operands (operands : List Operand) :
    HasNames ((spelt " + ").intercalate (operands.map goOperandTokens))
      (usedNames [] (operands.filterMap Operand.variable?)) := by
  have hplus : HasNames (spelt " + ") [] := hasNames_of_eq fun _ => rfl
  have hall : List.Forall₂ HasNames (operands.map goOperandTokens)
      (operands.map fun op => usedNames [] op.variable?.toList) := by
    rw [List.forall₂_map_left_iff, List.forall₂_map_right_iff, List.forall₂_same]
    intro op _
    cases op with
    | literal t => exact hasNames_string t
    | lookup name => exact hasNames_of_eq fun _ => rfl
  refine (hasNames_intercalate hplus hall).congr fun n => ?_
  rw [mem_usedNames_flatten, List.flatMap_eq_nil_iff.2 fun _ _ => rfl,
    List.filterMap_eq_flatMap_toList]

theorem selectorsOf_eq (es : List Expr) : Expr.selectorsOf es = es.flatMap Expr.selectors := by
  induction es with
  | nil => rfl
  | cons e es ih => rw [Expr.selectorsOf, ih, List.flatMap_cons]

theorem lookupsOf_eq (es : List Expr) : Expr.lookupsOf es = es.flatMap Expr.lookups := by
  induction es with
  | nil => rfl
  | cons e es ih => rw [Expr.lookupsOf, ih, List.flatMap_cons]

mutual

/-- An expression has the names that its selectors and its look-ups use. -/
theorem Expr.hasNames_tokens :
    (e : Expr) → (∀ s ∈ e.selectors, s ∈ knownSelectors) →
      HasNames e.tokens (usedNames e.selectors e.lookups)
  | .string operands, _ => by
    rw [Expr.tokens, Expr.selectors, Expr.lookups]
    exact hasNames_operands operands
  | .nil, _ => by
    rw [Expr.tokens, Expr.selectors, Expr.lookups]
    exact hasNames_of_eq fun _ => rfl
  | .select s, h => by
    rw [Expr.tokens, Expr.selectors, Expr.lookups]
    exact hasNames_selector (h s (by simp))
  | .call f args, h => by
    rw [Expr.selectors, List.forall_mem_cons] at h
    obtain ⟨hf, hargs⟩ := h
    have hcall := (hasNames_selector hf).append
      (hasNames_arguments (Expr.hasNames_allTokens args hargs))
    rw [Expr.tokens, Expr.selectors, Expr.lookups]
    refine hcall.congr fun n => ?_
    have hcons := mem_usedNames_append [f] (Expr.selectorsOf args) [] (Expr.lookupsOf args) n
    rw [List.mem_append, mem_usedNames_flatten, ← selectorsOf_eq, ← lookupsOf_eq,
      ← List.mem_append, ← hcons]
    rfl
  | .newValue type, h => by
    have hand : HasNames (spelt "&") [] := hasNames_of_eq fun _ => rfl
    have hbraces : HasNames (spelt "\x7b\x7d") [] := hasNames_of_eq fun _ => rfl
    have htype : HasNames type.tokens (usedNames [type] []) := hasNames_selector (h type (by simp))
    rw [Expr.tokens, Expr.selectors, Expr.lookups]
    simpa using (hand.append htype).append hbraces
  | .bytesOf e, h => by
    have hopen : HasNames (spelt "[]byte(") [] := hasNames_of_eq fun _ => rfl
    have hclose : HasNames (spelt ")") [] := hasNames_of_eq fun _ => rfl
    rw [Expr.selectors] at h
    rw [Expr.tokens, Expr.selectors, Expr.lookups]
    simpa using (hopen.append (e.hasNames_tokens h)).append hclose

theorem Expr.hasNames_allTokens :
    (es : List Expr) → (∀ s ∈ Expr.selectorsOf es, s ∈ knownSelectors) →
      List.Forall₂ HasNames (Expr.allTokens es)
        (es.map fun e => usedNames e.selectors e.lookups)
  | [], _ => by
    rw [Expr.allTokens]
    exact .nil
  | e :: rest, h => by
    rw [Expr.selectorsOf, List.forall_mem_append] at h
    rw [Expr.allTokens]
    exact .cons (e.hasNames_tokens h.1) (Expr.hasNames_allTokens rest h.2)

end

/-! ## Names in statements -/

/-- The names that rows declare. -/
def declaredIn (rows : List (List Token)) : List Text :=
  rows.flatMap fun row => (RowNames.ofRow row).declares

/-- The names that rows assign without declaring any. -/
def assignedIn (rows : List (List Token)) : List Text :=
  rows.flatMap fun row => (RowNames.ofRow row).assigns

/-- The names that rows use. -/
def usedIn (rows : List (List Token)) : List Text :=
  rows.flatMap fun row => (RowNames.ofRow row).uses

/-- What the rows say of names is what the statement does. -/
structure Statement.IsReadAs (s : Statement) (rows : List (List Token)) : Prop where
  declares : declaredIn rows = s.declares.map Variable.name
  assigns : assignedIn rows = s.assigns.map Variable.name
  uses : ∀ n, n ∈ usedIn rows ↔ n ∈ s.uses.map Variable.name ++ s.packages.map Package.name

section Rows

variable {front back row : List Token}

/-- A row without an equals sign uses the names that stand in it. -/
theorem RowNames.ofRow_of_not_mem (h : .punctuation '=' ∉ row) :
    RowNames.ofRow row = ⟨[], [], namesFrom false row⟩ := by
  rw [RowNames.ofRow, List.splitOn_eq_singleton h]

/-- A row with one equals sign is read side by side. -/
theorem RowNames.ofRow_append (hfront : .punctuation '=' ∉ front)
    (hback : .punctuation '=' ∉ back) (hnot : front.getLast? ≠ some (.punctuation '!')) :
    RowNames.ofRow (front ++ .punctuation '=' :: back) = RowNames.ofSides front back := by
  have hsplit : (front ++ .punctuation '=' :: back).splitOn (.punctuation '=') = [front, back] := by
    rw [List.splitOn_append_cons_self_of_not_mem hfront, List.splitOn_eq_singleton hback]
  rw [RowNames.ofRow, hsplit]
  exact if_neg hnot

end Rows

/-- The names of targets are those of the variables among them. -/
theorem namesFrom_targetTokens (targets : List (Option Variable)) (rest : List Token) :
    namesFrom false (targetTokens targets ++ rest) =
      (targets.filterMap id).map Variable.name ++ namesFrom false rest := by
  have hone (target : Option Variable) (rest : List Token) :
      namesFrom false (targetToken target :: rest) =
        target.toList.map Variable.name ++ namesFrom false rest := by
    cases target with
    | none => rfl
    | some v => cases v <;> rfl
  induction targets with
  | nil => rfl
  | cons target targets ih =>
    have hmap : ((target :: targets).filterMap id).map Variable.name =
        target.toList.map Variable.name ++ (targets.filterMap id).map Variable.name := by
      cases target <;> rfl
    rw [hmap, List.append_assoc, ← ih]
    cases targets with
    | nil => exact hone target rest
    | cons next targets =>
      rw [targetTokens, List.map_cons, List.map_cons, List.intercalate_cons_cons, List.append_assoc,
        List.append_assoc]
      exact hone target _

/-- No target is the keyword of a declaration. -/
theorem not_isPrefix_var (targets : List (Option Variable)) :
    ¬spelt "\tvar" <+: spelt "\t" ++ targetTokens targets ++ spelt " " := by
  have hsecond : (spelt "\t" ++ targetTokens targets ++ spelt " ")[1]? ≠
      some (.name "var".toList) := by
    cases targets with
    | nil => decide
    | cons target targets =>
      have htarget : (spelt "\t" ++ targetTokens (target :: targets) ++ spelt " ")[1]? =
          some (targetToken target) := by
        cases targets <;> rfl
      rw [htarget]
      cases target with
      | none => decide
      | some v => cases v <;> decide
  rintro ⟨rest, hrest⟩
  rw [← hrest] at hsecond
  exact hsecond rfl

/-- An expression has no equals sign. -/
theorem Expr.assignment_not_mem {e : Expr} (h : ∀ s ∈ e.selectors, s ∈ knownSelectors) :
    .punctuation '=' ∉ e.tokens := by
  have hspells := e.spells_code fun s hs => isSpelt_of_mem_knownSelectors s (h s hs)
  have hlacks := e.lacks_code fun s hs => lacks_of_mem_knownSelectors s (h s hs)
  have hmark : '=' ∈ rowMarks := by decide
  rw [← hspells.tokens_eq]
  exact hlacks.not_mem hmark rfl

theorem assignment_not_mem_targetTokens (targets : List (Option Variable)) :
    .punctuation '=' ∉ targetTokens targets := by
  have hmark : '=' ∈ rowMarks := by decide
  rw [← (spells_targetsCode targets).tokens_eq]
  exact (lacks_targetsCode targets).not_mem hmark rfl

namespace Statement

variable {s : Statement} {e : Expr}

/-- A statement with one expression names what the expression does. -/
theorem selectors_of_values (hs : s.values = [e]) : s.selectors = e.selectors := by
  rw [selectors, hs, Expr.selectorsOf, Expr.selectorsOf, List.append_nil]

/-- The value of a statement has the names of the variables and of the packages that the statement
uses. -/
theorem mem_namesFrom_value (hs : s.values = [e]) (h : ∀ sel ∈ s.selectors, sel ∈ knownSelectors)
    (n : Text) : n ∈ namesFrom false e.tokens ↔
      n ∈ s.uses.map Variable.name ++ s.packages.map Package.name := by
  have hselectors := selectors_of_values hs
  have hlookups : s.lookups = e.lookups := by
    rw [lookups, hs, Expr.lookupsOf, Expr.lookupsOf, List.append_nil]
  rw [hselectors] at h
  rw [uses, packages, hselectors, hlookups]
  exact (e.hasNames_tokens h).mem_iff

/-- A row whose expression stands behind an equals sign. -/
theorem isReadAs_sides {front : List Token} (hs : s.values = [e])
    (h : ∀ sel ∈ s.selectors, sel ∈ knownSelectors) (hfront : .punctuation '=' ∉ front)
    (hnot : front.getLast? ≠ some (.punctuation '!'))
    (hsides : RowNames.ofSides front (spelt " " ++ e.tokens) =
      ⟨s.declares.map Variable.name, s.assigns.map Variable.name, namesFrom false e.tokens⟩) :
    s.IsReadAs [front ++ .punctuation '=' :: (spelt " " ++ e.tokens)] := by
  have hback : .punctuation '=' ∉ spelt " " ++ e.tokens :=
    List.not_mem_append (by decide) (Expr.assignment_not_mem (selectors_of_values hs ▸ h))
  have hrow := (RowNames.ofRow_append hfront hback hnot).trans hsides
  constructor
  · rw [declaredIn, List.flatMap_singleton, hrow]
  · rw [assignedIn, List.flatMap_singleton, hrow]
  · intro n
    rw [usedIn, List.flatMap_singleton, hrow, ← mem_namesFrom_value hs h]

/-- A row without an equals sign, which has its expression behind a keyword or alone. -/
theorem isReadAs_value {front : List Token} (hs : s.values = [e])
    (h : ∀ sel ∈ s.selectors, sel ∈ knownSelectors) (hfront : .punctuation '=' ∉ front)
    (hnames : HasNames front []) (hdeclares : s.declares = []) (hassigns : s.assigns = []) :
    s.IsReadAs [front ++ e.tokens] := by
  have hrow := RowNames.ofRow_of_not_mem
    (List.not_mem_append hfront (Expr.assignment_not_mem (selectors_of_values hs ▸ h)))
  constructor
  · rw [declaredIn, List.flatMap_singleton, hrow, hdeclares]
    rfl
  · rw [assignedIn, List.flatMap_singleton, hrow, hassigns]
    rfl
  · intro n
    rw [usedIn, List.flatMap_singleton, hrow, ← mem_namesFrom_value hs h, hnames,
      or_iff_right List.not_mem_nil]

/-- Targets at the beginning of a row have the names of their variables. -/
theorem namesFrom_targets (targets : List (Option Variable)) (back : List Token) :
    namesFrom false (spelt "\t" ++ targetTokens targets ++ back) =
      (targets.filterMap id).map Variable.name ++ namesFrom false back := by
  rw [List.append_assoc]
  exact namesFrom_targetTokens targets back

theorem assignment_not_mem_targets (targets : List (Option Variable)) :
    .punctuation '=' ∉ spelt "\t" ++ targetTokens targets :=
  List.not_mem_append (by decide) (assignment_not_mem_targetTokens targets)

/-- A definition is read as one by the colon in front of its equals sign. -/
theorem isReadAs_define {targets : List Variable} {value : Expr}
    (h : ∀ sel ∈ (define targets value).selectors, sel ∈ knownSelectors) :
    (define targets value).IsReadAs (define targets value).rows := by
  have hlast : (spelt "\t" ++ targetTokens (targets.map some) ++ spelt " :").getLast? =
      some (.punctuation ':') := by
    rw [List.getLast?_append]
    rfl
  have hnames : namesFrom false (spelt "\t" ++ targetTokens (targets.map some) ++ spelt " :") =
      targets.map Variable.name := by
    rw [namesFrom_targets, List.filterMap_map, Function.id_comp, List.filterMap_some]
    exact List.append_nil _
  have hsides : RowNames.ofSides (spelt "\t" ++ targetTokens (targets.map some) ++ spelt " :")
      (spelt " " ++ value.tokens) =
        ⟨targets.map Variable.name, [], namesFrom false value.tokens⟩ := by
    rw [RowNames.ofSides, if_pos (.inl hlast), hnames]
    rfl
  have hrow : spelt "\t" ++ targetTokens (targets.map some) ++ spelt " := " ++ value.tokens =
      spelt "\t" ++ targetTokens (targets.map some) ++ spelt " :" ++
        .punctuation '=' :: (spelt " " ++ value.tokens) := by
    rw [List.append_assoc, List.append_assoc _ (spelt " :")]
    rfl
  rw [rows, hrow]
  exact isReadAs_sides rfl h (List.not_mem_append (assignment_not_mem_targets _) (by decide))
    (by rw [hlast]; decide) hsides

/-- An assignment is told from a definition by the blank in front of its equals sign, and from a
declaration by what it begins with. -/
theorem isReadAs_assign {targets : List (Option Variable)} {value : Expr}
    (h : ∀ sel ∈ (assign targets value).selectors, sel ∈ knownSelectors) :
    (assign targets value).IsReadAs (assign targets value).rows := by
  have hlast : (spelt "\t" ++ targetTokens targets ++ spelt " ").getLast? =
      some (.layout ' ') := by
    rw [List.getLast?_append]
    rfl
  have hnames : namesFrom false (spelt "\t" ++ targetTokens targets ++ spelt " ") =
      (targets.filterMap id).map Variable.name := by
    rw [namesFrom_targets]
    exact List.append_nil _
  have hdefines : ¬((spelt "\t" ++ targetTokens targets ++ spelt " ").getLast? =
      some (.punctuation ':') ∨
        spelt "\tvar" <+: spelt "\t" ++ targetTokens targets ++ spelt " ") :=
    not_or.2 ⟨by rw [hlast]; decide, not_isPrefix_var targets⟩
  have hsides : RowNames.ofSides (spelt "\t" ++ targetTokens targets ++ spelt " ")
      (spelt " " ++ value.tokens) =
        ⟨[], (targets.filterMap id).map Variable.name, namesFrom false value.tokens⟩ := by
    rw [RowNames.ofSides, if_neg hdefines, hnames]
    rfl
  have hrow : spelt "\t" ++ targetTokens targets ++ spelt " = " ++ value.tokens =
      spelt "\t" ++ targetTokens targets ++ spelt " " ++
        .punctuation '=' :: (spelt " " ++ value.tokens) := by
    rw [List.append_assoc, List.append_assoc _ (spelt " ")]
    rfl
  rw [rows, hrow]
  exact isReadAs_sides rfl h (List.not_mem_append (assignment_not_mem_targets _) (by decide))
    (by rw [hlast]; decide) hsides

/-- A declaration is read as one by its keyword. -/
theorem isReadAs_declare {target : Variable} {value : Expr}
    (h : ∀ sel ∈ (declare target value).selectors, sel ∈ knownSelectors) :
    (declare target value).IsReadAs (declare target value).rows := by
  have hsides : RowNames.ofSides (spelt "\tvar " ++ [.name target.name] ++ spelt " ")
      (spelt " " ++ value.tokens) = ⟨[target.name], [], namesFrom false value.tokens⟩ := by
    cases target <;> rfl
  have hrow : spelt "\tvar " ++ [.name target.name] ++ spelt " = " ++ value.tokens =
      spelt "\tvar " ++ [.name target.name] ++ spelt " " ++
        .punctuation '=' :: (spelt " " ++ value.tokens) := rfl
  rw [rows, hrow]
  refine isReadAs_sides rfl h ?_ ?_ hsides
  · cases target <;> decide
  · cases target <;> decide

/-- What the rows of a statement say of names is what the statement does. -/
theorem isReadAs_rows (h : ∀ sel ∈ s.selectors, sel ∈ knownSelectors) : s.IsReadAs s.rows := by
  cases s with
  | define targets value => exact isReadAs_define h
  | assign targets value => exact isReadAs_assign h
  | declare target value => exact isReadAs_declare h
  | checkError =>
    -- the three rows name the error twice, and the package between
    refine ⟨by decide, by decide, fun n => ?_⟩
    show n ∈ ["err".toList, "log".toList, "err".toList] ↔
      n ∈ ["err".toList, "err".toList, "log".toList]
    simp only [List.mem_cons, List.not_mem_nil, or_false]
    tauto
  | later value =>
    exact isReadAs_value rfl h (by decide) (hasNames_of_eq fun _ => rfl) rfl rfl
  | run value => exact isReadAs_value rfl h (by decide) (hasNames_of_eq fun _ => rfl) rfl rfl
  | gap => exact ⟨rfl, rfl, fun n => Iff.rfl⟩

end Statement

/-! ## Names in sources -/

/-- Rows that the language accepts where the names of `before` have been declared and those of
`after` are used by later rows. -/
structure AreInScope (imports before after : List Text) (rows : List (List Token)) : Prop where
  declares_new : declaredIn rows ≠ [] → ∃ n ∈ declaredIn rows, n ∉ before
  assigns : ∀ n ∈ assignedIn rows, n ∈ before
  uses : ∀ n ∈ usedIn rows, n ∈ before ∨ n ∈ imports
  used : ∀ n ∈ declaredIn rows, n ∈ after

/-- Variables are told apart by their names. -/
theorem Variable.name_injective : Function.Injective Variable.name := by
  intro u v h
  cases u <;> cases v <;> first | rfl | exact absurd h (by decide)

/-- The rows of a scoped statement are in scope. -/
theorem Statement.IsReadAs.areInScope {s : Statement} {rows : List (List Token)}
    (hread : s.IsReadAs rows) {before after : List Variable} (hscoped : s.IsScoped before after)
    {imports : List Package} (himports : ∀ package ∈ s.packages, package ∈ imports)
    {later : List Text} (hlater : ∀ v ∈ after, v.name ∈ later) :
    AreInScope (imports.map Package.name) (before.map Variable.name) later rows where
  declares_new hne := by
    rw [hread.declares] at hne ⊢
    obtain ⟨v, hv, hnew⟩ := hscoped.declares_new fun hnil => hne (by rw [hnil]; rfl)
    refine ⟨v.name, List.mem_map_of_mem hv, fun hmem => hnew ?_⟩
    exact (List.mem_map_of_injective Variable.name_injective).1 hmem
  assigns := by
    rw [hread.assigns, List.forall_mem_map]
    exact fun v hv => List.mem_map_of_mem (hscoped.assigns v hv)
  uses n hn := by
    rcases List.mem_append.1 ((hread.uses n).1 hn) with hn | hn
    · obtain ⟨v, hv, rfl⟩ := List.mem_map.1 hn
      exact .inl (List.mem_map_of_mem (hscoped.uses v hv))
    · obtain ⟨package, hpackage, rfl⟩ := List.mem_map.1 hn
      exact .inr (List.mem_map_of_mem (himports package hpackage))
  used := by
    rw [hread.declares, List.forall_mem_map]
    exact fun v hv => hlater v (hscoped.used v hv)

/-- The rows of statements declare what the statements declare, in order. -/
theorem declaredIn_flatMap_rows {statements : List Statement}
    (h : ∀ s ∈ statements, ∀ sel ∈ s.selectors, sel ∈ knownSelectors) :
    declaredIn (statements.flatMap Statement.rows) =
      (declaredBy statements).map Variable.name := by
  rw [declaredIn, List.flatMap_assoc, declaredBy, List.map_flatMap]
  exact List.flatMap_congr fun s hs => (Statement.isReadAs_rows (h s hs)).declares

/-- What a statement uses is found in its rows. -/
theorem mem_usedIn_flatMap_rows {statements : List Statement}
    (h : ∀ s ∈ statements, ∀ sel ∈ s.selectors, sel ∈ knownSelectors) {s : Statement}
    (hs : s ∈ statements) {n : Text}
    (hn : n ∈ s.uses.map Variable.name ++ s.packages.map Package.name) :
    n ∈ usedIn (statements.flatMap Statement.rows) := by
  rw [usedIn, List.flatMap_assoc]
  exact List.mem_flatMap.2 ⟨s, hs, ((Statement.isReadAs_rows (h s hs)).uses n).2 hn⟩

/-- In the source of a Go client, the rows of every statement use names that rows before them
declare or that are imported; they assign names that are declared, declare something new if they
declare at all, and what they declare is used by rows behind them. Every package that is imported is
used. -/
theorem areInScope_source {settings : List Setting} {r : Request} {source : Source}
    (hr : (Request.ofSettings settings).result = .ok r) (h : r.render .go = .ok source) :
    ∃ groups : List (List (List Token)),
      goLexicon.rows? source.text = some (importRows (Program.ofRequest r).imports
        ++ groups.flatten ++ [spelt "\x7d", []]) ∧
      (∀ front rows back, groups = front ++ rows :: back →
        AreInScope ((Program.ofRequest r).imports.map Package.name) (declaredIn front.flatten)
          (usedIn back.flatten) rows) ∧
      ∀ package ∈ (Program.ofRequest r).imports, package.name ∈ usedIn groups.flatten := by
  have hknown : ∀ s ∈ statementsOf r, ∀ sel ∈ s.selectors, sel ∈ knownSelectors :=
    fun s hs sel hsel => selectors_statementsOf_subset r (List.mem_flatMap.2 ⟨s, hs, hsel⟩)
  obtain ⟨-, hscoped⟩ := isWellScoped_of_ofSettings hr
  -- the rows fall into groups, one for each statement
  refine ⟨(statementsOf r).map Statement.rows, ?source, ?groups, ?imports⟩
  case source =>
    rw [rows?_source h, Program.rows, List.append_assoc]
    rfl
  case groups =>
    intro front rows back hgroups
    obtain ⟨before, tail, hstatements, rfl, htail⟩ := List.map_eq_append_iff.1 hgroups
    obtain ⟨s, after, rfl, rfl, rfl⟩ := List.map_eq_cons_iff.1 htail
    have hbefore : ∀ t ∈ before, ∀ sel ∈ t.selectors, sel ∈ knownSelectors :=
      fun t ht => hknown t (hstatements ▸ List.mem_append_left _ ht)
    have hafter : ∀ t ∈ s :: after, ∀ sel ∈ t.selectors, sel ∈ knownSelectors :=
      fun t ht => hknown t (hstatements ▸ List.mem_append_right _ ht)
    obtain ⟨hs, hlater⟩ := List.forall_mem_cons.1 hafter
    have hin := hscoped.statements_scoped before s after hstatements
    rw [List.nil_append, List.append_nil] at hin
    -- what rows before and behind say is what their statements do
    rw [← List.flatMap_def, ← List.flatMap_def, declaredIn_flatMap_rows hbefore]
    refine (Statement.isReadAs_rows hs).areInScope hin (fun package hpackage => ?_) fun v hv => ?_
    · have hmem : s ∈ statementsOf r :=
        hstatements ▸ List.mem_append_right _ List.mem_cons_self
      exact (hscoped.mem_imports package).2 ⟨s, hmem, hpackage⟩
    · obtain ⟨t, ht, hv⟩ := List.mem_flatMap.1 hv
      exact mem_usedIn_flatMap_rows hlater ht (List.mem_append_left _ (List.mem_map_of_mem hv))
  case imports =>
    intro package hpackage
    obtain ⟨s, hs, hmem⟩ := (hscoped.mem_imports package).1 hpackage
    rw [← List.flatMap_def]
    exact mem_usedIn_flatMap_rows hknown hs (List.mem_append_right _ (List.mem_map_of_mem hmem))

end Go
end CurlScribe
