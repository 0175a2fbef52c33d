import CurlScribe.Proofs.Request.Variables
import CurlScribe.Proofs.Target.Spelling
import CurlScribe.Target.Style

/-!
# Look-ups in generated code

A program looks a variable up where its tokens are those of a certain call and the literal behind
them is the name. Code is put together from pieces, and a look-up could come to be where two of them
meet; it does not if the front piece does not end with the first tokens of the call. Such code looks
up what its pieces look up, in order.
-/

namespace CurlScribe
namespace Target

/-! ## Look-ups among tokens -/

/-- The value of the literal behind the tokens `opening`, if `tokens` begin with both. -/
def argument? (opening tokens : List Token) : Option Text :=
  match tokens.dropPrefix? opening with
  | some (.string name :: _) => some name
  | _ => none

/-- The values of all literals that stand behind the tokens `opening`, in order. -/
def lookupsIn (opening : List Token) : List Token → List Text
  | [] => []
  | token :: rest => (argument? opening (token :: rest)).toList ++ lookupsIn opening rest

/-- No end of the tokens is the beginning of `opening`. -/
def isClosed (opening : List Token) : List Token → Bool
  | [] => true
  | token :: rest => !(token :: rest).isPrefixOf opening && isClosed opening rest

variable {opening : List Token}

theorem argument?_eq_some {tokens : List Token} {name : Text} :
    argument? opening tokens = some name ↔ opening ++ [.string name] <+: tokens := by
  have hdrop (rest : List Token) :
      tokens.dropPrefix? opening = some rest ↔ tokens = opening ++ rest := by
    simp [List.dropPrefix?_eq_some_iff]
  unfold argument?
  constructor
  · intro h
    split at h
    next name' rest heq =>
      obtain rfl := Option.some.inj h
      rw [(hdrop _).1 heq]
      exact ⟨rest, by simp⟩
    · cases h
  · rintro ⟨rest, rfl⟩
    rw [List.append_assoc] at hdrop ⊢
    rw [(hdrop _).2 rfl]
    rfl

/-- A name is looked up if the beginning of a look-up stands among the tokens, and the name behind
it. -/
theorem mem_lookupsIn {tokens : List Token} {name : Text} :
    name ∈ lookupsIn opening tokens ↔ opening ++ [.string name] <:+: tokens := by
  induction tokens with
  | nil => simp [lookupsIn]
  | cons token rest ih =>
    rw [lookupsIn, List.mem_append, Option.mem_toList, argument?_eq_some, ih, List.infix_cons_iff]

theorem isClosed_cons {token : Token} {rest : List Token} :
    isClosed opening (token :: rest) = true ↔
      ¬token :: rest <+: opening ∧ isClosed opening rest = true := by
  rw [isClosed, Bool.and_eq_true, Bool.not_eq_true', Bool.eq_false_iff, Ne,
    List.isPrefixOf_iff_prefix]

/-- Closed tokens in a row are closed: no look-up begins in one and ends in the next. -/
theorem isClosed_append {front back : List Token} (hfront : isClosed opening front = true)
    (hback : isClosed opening back = true) : isClosed opening (front ++ back) = true := by
  induction front with
  | nil => exact hback
  | cons token front ih =>
    obtain ⟨hhead, hrest⟩ := isClosed_cons.1 hfront
    rw [List.cons_append, isClosed_cons]
    exact ⟨fun h => hhead ((List.prefix_append (token :: front) back).trans h), ih hrest⟩

/-- No look-up comes to be where closed tokens meet others. -/
theorem lookupsIn_append {front : List Token} (hfront : isClosed opening front = true)
    (back : List Token) :
    lookupsIn opening (front ++ back) = lookupsIn opening front ++ lookupsIn opening back := by
  induction front with
  | nil => rfl
  | cons token front ih =>
    obtain ⟨hhead, hrest⟩ := isClosed_cons.1 hfront
    have hargument : argument? opening (token :: front ++ back) =
        argument? opening (token :: front) := by
      ext name
      rw [argument?_eq_some, argument?_eq_some]
      refine ⟨fun h => ?_, fun h => h.trans (List.prefix_append _ _)⟩
      rcases List.prefix_or_prefix_of_prefix h (List.prefix_append (token :: front) back) with
        hin | hover
      · exact hin
      · -- the front would be the opening with its literal, or the beginning of the opening
        rcases List.prefix_concat_iff.1 hover with heq | hover
        · exact heq ▸ List.prefix_rfl
        · exact absurd hover hhead
    rw [List.cons_append, lookupsIn, ih hrest, lookupsIn, List.append_assoc]
    exact congrArg (fun found => found.toList ++ _) hargument

end Target

/-! ## Look-ups in code -/

namespace Code
open Target

variable {opening : List Token} {a b : Code} {m n : List Text}

/-- Code of the given shape whose tokens look up the names in order, by the call that begins with
`opening`, and do not end with a beginning of the call. -/
structure LooksUp (opening : List Token) (shape : Code → Prop) (code : Code) (names : List Text) :
    Prop where
  shape : shape code
  isClosed : isClosed opening code.tokens = true
  lookupsIn_eq : lookupsIn opening code.tokens = names

instance {shape : Code → Prop} [DecidablePred shape] (code : Code) (names : List Text) :
    Decidable (LooksUp opening shape code names) :=
  decidable_of_iff (shape code ∧ Target.isClosed opening code.tokens = true ∧
      lookupsIn opening code.tokens = names)
    ⟨fun ⟨hs, hc, hl⟩ => ⟨hs, hc, hl⟩, fun ⟨hs, hc, hl⟩ => ⟨hs, hc, hl⟩⟩

theorem LooksUp.mono {shape shape' : Code → Prop} (h : LooksUp opening shape a m)
    (himp : shape a → shape' a) : LooksUp opening shape' a m :=
  ⟨himp h.shape, h.isClosed, h.lookupsIn_eq⟩

/-- Code side by side looks up what each side does, if no word goes over the seam. -/
theorem LooksUp.append_of {shape : Code → Prop} (ha : LooksUp opening IsPhrase a m)
    (hb : LooksUp opening IsPhrase b n) (h : a.IsLine ∨ b.IsTail) (hshape : shape (a ++ b)) :
    LooksUp opening shape (a ++ b) (m ++ n) := by
  have htokens := tokens_append ha.shape hb.shape h
  refine ⟨hshape, ?_, ?_⟩
  · rw [htokens]
    exact isClosed_append ha.isClosed hb.isClosed
  · rw [htokens, lookupsIn_append ha.isClosed, ha.lookupsIn_eq, hb.lookupsIn_eq]

/-- A phrase behind a line. -/
theorem LooksUp.append_phrase (ha : LooksUp opening IsLine a m)
    (hb : LooksUp opening IsPhrase b n) : LooksUp opening IsPhrase (a ++ b) (m ++ n) :=
  (ha.mono IsLine.isPhrase).append_of hb (.inl ha.shape) (ha.shape.append_phrase hb.shape)

/-- A frame behind a phrase. -/
theorem LooksUp.append_frame (ha : LooksUp opening IsPhrase a m)
    (hb : LooksUp opening IsFrame b n) : LooksUp opening IsLine (a ++ b) (m ++ n) :=
  ha.append_of (hb.mono fun h => h.isTail.isPhrase) (.inr hb.shape.isTail)
    (ha.shape.append_frame hb.shape)

/-- A line behind a line. -/
theorem LooksUp.append (ha : LooksUp opening IsLine a m) (hb : LooksUp opening IsLine b n) :
    LooksUp opening IsLine (a ++ b) (m ++ n) :=
  (ha.mono IsLine.isPhrase).append_of (hb.mono IsLine.isPhrase) (.inl ha.shape)
    (ha.shape.append hb.shape)

theorem head?_eq_of_opening {token : Token} {tokens : List Token}
    (h : token :: tokens <+: opening) : opening.head? = some token := by
  obtain ⟨rest, rfl⟩ := h
  rfl

/-- A name looks up nothing, and is closed if no look-up begins with it. -/
theorem looksUp_name {name : Text} (h : Text.isName name = true)
    (hne : opening.head? ≠ some (.name name)) : LooksUp opening IsPhrase [.code name] [] := by
  have htokens := tokens_name h
  refine ⟨isPhrase_name h, ?_, ?_⟩
  · rw [htokens, isClosed_cons]
    exact ⟨fun hprefix => hne (head?_eq_of_opening hprefix), rfl⟩
  · rw [htokens, List.eq_nil_iff_forall_not_mem]
    intro n hn
    -- the literal behind the opening would be the name
    rw [mem_lookupsIn] at hn
    have hmem : Token.string n ∈ [Token.name name] := hn.subset (by simp)
    simp at hmem

theorem looksUp_nil : LooksUp opening IsLine [] [] := ⟨rfl, rfl, rfl⟩

/-- Lines in a row look up what each of them does, in order. -/
theorem looksUp_flatMap {α : Type} {f : α → Code} {g : α → List Text} {as : List α}
    (h : ∀ x ∈ as, LooksUp opening IsLine (f x) (g x)) :
    LooksUp opening IsLine (as.flatMap f) (as.flatMap g) := by
  induction as with
  | nil => exact looksUp_nil
  | cons x as ih =>
    rw [List.flatMap_cons, List.flatMap_cons]
    exact (h x List.mem_cons_self).append (ih fun y hy => h y (List.mem_cons_of_mem _ hy))

/-- Codes that are phrases and look up the names in order between them. -/
inductive AllLookUp (opening : List Token) : List Code → List Text → Prop where
  | nil : AllLookUp opening [] []
  | cons {c : Code} {codes : List Code} {m n : List Text} (h : LooksUp opening IsPhrase c m)
    (hs : AllLookUp opening codes n) : AllLookUp opening (c :: codes) (m ++ n)

namespace AllLookUp

variable {codes front back : List Code} {c : Code}

theorem single (h : LooksUp opening IsPhrase c m) : AllLookUp opening [c] m := by
  simpa using cons h nil

theorem pair {d : Code} (hc : LooksUp opening IsPhrase c m) (hd : LooksUp opening IsPhrase d n) :
    AllLookUp opening [c, d] (m ++ n) := cons hc (single hd)

theorem append (hfront : AllLookUp opening front m) (hback : AllLookUp opening back n) :
    AllLookUp opening (front ++ back) (m ++ n) := by
  induction hfront with
  | nil => exact hback
  | cons h _ ih =>
    rw [List.append_assoc]
    exact cons h ih

theorem map {α : Type} {f : α → Code} {g : α → List Text} {as : List α}
    (h : ∀ x ∈ as, LooksUp opening IsPhrase (f x) (g x)) :
    AllLookUp opening (as.map f) (as.flatMap g) := by
  induction as with
  | nil => exact nil
  | cons x as ih =>
    exact cons (h x List.mem_cons_self) (ih fun y hy => h y (List.mem_cons_of_mem _ hy))

/-- Members of a row that are written with their places look up what each of them does. -/
theorem mapIdx {α : Type} {f : Nat → α → Code} {g : α → List Text}
    (h : ∀ i x, LooksUp opening IsPhrase (f i x) (g x)) (as : List α) :
    AllLookUp opening (as.mapIdx f) (as.flatMap g) := by
  induction as generalizing f with
  | nil => exact nil
  | cons x as ih =>
    rw [List.mapIdx_cons]
    exact cons (h 0 x) (ih fun i => h (i + 1))

theorem isPhrase (h : AllLookUp opening codes m) : ∀ c ∈ codes, IsPhrase c := by
  induction h with
  | nil => simp
  | cons h _ ih => exact List.forall_mem_cons.2 ⟨h.shape, ih⟩

/-- A frame between each code and the next. -/
theorem join {sep : String} (hsep : LooksUp opening IsFrame (fixed sep) [])
    (h : AllLookUp opening codes m) : LooksUp opening IsPhrase (Code.join sep codes) m := by
  induction h with
  | nil => exact looksUp_nil.mono IsLine.isPhrase
  | cons hc hrest ih =>
    cases hrest with
    | nil => simpa [Code.join] using hc
    | cons hd hmore =>
      have hpieces := (hc.append_frame hsep).append_phrase ih
      rw [List.append_nil] at hpieces
      rw [Code.join, List.intercalate_cons_cons]
      exact hpieces

end AllLookUp

/-- Parentheses and commas are no part of a look-up that could go on behind them. -/
structure Separates (opening : List Token) : Prop where
  paren : LooksUp opening IsLine (fixed "(") []
  comma : LooksUp opening IsFrame (fixed ", ") []
  close : LooksUp opening IsFrame (fixed ")") []

/-- A call looks up what its arguments do: commas and parentheses begin no look-up. -/
theorem AllLookUp.arguments {codes : List Code} (hsep : Separates opening)
    (h : AllLookUp opening codes m) : LooksUp opening IsFrame (Code.arguments codes) m := by
  have hline := (hsep.paren.append_phrase (h.join hsep.comma)).append_frame hsep.close
  rw [List.nil_append, List.append_nil] at hline
  exact hline.mono fun _ => isFrame_arguments h.isPhrase

/-- A phrase with arguments behind it. -/
theorem LooksUp.call {codes : List Code} (ha : LooksUp opening IsPhrase a m)
    (hsep : Separates opening) (h : AllLookUp opening codes n) :
    LooksUp opening IsLine (a ++ Code.arguments codes) (m ++ n) :=
  ha.append_frame (h.arguments hsep)

/-- How a language writes operands: literal text looks up nothing, and a variable is looked up by
the call that begins with `opening`. -/
structure LooksUpOperands (opening : List Token) (code : Operand → Code) : Prop where
  literal : ∀ t, LooksUp opening IsPhrase (code (.literal t)) []
  lookup : ∀ name, LooksUp opening IsPhrase (code (.lookup name)) [name]

namespace LooksUpOperands

variable {code : Operand → Code}

/-- An operand looks up its variable, if it is one. -/
theorem operand (h : LooksUpOperands opening code) (op : Operand) :
    LooksUp opening IsPhrase (code op) op.variable?.toList := by
  cases op with
  | literal t => exact h.literal t
  | lookup name => exact h.lookup name

/-- Operands in a row look up their variables in order. -/
theorem operands (h : LooksUpOperands opening code) (ops : List Operand) :
    AllLookUp opening (ops.map code) (ops.filterMap Operand.variable?) := by
  rw [List.filterMap_eq_flatMap_toList]
  exact .map fun op _ => h.operand op

end LooksUpOperands

end Code

/-! ## The languages -/

namespace Target

/-- The tokens of `os.Getenv(`. -/
def goOpening : List Token :=
  [.name "os".toList, .punctuation '.', .name "Getenv".toList, .punctuation '(']

/-- The tokens of `os.getenv(`. -/
def pythonOpening : List Token :=
  [.name "os".toList, .punctuation '.', .name "getenv".toList, .punctuation '(']

/-- The tokens of `std::env::var(`. -/
def rustOpening : List Token :=
  [.name "std".toList, .punctuation ':', .punctuation ':', .name "env".toList, .punctuation ':',
    .punctuation ':', .name "var".toList, .punctuation '(']

theorem separates_go : Code.Separates goOpening := ⟨by decide, by decide, by decide⟩

theorem separates_python : Code.Separates pythonOpening := ⟨by decide, by decide, by decide⟩

theorem separates_rust : Code.Separates rustOpening := ⟨by decide, by decide, by decide⟩

end Target

/-- What stands before the name of a variable where a program of the style looks it up. -/
def Style.opening? : Style → Option (List Target.Token)
  | .go => some Target.goOpening
  | .python => some Target.pythonOpening
  | .rust => some Target.rustOpening
  | .http => none

end CurlScribe
