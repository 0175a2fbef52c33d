import CurlScribe.Proofs.Target.Phrase
import CurlScribe.Proofs.Word.Encoded
import CurlScribe.Target.GoSyntax
import CurlScribe.Target.PythonSyntax
import CurlScribe.Target.RustSyntax

/-!
# Outlines

The outline of a word keeps which of its parts are text and which are references, and nothing of
what they say. The erasure of code keeps the fixed text, and nothing of the quoted text. The code
for a word is determined by the outline of the word up to erasure, and code that lexes has the
tokens of every other code of its erasure, but for the values of literals.
-/

namespace CurlScribe

/-- What a function says of the elements of a list is determined by what another says of them, if
that is so for each element. -/
theorem map_eq_map_of_determined {α β γ : Type} {f : α → β} {g : α → γ}
    (h : ∀ a b, f a = f b → g a = g b) {as bs : List α} (hm : as.map f = bs.map f) :
    as.map g = bs.map g := by
  induction as generalizing bs with
  | nil =>
    obtain rfl : bs = [] := List.map_eq_nil_iff.1 hm.symm
    rfl
  | cons a as ih =>
    cases bs with
    | nil => exact absurd hm (by simp)
    | cons b bs =>
      obtain ⟨hab, hrest⟩ := List.cons.inj hm
      rw [List.map_cons, List.map_cons, h a b hab, ih hrest]

/-! ## Outlines of words -/

namespace WordPart

/-- The part without what it says. -/
def outline : WordPart → WordPart
  | .text _ => .text []
  | .reference _ => .reference ⟨[], false⟩

@[simp] theorem outline_outline (p : WordPart) : p.outline.outline = p.outline := by
  cases p <;> rfl

/-- Where text has been pushed shows in the outline, but not which text. -/
theorem map_outline_pushText {t : Text} (ht : t ≠ []) (parts : List WordPart) :
    (pushText t parts).map outline = (pushText [' '] (parts.map outline)).map outline := by
  -- any text that is not empty would do for the space
  fun_induction pushText t parts with
  | case1 =>
    cases t with
    | nil => exact absurd rfl ht
    | cons c t => rfl
  | case2 s => rfl
  | case3 p rest hp ih =>
    rw [List.map_cons, ih]
    cases p with
    | reference r => rfl
    | text s =>
      cases rest with
      | nil => exact absurd rfl (hp s rfl)
      | cons q rest => rfl

/-- Parts stay alike if parts that are alike, and not empty, are pushed onto them. -/
theorem map_outline_push {p q : WordPart} (hp : p ≠ .text []) (hq : q ≠ .text [])
    (h : p.outline = q.outline) {ps qs : List WordPart}
    (hs : ps.map outline = qs.map outline) :
    (push ps p).map outline = (push qs q).map outline := by
  cases p with
  | text t =>
    cases q with
    | text u =>
      have ht : t ≠ [] := fun he => hp (congrArg _ he)
      have hu : u ≠ [] := fun he => hq (congrArg _ he)
      rw [push, push, map_outline_pushText ht, map_outline_pushText hu, hs]
    | reference s => exact absurd h (by simp [outline])
  | reference r =>
    cases q with
    | text u => exact absurd h (by simp [outline])
    | reference s =>
      rw [push, push, List.map_append, List.map_append, hs]
      rfl

/-- Parts stay alike if rows that are alike, without empty texts, are pushed onto them. -/
theorem map_outline_foldl_push {ps qs vs ws : List WordPart} (hps : ∀ p ∈ ps, p ≠ .text [])
    (hqs : ∀ q ∈ qs, q ≠ .text []) (h : ps.map outline = qs.map outline)
    (hv : vs.map outline = ws.map outline) :
    (ps.foldl push vs).map outline = (qs.foldl push ws).map outline := by
  induction ps generalizing qs vs ws with
  | nil =>
    obtain rfl : qs = [] := List.map_eq_nil_iff.1 h.symm
    exact hv
  | cons p ps ih =>
    cases qs with
    | nil => exact absurd h (by simp)
    | cons q qs =>
      obtain ⟨hpq, hrest⟩ := List.cons.inj h
      have hpush := map_outline_push (hps p List.mem_cons_self) (hqs q List.mem_cons_self) hpq hv
      have hps' : ∀ a ∈ ps, a ≠ .text [] := fun a ha => hps a (List.mem_cons_of_mem _ ha)
      have hqs' : ∀ a ∈ qs, a ≠ .text [] := fun a ha => hqs a (List.mem_cons_of_mem _ ha)
      have hfold := ih hps' hqs' hrest hpush
      exact hfold

theorem ne_of_isNormal {parts : List WordPart} (h : IsNormal parts) :
    ∀ p ∈ parts, p ≠ .text [] := by
  induction parts with
  | nil => simp
  | cons p rest ih =>
    intro q hq
    rcases List.mem_cons.1 hq with rfl | hr
    · rintro rfl
      exact h.1 rfl
    · cases p with
      | text t => exact ih h.2.2 q hr
      | reference r => exact ih h q hr

end WordPart

namespace Word

/-- The word without what its parts say. -/
def outline (w : Word) : Word := ⟨w.parts.map WordPart.outline⟩

@[simp] theorem outline_outline (w : Word) : w.outline.outline = w.outline := by
  simp [outline]

/-- Words have the same outline if their parts have, one by one. -/
theorem outline_eq_iff {v w : Word} :
    v.outline = w.outline ↔ v.parts.map WordPart.outline = w.parts.map WordPart.outline :=
  Word.mk.injEq _ _ ▸ Iff.rfl

/-- Words stay alike if a character is added to both. -/
theorem outline_pushChar {v w : Word} (h : v.outline = w.outline) (c : Char) :
    (v.pushChar c).outline = (w.pushChar c).outline := by
  have hc : [c] ≠ [] := by simp
  rw [outline_eq_iff] at h ⊢
  show (WordPart.pushText [c] v.parts).map _ = (WordPart.pushText [c] w.parts).map _
  rw [WordPart.map_outline_pushText hc, WordPart.map_outline_pushText hc, h]

/-- Normal words may be appended to words that are alike: what joins them is the same kind of
part. -/
theorem outline_append {v v' w w' : Word} (hw : w.IsNormal) (hw' : w'.IsNormal)
    (hv : v.outline = v'.outline) (h : w.outline = w'.outline) :
    (v ++ w).outline = (v' ++ w').outline := by
  rw [outline_eq_iff] at hv h ⊢
  exact WordPart.map_outline_foldl_push (WordPart.ne_of_isNormal hw)
    (WordPart.ne_of_isNormal hw') h hv

end Word

namespace Body

/-- The outlines of the words of a pair. -/
def pairOutline (pair : Word × Word) : Word × Word := (pair.1.outline, pair.2.outline)

/-- A pair is encoded to a word whose outline that of the pair determines. -/
theorem outline_encodedPair {p q : Word × Word} (hp : p.2.IsNormal) (hq : q.2.IsNormal)
    (h : pairOutline p = pairOutline q) :
    (encodedPair p).outline = (encodedPair q).outline := by
  obtain ⟨hk, hv⟩ := Prod.mk.inj h
  exact Word.outline_append hp hq (Word.outline_pushChar hk '=') hv

/-- The outline of an encoded body is determined by the outlines of its pairs. -/
theorem outline_encoded {ps qs : List (Word × Word)}
    (hp : ∀ p ∈ ps, p.1.IsNormal ∧ p.2.IsNormal) (hq : ∀ q ∈ qs, q.1.IsNormal ∧ q.2.IsNormal)
    (h : ps.map pairOutline = qs.map pairOutline) :
    (encoded ps).outline = (encoded qs).outline := by
  induction ps generalizing qs with
  | nil =>
    obtain rfl : qs = [] := List.map_eq_nil_iff.1 h.symm
    rfl
  | cons p ps ih =>
    cases qs with
    | nil => exact absurd h (by simp)
    | cons q qs =>
      obtain ⟨hpq, hrest⟩ := List.cons.inj h
      have hpair := outline_encodedPair (hp p List.mem_cons_self).2 (hq q List.mem_cons_self).2 hpq
      have hps : ∀ a ∈ ps, a.1.IsNormal ∧ a.2.IsNormal :=
        fun a ha => hp a (List.mem_cons_of_mem _ ha)
      have hqs : ∀ a ∈ qs, a.1.IsNormal ∧ a.2.IsNormal :=
        fun a ha => hq a (List.mem_cons_of_mem _ ha)
      have hih := ih hps hqs hrest
      cases ps with
      | nil =>
        obtain rfl : qs = [] := List.map_eq_nil_iff.1 hrest.symm
        exact hpair
      | cons p' ps =>
        cases qs with
        | nil => exact absurd hrest (by simp)
        | cons q' qs =>
          exact Word.outline_append (isNormal_encoded fun a ha => (hps a ha).1)
            (isNormal_encoded fun a ha => (hqs a ha).1) (Word.outline_pushChar hpair '&') hih

end Body

/-! ## Erasure of code -/

/-- The stretch without the text that is quoted. -/
def Piece.erase : Piece → Piece
  | .code t => .code t
  | .quoted _ => .quoted []

namespace Code
open Target

/-- The code without the texts that are quoted. -/
def erase (code : Code) : Code := code.map Piece.erase

@[simp] theorem erase_nil : erase [] = [] := rfl

@[simp] theorem erase_append (a b : Code) : erase (a ++ b) = erase a ++ erase b := List.map_append

@[simp] theorem erase_code (t : Text) : erase [.code t] = [.code t] := rfl

@[simp] theorem erase_fixed (s : String) : erase (fixed s) = fixed s := rfl

@[simp] theorem erase_quoted (t : Text) : erase (quoted t) = quoted [] := rfl

@[simp] theorem erase_erase (code : Code) : code.erase.erase = code.erase := by
  rw [erase, erase, List.map_map]
  refine List.map_congr_left ?_
  intro piece _
  cases piece with
  | code t => rfl
  | quoted t => rfl

@[simp] theorem map_erase_map_erase (codes : List Code) :
    (codes.map erase).map erase = codes.map erase := by
  rw [List.map_map]
  exact List.map_congr_left fun code _ => erase_erase code

@[simp] theorem erase_flatMap {α : Type} (f : α → Code) (as : List α) :
    erase (as.flatMap f) = as.flatMap fun x => erase (f x) := List.map_flatMap

@[simp] theorem erase_join (sep : String) (codes : List Code) :
    erase (join sep codes) = join sep (codes.map erase) := by
  induction codes with
  | nil => rfl
  | cons c codes ih =>
    cases codes with
    | nil => simp [join]
    | cons d codes =>
      rw [join, join] at ih
      rw [join, join, List.intercalate_cons_cons, erase_append, erase_append, ih]
      exact List.intercalate_cons_cons.symm

@[simp] theorem erase_arguments (codes : List Code) :
    erase (arguments codes) = arguments (codes.map erase) := by
  rw [arguments, erase_append, erase_append, erase_join]
  rfl

/-- Erasure of code is erasure of its symbols. -/
theorem symbols_erase (code : Code) : code.erase.symbols = code.symbols.map Symbol.erase := by
  induction code with
  | nil => rfl
  | cons piece code ih =>
    show symbols ([piece.erase] ++ erase code) = (symbols ([piece] ++ code)).map _
    rw [symbols_append, symbols_append, ih, List.map_append]
    cases piece with
    | code t => simp [symbols, Piece.erase, Symbol.erase]
    | quoted t => rfl

/-- Lines of one erasure have the same tokens but for the values of literals. -/
theorem IsLine.lex_alike {L : Lexicon} {quote : Text → Text} (hL : L.Reads quote) {a b : Code}
    (ha : a.IsLine) (hb : b.IsLine) (h : a.erase = b.erase) :
    ∃ as bs, L.lex (a.text quote) = some as ∧ L.lex (b.text quote) = some bs ∧
      as.map Token.erase = bs.map Token.erase := by
  have hempty : Place.clear.Holds [] := rfl
  obtain ⟨as, has, hlexa⟩ := lexFrom_text hL hempty ha
  obtain ⟨bs, hbs, hlexb⟩ := lexFrom_text hL hempty hb
  refine ⟨as, bs, by rw [text_eq]; exact hlexa, by rw [text_eq]; exact hlexb, ?_⟩
  -- the tokens of both are those of their symbols, and the symbols have one erasure
  have htokens : (tokensFrom [] a.symbols).map (List.map Token.erase) =
      (tokensFrom [] b.symbols).map (List.map Token.erase) := by
    rw [← tokensFrom_erase, ← tokensFrom_erase, ← symbols_erase, ← symbols_erase, h]
  rw [has, hbs] at htokens
  exact Option.some.inj htokens

end Code

/-! ## Expressions -/

/-- The operand without the text or the name. -/
def Operand.erase : Operand → Operand
  | .literal _ => .literal []
  | .lookup _ => .lookup []

/-- The operands of an outline are those of the word without their texts. -/
theorem Word.operands_outline (w : Word) : w.outline.operands = w.operands.map Operand.erase := by
  have hpart : Operand.ofPart ∘ WordPart.outline = Operand.erase ∘ Operand.ofPart := by
    funext p
    cases p with
    | text t => rfl
    | reference r => rfl
  cases hp : w.parts with
  | nil => simp [Word.operands, Word.outline, Word.isEmpty, hp, Operand.erase]
  | cons p parts =>
    rw [Word.operands, Word.operands]
    simp only [Word.outline, Word.isEmpty, hp, List.map_cons, List.isEmpty_cons]
    show (p.outline :: parts.map WordPart.outline).map Operand.ofPart =
      ((p :: parts).map Operand.ofPart).map Operand.erase
    rw [← List.map_cons, List.map_map, List.map_map, hpart]

/-- Codes that are erased operand by operand. -/
theorem Operand.map_erase_code {code : Operand → Code}
    (h : ∀ op, (code op).erase = code op.erase) (ops : List Operand) :
    (ops.map code).map Code.erase = (ops.map Operand.erase).map code := by
  rw [List.map_map, List.map_map]
  exact List.map_congr_left fun op _ => h op

/-- An operand without its text is written as it was, without the text of its literal. -/
theorem Go.erase_operandCode (op : Operand) :
    (Go.operandCode op).erase = Go.operandCode op.erase := by
  cases op with
  | literal t => rfl
  | lookup name => rfl

theorem Python.erase_operandCode (op : Operand) :
    (Python.operandCode op).erase = Python.operandCode op.erase := by
  cases op with
  | literal t => rfl
  | lookup name => rfl

@[simp] theorem Python.erase_exprCode (w : Word) :
    (Python.exprCode w).erase = Python.exprCode w.outline := by
  rw [Python.exprCode, Code.erase_join, Operand.map_erase_code Python.erase_operandCode,
    ← Word.operands_outline, Python.exprCode]

theorem Rust.erase_operandCode (op : Operand) :
    (Rust.operandCode op).erase = Rust.operandCode op.erase := by
  cases op with
  | literal t => rfl
  | lookup name => rfl

@[simp] theorem Rust.erase_exprCode (w : Word) :
    (Rust.exprCode w).erase = Rust.exprCode w.outline := by
  have harray (ops : List Operand) :
      (Code.fixed "[" ++ Code.join ", " (ops.map Rust.operandCode)
        ++ Code.fixed "].concat()").erase =
      Code.fixed "[" ++ Code.join ", " ((ops.map Operand.erase).map Rust.operandCode)
        ++ Code.fixed "].concat()" := by
    rw [Code.erase_append, Code.erase_append, Code.erase_join,
      Operand.map_erase_code Rust.erase_operandCode]
    rfl
  rw [Rust.exprCode, Rust.exprCode, Word.operands_outline]
  match w.operands with
  | [] => exact harray []
  | [.literal t] => rfl
  | [.lookup name] => rfl
  | .literal t :: op :: ops => exact harray (.literal t :: op :: ops)
  | .lookup name :: op :: ops => exact harray (.lookup name :: op :: ops)

end CurlScribe
