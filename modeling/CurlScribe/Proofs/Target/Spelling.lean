import CurlScribe.Proofs.Target.Phrase
import Mathlib.Data.List.Forall2

/-!
# The tokens of code

Code of a known shape is lexed as the tokens of its pieces one after another. The languages differ
in what they put together, not in how: the rules for rows of code, for separated codes and for
arguments are stated here once, and the programs of each language spell out their own tokens.
-/

namespace CurlScribe
open Target

namespace Code

variable {a b : Code} {as bs : List Token} {codes : List Code} {tss : List (List Token)}

/-- The tokens of code that lexes. -/
def tokens (code : Code) : List Token := (tokensFrom [] code.symbols).getD []

theorem IsPhrase.tokensFrom_eq (h : a.IsPhrase) : tokensFrom [] a.symbols = some a.tokens := by
  obtain ⟨last, hlast⟩ := Option.isSome_iff_exists.1 h
  obtain ⟨tokens, ht, -⟩ := lexFrom_text reads_go (show Place.clear.Holds [] from rfl) hlast
  rw [Code.tokens, ht]
  rfl

/-- The text of code that lexes has the tokens of the code. -/
theorem IsPhrase.lex_text {L : Lexicon} {quote : Text → Text} (hL : L.Reads quote)
    (h : a.IsPhrase) : L.lex (a.text quote) = some a.tokens := by
  obtain ⟨last, hlast⟩ := Option.isSome_iff_exists.1 h
  obtain ⟨tokens, ht, hlex⟩ := lexFrom_text hL (show Place.clear.Holds [] from rfl) hlast
  rw [Lexicon.lex, text_eq, hlex, Code.tokens, ht]
  rfl

/-- Pieces of code are read one by one if a mark stands where they meet. -/
theorem tokens_append (ha : a.IsPhrase) (hb : b.IsPhrase) (h : a.IsLine ∨ b.IsTail) :
    tokens (a ++ b) = a.tokens ++ b.tokens := by
  obtain ⟨last, hlast⟩ := Option.isSome_iff_exists.1 ha
  have hback : last ≠ .word ∨ (scan .literal b.symbols).isSome = true := by
    rcases h with h | h
    · obtain rfl : last = .clear := Option.some.inj (hlast.symm.trans h)
      exact .inl (by decide)
    · exact .inr (h .literal)
  rw [tokens, symbols_append,
    tokensFrom_append_of (show Place.clear.Holds [] from rfl) hlast hback, ha.tokensFrom_eq,
    hb.tokensFrom_eq]
  rfl

/-- A name is read as one token. -/
theorem tokens_name {name : Text} (h : Text.isName name = true) :
    tokens [.code name] = [.name name] := by
  obtain ⟨c, rest, rfl, hc, hrest⟩ := Text.isName_iff.1 h
  have hread (run more : Text) (hmore : ∀ d ∈ more, Text.isNameChar d = true) :
      tokensFrom run (more.map .char) = wordTokens? (run ++ more) := by
    induction more generalizing run with
    | nil => simp [tokensFrom]
    | cons d more ih =>
      obtain ⟨hd, hmore⟩ := List.forall_mem_cons.1 hmore
      rw [List.map_cons, tokensFrom_name hd, ih _ hmore, List.append_assoc]
      rfl
  have hall : ∀ d ∈ c :: rest, Text.isNameChar d = true :=
    List.forall_mem_cons.2 ⟨Text.isNameChar_of_isNameStart hc, hrest⟩
  rw [tokens, symbols, List.flatMap_singleton, hread [] _ hall, List.nil_append, wordTokens?,
    if_pos hc]
  rfl

end Code

namespace Target

/-- The tokens of a fixed text. -/
def spelt (s : String) : List Token := Code.tokens (Code.fixed s)

/-- Rows of tokens between parentheses with commas between them. -/
def argumentTokens (tss : List (List Token)) : List Token :=
  spelt "(" ++ (spelt ", ").intercalate tss ++ spelt ")"

end Target

namespace Code

variable {a b : Code} {as bs : List Token} {codes : List Code} {tss : List (List Token)}

/-- Code of the given shape that is lexed as the tokens. -/
structure Spells (shape : Code → Prop) (code : Code) (tokens : List Token) : Prop where
  shape : shape code
  tokens_eq : code.tokens = tokens

namespace Spells

theorem mono {shape shape' : Code → Prop} (h : Spells shape a as) (himp : shape a → shape' a) :
    Spells shape' a as := ⟨himp h.shape, h.tokens_eq⟩

/-- A phrase behind a line. -/
theorem append_phrase (ha : Spells IsLine a as) (hb : Spells IsPhrase b bs) :
    Spells IsPhrase (a ++ b) (as ++ bs) where
  shape := ha.shape.append_phrase hb.shape
  tokens_eq := by
    rw [tokens_append ha.shape.isPhrase hb.shape (.inl ha.shape), ha.tokens_eq, hb.tokens_eq]

/-- A frame behind a phrase. -/
theorem append_frame (ha : Spells IsPhrase a as) (hb : Spells IsFrame b bs) :
    Spells IsLine (a ++ b) (as ++ bs) where
  shape := ha.shape.append_frame hb.shape
  tokens_eq := by
    rw [tokens_append ha.shape hb.shape.isTail.isPhrase (.inr hb.shape.isTail), ha.tokens_eq,
      hb.tokens_eq]

/-- A line behind a line. -/
theorem append (ha : Spells IsLine a as) (hb : Spells IsLine b bs) :
    Spells IsLine (a ++ b) (as ++ bs) where
  shape := ha.shape.append hb.shape
  tokens_eq := (ha.append_phrase (hb.mono IsLine.isPhrase)).tokens_eq

/-- The text of code that spells tokens is lexed as these. -/
theorem lex_text {L : Lexicon} {quote : Text → Text} (hL : L.Reads quote)
    (h : Spells IsLine a as) : L.lex (a.text quote) = some as := by
  rw [h.shape.isPhrase.lex_text hL, h.tokens_eq]

end Spells

theorem spells_nil : Spells IsLine [] [] := ⟨isLine_nil, rfl⟩

/-- A quoted text is one token. -/
theorem spells_quoted (t : Text) : Spells IsPhrase (quoted t) [.string t] := ⟨rfl, rfl⟩

theorem spells_name {name : Text} (h : Text.isName name = true) :
    Spells IsPhrase [.code name] [.name name] := ⟨isPhrase_name h, tokens_name h⟩

theorem spells_flatMap {α : Type} {f : α → Code} {g : α → List Token} {xs : List α}
    (h : ∀ x ∈ xs, Spells IsLine (f x) (g x)) :
    Spells IsLine (xs.flatMap f) (xs.flatMap g) := by
  induction xs with
  | nil => exact spells_nil
  | cons x xs ih =>
    rw [List.flatMap_cons, List.flatMap_cons]
    exact (h x List.mem_cons_self).append (ih fun y hy => h y (List.mem_cons_of_mem _ hy))

/-- Codes that are phrases and spell the rows of tokens. -/
abbrev AllSpell (codes : List Code) (tss : List (List Token)) : Prop :=
  List.Forall₂ (Spells IsPhrase) codes tss

theorem AllSpell.map {α : Type} {f : α → Code} {g : α → List Token} {xs : List α}
    (h : ∀ x ∈ xs, Spells IsPhrase (f x) (g x)) : AllSpell (xs.map f) (xs.map g) := by
  rw [AllSpell, List.forall₂_map_left_iff, List.forall₂_map_right_iff, List.forall₂_same]
  exact h

theorem AllSpell.isPhrase (h : AllSpell codes tss) : ∀ c ∈ codes, IsPhrase c := by
  induction h with
  | nil => exact List.forall_mem_nil _
  | cons hc _ ih => exact List.forall_mem_cons.2 ⟨hc.shape, ih⟩

theorem AllSpell.map_tokens (h : AllSpell codes tss) : codes.map tokens = tss := by
  induction h with
  | nil => rfl
  | cons hc _ ih => rw [List.map_cons, ih, hc.tokens_eq]

/-- A frame between each code and the next. -/
theorem AllSpell.join {sep : String} (hsep : IsFrame (fixed sep)) (h : AllSpell codes tss) :
    Spells IsPhrase (join sep codes) ((spelt sep).intercalate tss) := by
  induction h with
  | nil => exact spells_nil.mono IsLine.isPhrase
  | cons hc hrest ih =>
    cases hrest with
    | nil => simpa [Code.join] using hc
    | cons hd hmore =>
      rw [Code.join, List.intercalate_cons_cons, List.intercalate_cons_cons]
      exact (hc.append_frame ⟨hsep, rfl⟩).append_phrase ih

theorem AllSpell.arguments (h : AllSpell codes tss) :
    Spells IsFrame (arguments codes) (argumentTokens tss) where
  shape := isFrame_arguments h.isPhrase
  tokens_eq := by
    have hopen : Spells IsLine (fixed "(") (spelt "(") := ⟨by decide, rfl⟩
    have hclose : Spells IsFrame (fixed ")") (spelt ")") := ⟨by decide, rfl⟩
    have hcomma : IsFrame (fixed ", ") := by decide
    exact ((hopen.append_phrase (h.join hcomma)).append_frame hclose).tokens_eq

/-- A phrase with arguments behind it. -/
theorem Spells.call (ha : Spells IsPhrase a as) (h : AllSpell codes tss) :
    Spells IsLine (a ++ arguments codes) (as ++ argumentTokens tss) := ha.append_frame h.arguments

end Code

end CurlScribe
