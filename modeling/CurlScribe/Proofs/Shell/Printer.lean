import CurlScribe.Proofs.Shell.Exactness

/-!
# Printing words

Every word can be written so that a command says it: literal text between single quotes, and
references as they are. What is written this way is a maximal word of the grammar, so reading it
gives the word back.
-/

namespace CurlScribe

/-! ## Quoting -/

/-- A character between single quotes. A single quote itself has to stand outside of them. -/
def quotedChar (c : Char) : Text := if c = '\'' then "'\\''".toList else [c]

namespace WordPart

/-- A part as a command writes it: text between single quotes, or a reference. -/
def quoted : WordPart → Text
  | .text t => '\'' :: (t.flatMap quotedChar ++ ['\''])
  | .reference r => r.written

end WordPart

namespace Word

/-- A word as a command writes it. -/
def quoted (w : Word) : Text :=
  if w.isEmpty then "''".toList else w.parts.flatMap WordPart.quoted

/-- All variables that the word refers to have identifiers as names. -/
def HasNames (w : Word) : Prop := ∀ r, Atom.reference r ∈ w.atoms → Text.isName r.name = true

end Word

namespace Shell
open Grammar

/-! ## Fragments of printed words -/

theorem fragments_append {input next rest : Text} {as bs : List Atom} (h : Fragments input as next)
    (h' : Fragments next bs rest) : Fragments input (as ++ bs) rest := by
  induction h with
  | nil => exact h'
  | cons hf _ ih =>
    rw [List.append_assoc]
    exact .cons hf (ih h')

/-- Quoted text denotes its characters. The induction is on the text that is left while `inside`
has been written since the last opening quote. -/
theorem fragments_quotedText (t inside rest : Text) (h : '\'' ∉ inside) :
    Fragments ('\'' :: (inside ++ t.flatMap quotedChar ++ '\'' :: rest))
      ((inside ++ t).map .char) rest := by
  induction t generalizing inside with
  | nil =>
    have hall := Fragments.cons (.singleQuoted rest h) (.nil rest)
    simpa using hall
  | cons c t ih =>
    rw [List.flatMap_cons]
    by_cases hc : c = '\''
    · subst hc
      -- the quote ends the string, stands escaped for itself, and begins another string
      have htail := ih [] (by simp)
      have hescape : Fragment ('\\' :: '\'' :: '\'' :: (t.flatMap quotedChar ++ '\'' :: rest))
          [.char '\''] ('\'' :: (t.flatMap quotedChar ++ '\'' :: rest)) := by
        refine .escaped ?_
        intro next hc
        cases hc
      have hinside := Fragment.singleQuoted
        ('\\' :: '\'' :: '\'' :: (t.flatMap quotedChar ++ '\'' :: rest)) h
      have hall := Fragments.cons hinside (.cons hescape htail)
      rw [quotedChar, if_pos rfl]
      simpa using hall
    -- any other character is one more inside the string
    · have htail := ih (inside ++ [c]) (by simp [h, Ne.symm hc])
      rw [quotedChar, if_neg hc]
      simpa using htail

theorem fragment_reference {r : Reference} {rest : Text} (hn : Text.isName r.name = true)
    (hr : ∀ c more, rest = c :: more → Text.isNameChar c = false) :
    Fragment (r.written ++ rest) [.reference r] rest := by
  obtain ⟨name, braced⟩ := r
  obtain ⟨c, more, rfl, hc, -⟩ := Text.isName_iff.1 hn
  cases braced with
  | false =>
    refine .dollar ?_ (.reference (.plain hn hr))
    intro d more' he
    obtain rfl := (List.cons.inj he).1
    constructor
    · rintro rfl
      exact absurd hc (by decide)
    · rintro rfl
      exact absurd hc (by decide)
  | true =>
    have hbraced := VariableName.braced rest hn
    have hwritten : (Reference.mk (c :: more) true).written ++ rest =
        '$' :: '{' :: ((c :: more) ++ '}' :: rest) := by simp [Reference.written]
    rw [hwritten]
    refine .dollar ?_ (.reference hbraced)
    intro d more' he
    obtain rfl := (List.cons.inj he).1
    decide

/-- What is written of a part begins with a quote or a dollar. -/
theorem quoted_part_eq_cons (p : WordPart) :
    ∃ c more, p.quoted = c :: more ∧ (c = '\'' ∨ c = '$') := by
  cases p with
  | text t => exact ⟨'\'', _, rfl, .inl rfl⟩
  | reference r =>
    obtain ⟨name, braced⟩ := r
    cases braced with
    | false => exact ⟨'$', _, rfl, .inr rfl⟩
    | true => exact ⟨'$', _, rfl, .inr rfl⟩

/-- Printed parts are the fragments of their atoms. No name runs on into the part behind it, since
that begins with a quote or a dollar. -/
theorem fragments_quoted {parts : List WordPart} {rest : Text}
    (hn : ∀ r, Atom.reference r ∈ WordPart.atomsOf parts → Text.isName r.name = true)
    (hr : ∀ c more, rest = c :: more → Text.isNameChar c = false) :
    Fragments (parts.flatMap WordPart.quoted ++ rest) (WordPart.atomsOf parts) rest := by
  induction parts with
  | nil => exact .nil rest
  | cons p parts ih =>
    have htail := ih fun r hm => hn r (List.mem_append_right _ hm)
    have hnext : ∀ c more, parts.flatMap WordPart.quoted ++ rest = c :: more →
        Text.isNameChar c = false := by
      intro c more he
      cases parts with
      | nil => exact hr c more he
      | cons q parts =>
        obtain ⟨d, more', hq, hd⟩ := quoted_part_eq_cons q
        rw [List.flatMap_cons, hq] at he
        obtain rfl := (List.cons.inj he).1
        rcases hd with rfl | rfl
        · decide
        · decide
    rw [List.flatMap_cons, List.append_assoc, WordPart.atomsOf_cons]
    refine fragments_append ?_ htail
    cases p with
    | text t =>
      have ht := fragments_quotedText t [] (parts.flatMap WordPart.quoted ++ rest) (by simp)
      simpa [WordPart.quoted] using ht
    | reference r =>
      have hf := fragment_reference (hn r (List.mem_append_left _ List.mem_cons_self)) hnext
      exact .cons hf (.nil _)

/-! ## Words on a command line -/

/-- A text that is a maximal word, denoting the given atoms, wherever a blank or the end of the
input follows it. -/
def Spells (t : Text) (as : List Atom) : Prop :=
  ∀ rest, (∀ c more, rest = c :: more → c ∈ separators) → MaximalWord (t ++ rest) as rest

theorem spells_of_fragments {c : Char} {t : Text} {as : List Atom} (hc : c ≠ '#') (hb : c ≠ '\\')
    (h : ∀ rest, (∀ c more, rest = c :: more → c ∈ separators) →
      Fragments (c :: t ++ rest) as rest) : Spells (c :: t) as := by
  intro rest hr
  refine ⟨?_, not_continuation_of_ne hb _, ?_, hr⟩
  · intro more he
    exact hc (List.cons.inj he).1
  · -- the row of fragments is not empty, because it consumes at least one character
    have hf := h rest hr
    generalize hi : c :: t ++ rest = input at hf
    cases hf with
    | nil =>
      have hl := congrArg List.length hi
      simp only [List.cons_append, List.length_cons, List.length_append] at hl
      omega
    | cons head tail => exact ⟨_, _, _, head, tail, rfl⟩

/-- A text without special characters spells itself. -/
theorem spells_plain {c : Char} {t : Text}
    (h : ∀ d ∈ c :: t, d ∉ '#' :: (separators ++ ['\'', '"', '\\', '$'])) :
    Spells (c :: t) ((c :: t).map .char) := by
  have hc := h c List.mem_cons_self
  refine spells_of_fragments ?_ ?_ ?_
  · rintro rfl
    exact hc (by decide)
  · rintro rfl
    exact hc (by decide)
  · intro rest _
    generalize c :: t = run at h
    induction run with
    | nil => exact .nil rest
    | cons d run ih =>
      have hd := h d List.mem_cons_self
      have htail := ih fun e he => h e (List.mem_cons_of_mem _ he)
      exact .cons (.plain _ fun hm => hd (List.mem_cons_of_mem _ hm)) htail

/-- A printed word spells the atoms of the word. -/
theorem spells_quoted {w : Word} (h : w.HasNames) : Spells w.quoted w.atoms := by
  obtain ⟨parts⟩ := w
  cases parts with
  | nil =>
    refine spells_of_fragments (by decide) (by decide) ?_
    intro rest _
    exact fragments_quotedText [] [] rest (by simp)
  | cons p parts =>
    obtain ⟨c, more, hp, hc⟩ := quoted_part_eq_cons p
    have hq : Word.quoted ⟨p :: parts⟩ = c :: (more ++ parts.flatMap WordPart.quoted) := by
      show (p :: parts).flatMap WordPart.quoted = _
      rw [List.flatMap_cons, hp, List.cons_append]
    rw [hq]
    refine spells_of_fragments ?_ ?_ ?_
    · rcases hc with rfl | rfl <;> decide
    · rcases hc with rfl | rfl <;> decide
    · intro rest hr
      have hf := fragments_quoted h fun d more' he => isNameChar_of_mem_separators (hr d more' he)
      rw [← hq]
      exact hf

/-- Words with a space between each and the next are a command. -/
theorem commandLine_join {pieces : List (Text × List Atom)} (h : ∀ p ∈ pieces, Spells p.1 p.2) :
    CommandLine (Text.join [' '] (pieces.map Prod.fst)) (pieces.map Prod.snd) := by
  have hspace {input : Text} {ds : List (List Atom)} (h : CommandLine input ds) :
      CommandLine (' ' :: input) ds := by
    cases h with
    | done hb => exact .done (.separator (by decide) hb)
    | word hb hw ht => exact .word (.separator (by decide) hb) hw ht
  induction pieces with
  | nil => exact .done (.nil _)
  | cons p pieces ih =>
    have hp := h p List.mem_cons_self
    have htail := ih fun q hq => h q (List.mem_cons_of_mem _ hq)
    cases pieces with
    | nil =>
      have hw := hp [] (by intro c more he; cases he)
      rw [List.append_nil] at hw
      exact .word (.nil _) (by simpa [Text.join] using hw) htail
    | cons q pieces =>
      -- the space behind the first piece ends its word
      have hw := hp (' ' :: Text.join [' '] ((q :: pieces).map Prod.fst)) (by
        intro c more he
        obtain rfl := (List.cons.inj he).1
        decide)
      have hjoin : Text.join [' '] ((p :: q :: pieces).map Prod.fst) =
          p.1 ++ ' ' :: Text.join [' '] ((q :: pieces).map Prod.fst) := by
        simp [Text.join, List.intercalate_cons_cons]
      rw [hjoin]
      exact .word (.nil _) hw (hspace htail)

end Shell
end CurlScribe
