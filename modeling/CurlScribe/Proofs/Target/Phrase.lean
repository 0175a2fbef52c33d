import CurlScribe.Proofs.Target.Lexer

/-!
# Code that lexes

What the pieces of generated code need so that they may stand side by side. A phrase may stand
behind a mark, a tail behind anything, a frame behind anything and before anything, and a line
behind a mark and before anything.
-/

namespace CurlScribe

namespace Code
open Target

/-- The symbols of code. -/
def symbols (code : Code) : List Symbol :=
  code.flatMap fun
    | .code t => t.map .char
    | .quoted t => [.hole t]

@[simp] theorem symbols_append (a b : Code) : symbols (a ++ b) = symbols a ++ symbols b :=
  List.flatMap_append

/-- The text of code is that of its symbols, one by one. -/
theorem text_eq (quote : Text → Text) (code : Code) :
    code.text quote = code.symbols.flatMap (Symbol.text quote) := by
  induction code with
  | nil => rfl
  | cons piece code ih =>
    have htext : text quote (piece :: code) = text quote [piece] ++ text quote code := by
      simp [text]
    have hsymbols : symbols (piece :: code) = symbols [piece] ++ symbols code :=
      symbols_append [piece] code
    rw [htext, ih, hsymbols, List.flatMap_append]
    cases piece with
    | code t => simp [text, symbols, List.flatMap_map, Symbol.text]
    | quoted t => simp [text, symbols, Symbol.text]

/-- Code that may stand behind a mark. -/
def IsPhrase (code : Code) : Prop := (scan .clear code.symbols).isSome = true

/-- Code that may stand behind anything. -/
def IsTail (code : Code) : Prop := ∀ place, (scan place code.symbols).isSome = true

/-- Code that may stand behind anything and before anything. -/
def IsFrame (code : Code) : Prop := ∀ place, scan place code.symbols = some .clear

/-- Code that may stand behind a mark and before anything. -/
def IsLine (code : Code) : Prop := scan .clear code.symbols = some .clear

instance {p : Place → Prop} [DecidablePred p] : Decidable (∀ place, p place) :=
  decidable_of_iff (p .clear ∧ p .word ∧ p .literal)
    ⟨fun ⟨hc, hw, hl⟩ place => match place with
      | .clear => hc
      | .word => hw
      | .literal => hl, fun h => ⟨h _, h _, h _⟩⟩

instance (code : Code) : Decidable code.IsPhrase := inferInstanceAs (Decidable (_ = _))

instance (code : Code) : Decidable code.IsTail := inferInstanceAs (Decidable (∀ _, _))

instance (code : Code) : Decidable code.IsFrame := inferInstanceAs (Decidable (∀ _, _))

instance (code : Code) : Decidable code.IsLine := inferInstanceAs (Decidable (_ = _))

example : IsFrame (fixed " + ") := by decide

variable {a b : Code}

/-- What begins and ends between words may stand behind a word. -/
theorem IsFrame.isTail (h : IsFrame a) : IsTail a := fun place => by rw [h place]; rfl

theorem IsFrame.isLine (h : IsFrame a) : IsLine a := h .clear

theorem IsTail.isPhrase (h : IsTail a) : IsPhrase a := h .clear

/-- A line ends between words, so that more may follow it, as behind any phrase. -/
theorem IsLine.isPhrase (h : IsLine a) : IsPhrase a := by
  rw [IsPhrase, show scan .clear a.symbols = _ from h]
  rfl

theorem isPhrase_quoted (t : Text) : IsPhrase (quoted t) := rfl

/-- A name is a phrase. -/
theorem isPhrase_name {name : Text} (h : Text.isName name = true) : IsPhrase [.code name] := by
  obtain ⟨c, rest, rfl, hc, hrest⟩ := Text.isName_iff.1 h
  have hword : scan .word (rest.map .char) = some .word := by
    clear h
    induction rest with
    | nil => rfl
    | cons d rest ih =>
      rw [List.map_cons, scan, List.foldlM_cons, Place.next,
        if_pos (hrest d List.mem_cons_self)]
      exact ih fun e he => hrest e (List.mem_cons_of_mem _ he)
  have hscan : scan .clear ((c :: rest).map .char) = some .word := by
    rw [List.map_cons, scan, List.foldlM_cons, Place.next, if_pos hc]
    exact hword
  rw [IsPhrase, symbols, List.flatMap_singleton, hscan]
  rfl

theorem isLine_nil : IsLine [] := rfl

/-- A phrase with a tail behind it is a phrase: the tail begins between words. -/
theorem IsPhrase.append (ha : IsPhrase a) (hb : IsTail b) : IsPhrase (a ++ b) := by
  obtain ⟨middle, hm⟩ := Option.isSome_iff_exists.1 ha
  rw [IsPhrase, symbols_append, scan_append, hm]
  exact hb middle

/-- Tails in a row are a tail. -/
theorem IsTail.append (ha : IsTail a) (hb : IsTail b) : IsTail (a ++ b) := by
  intro place
  obtain ⟨middle, hm⟩ := Option.isSome_iff_exists.1 (ha place)
  rw [symbols_append, scan_append, hm]
  exact hb middle

/-- A frame keeps a phrase apart from what stands before. -/
theorem IsFrame.append_phrase (ha : IsFrame a) (hb : IsPhrase b) : IsTail (a ++ b) := by
  intro place
  rw [symbols_append, scan_append, ha place]
  exact hb

/-- A frame closes the words of a tail. -/
theorem IsTail.append_frame (ha : IsTail a) (hb : IsFrame b) : IsFrame (a ++ b) := by
  intro place
  obtain ⟨middle, hm⟩ := Option.isSome_iff_exists.1 (ha place)
  rw [symbols_append, scan_append, hm]
  exact hb middle

/-- A frame closes the last word of a phrase, which makes it a line. -/
theorem IsPhrase.append_frame (ha : IsPhrase a) (hb : IsFrame b) : IsLine (a ++ b) := by
  obtain ⟨middle, hm⟩ := Option.isSome_iff_exists.1 ha
  rw [IsLine, symbols_append, scan_append, hm]
  exact hb middle

/-- A phrase may begin wherever a line has ended. -/
theorem IsLine.append_phrase (ha : IsLine a) (hb : IsPhrase b) : IsPhrase (a ++ b) := by
  rw [IsPhrase, symbols_append, scan_append, show scan .clear a.symbols = _ from ha]
  exact hb

theorem IsLine.append (ha : IsLine a) (hb : IsLine b) : IsLine (a ++ b) := by
  rw [IsLine, symbols_append, scan_append, show scan .clear a.symbols = _ from ha]
  exact hb

/-- Lines in a row are a line. -/
theorem isLine_flatMap {α : Type} {f : α → Code} {as : List α} (h : ∀ x ∈ as, IsLine (f x)) :
    IsLine (as.flatMap f) := by
  induction as with
  | nil => exact isLine_nil
  | cons x as ih =>
    rw [List.flatMap_cons]
    exact (h x List.mem_cons_self).append (ih fun y hy => h y (List.mem_cons_of_mem _ hy))

/-- Phrases with a frame between each and the next are a phrase. -/
theorem isPhrase_join {sep : String} {codes : List Code} (hs : IsFrame (fixed sep))
    (h : ∀ c ∈ codes, IsPhrase c) : IsPhrase (join sep codes) := by
  induction codes with
  | nil => exact isLine_nil.isPhrase
  | cons c codes ih =>
    have hc := h c List.mem_cons_self
    have htail := ih fun d hd => h d (List.mem_cons_of_mem _ hd)
    cases codes with
    | nil => simpa [join] using hc
    | cons d codes =>
      rw [join, List.intercalate_cons_cons, List.append_assoc]
      exact hc.append (hs.append_phrase htail)

/-- Parentheses and commas frame the arguments of a call, if these are phrases. -/
theorem isFrame_arguments {codes : List Code} (h : ∀ c ∈ codes, IsPhrase c) :
    IsFrame (arguments codes) := by
  have hopen : IsFrame (fixed "(") := by decide
  have hclose : IsFrame (fixed ")") := by decide
  exact (hopen.append_phrase (isPhrase_join (by decide) h)).append_frame hclose

end Code
end CurlScribe
