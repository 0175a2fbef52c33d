import CurlScribe.Proofs.Target.Spelling

/-!
# Rows of code

A source is read here as the rows of tokens between its line ends. A line end inside a literal is
part of the literal's token, so it ends no row, and code that is put together row by row is read row
by row, whatever the texts in it are.
-/

namespace CurlScribe
open Target

namespace Target

/-- The rows of tokens between the line ends. -/
def rowsOf (tokens : List Token) : List (List Token) := tokens.splitOn (.layout '\n')

/-- The rows of a source. -/
def Lexicon.rows? (L : Lexicon) (t : Text) : Option (List (List Token)) := (L.lex t).map rowsOf

/-- Rows that are each ended are found again, and nothing behind the end of the last one. -/
theorem splitOn_ended {α : Type} [DecidableEq α] (x : α) {rows : List (List α)}
    (h : ∀ row ∈ rows, x ∉ row) :
    (rows.flatMap fun row => row ++ [x]).splitOn x = rows ++ [[]] := by
  induction rows with
  | nil => rfl
  | cons row rows ih =>
    obtain ⟨hrow, hrows⟩ := List.forall_mem_cons.1 h
    rw [List.flatMap_cons, List.append_assoc, List.singleton_append,
      List.splitOn_append_cons_self_of_not_mem hrow, ih hrows]
    rfl

/-- What is read in each of a list, one after another, if all of it can be read. -/
def gather? {α β : Type} (read : α → Option (List β)) (xs : List α) : Option (List β) :=
  (xs.mapM read).map List.flatten

section Gather

variable {α β γ : Type} {read : α → Option (List β)}

/-- What is read of a row of things is read of the first, then of the others. -/
theorem gather?_cons (x : α) (xs : List α) :
    gather? read (x :: xs) = (read x).bind fun ys => (gather? read xs).map (ys ++ ·) := by
  rw [gather?, gather?, List.mapM_cons]
  cases read x with
  | none => rfl
  | some ys => cases xs.mapM read <;> rfl

theorem gather?_singleton (x : α) : gather? read [x] = read x := by
  rw [gather?_cons]
  cases read x with
  | none => rfl
  | some ys => exact congrArg some (List.append_nil ys)

/-- What is read of two rows is read of one and then of the other. -/
theorem gather?_append (front back : List α) :
    gather? read (front ++ back) =
      (gather? read front).bind fun ys => (gather? read back).map (ys ++ ·) := by
  induction front with
  | nil =>
    show _ = (gather? read back).map ([] ++ ·)
    rw [List.nil_append]
    cases gather? read back <;> rfl
  | cons x front ih =>
    rw [List.cons_append, gather?_cons, gather?_cons, ih]
    cases read x with
    | none => rfl
    | some ys =>
      cases gather? read front with
      | none => rfl
      | some zs => cases gather? read back <;> simp

/-- Nothing is read of a row of things that give nothing. -/
theorem gather?_eq_nil {xs : List α} (h : ∀ x ∈ xs, read x = some []) :
    gather? read xs = some [] := by
  induction xs with
  | nil => rfl
  | cons x xs ih =>
    obtain ⟨hx, hxs⟩ := List.forall_mem_cons.1 h
    rw [gather?_cons, hx, ih hxs]
    rfl

/-- Where nothing is read in front and behind, all is read in between. -/
theorem gather?_between {front back : List α} (hfront : ∀ x ∈ front, read x = some [])
    (hback : ∀ x ∈ back, read x = some []) (xs : List α) :
    gather? read (front ++ xs ++ back) = gather? read xs := by
  rw [gather?_append, gather?_append, gather?_eq_nil hfront, gather?_eq_nil hback]
  cases gather? read xs <;> simp

/-- What is read of the parts of each is what is read of each. -/
theorem gather?_flatMap {parts : γ → List α} {whole : γ → Option (List β)} {xs : List γ}
    (h : ∀ x ∈ xs, gather? read (parts x) = whole x) :
    gather? read (xs.flatMap parts) = gather? whole xs := by
  induction xs with
  | nil => rfl
  | cons x xs ih =>
    obtain ⟨hx, hxs⟩ := List.forall_mem_cons.1 h
    rw [List.flatMap_cons, gather?_append, gather?_cons, hx, ih hxs]

end Gather

end Target

namespace Code

variable {c : Char} {marks : List Char} {a b : Code} {codes lines : List Code}

/-! ## Marks in fixed text -/

/-- None of the marks stands in the fixed text of the code. -/
def Lacks (marks : List Char) (code : Code) : Prop := ∀ c ∈ marks, .char c ∉ code.symbols

instance (marks : List Char) (code : Code) : Decidable (Lacks marks code) :=
  List.decidableBAll (fun c => Symbol.char c ∉ code.symbols) marks

@[simp] theorem lacks_append : Lacks marks (a ++ b) ↔ Lacks marks a ∧ Lacks marks b := by
  simp [Lacks, forall_and]

@[simp] theorem lacks_nil : Lacks marks [] := fun _ _ => List.not_mem_nil

@[simp] theorem lacks_quoted (t : Text) : Lacks marks (quoted t) := by
  simp [Lacks, symbols, quoted]

/-- No mark stands in a name. -/
theorem lacks_name {name : Text} (h : Text.isName name = true)
    (hmarks : ∀ c ∈ marks, Text.isNameChar c = false) : Lacks marks [.code name] := by
  intro c hc hmem
  have hname : c ∈ name := by simpa [symbols] using hmem
  exact absurd (Text.forall_isNameChar h c hname) (by simp [hmarks c hc])

/-- Joined code lacks what its pieces and the separator lack. -/
theorem lacks_join {sep : String} (hsep : Lacks marks (fixed sep))
    (h : ∀ code ∈ codes, Lacks marks code) : Lacks marks (join sep codes) := by
  induction codes with
  | nil => exact lacks_nil
  | cons code codes ih =>
    obtain ⟨hcode, hcodes⟩ := List.forall_mem_cons.1 h
    cases codes with
    | nil => simpa [join] using hcode
    | cons next codes =>
      rw [join, List.intercalate_cons_cons, lacks_append, lacks_append]
      exact ⟨⟨hcode, hsep⟩, ih hcodes⟩

/-- The brackets of arguments and the commas between them are the only marks beside theirs. -/
theorem lacks_arguments (hmarks : Lacks marks (fixed "(, )"))
    (h : ∀ code ∈ codes, Lacks marks code) : Lacks marks (arguments codes) := by
  have hparts : Lacks marks (fixed "(" ++ fixed ", " ++ fixed ")") := hmarks
  obtain ⟨hopen, hcomma, hclose⟩ : Lacks marks (fixed "(") ∧ Lacks marks (fixed ", ") ∧
      Lacks marks (fixed ")") := by simpa only [lacks_append, and_assoc] using hparts
  rw [arguments, lacks_append, lacks_append]
  exact ⟨⟨hopen, lacks_join hcomma h⟩, hclose⟩

theorem Lacks.mono {more : List Char} (h : Lacks more a) (hsub : marks ⊆ more) : Lacks marks a :=
  fun c hc => h c (hsub hc)

theorem mark?_cases {mark : Token} (h : mark? c = some mark) :
    mark = .layout c ∨ mark = .punctuation c := by
  unfold mark? at h
  split at h
  · exact .inl (Option.some.inj h).symm
  · split at h
    · exact .inr (Option.some.inj h).symm
    · cases h

/-- A word is a name or a number. -/
theorem mark_not_mem_wordTokens? {mark : Token} (hmark : mark? c = some mark) {run : Text}
    {ts : List Token} (h : wordTokens? run = some ts) : mark ∉ ts := by
  unfold wordTokens? at h
  split at h
  · obtain rfl := Option.some.inj h
    exact List.not_mem_nil
  · split at h
    · obtain rfl := Option.some.inj h
      rcases mark?_cases hmark with rfl | rfl <;> simp
    · split at h
      · obtain rfl := Option.some.inj h
        rcases mark?_cases hmark with rfl | rfl <;> simp
      · cases h

/-- A mark among the tokens of code comes from its fixed text. -/
theorem mem_symbols_of_mark {mark : Token} (hmark : mark? c = some mark) (h : mark ∈ a.tokens) :
    .char c ∈ a.symbols := by
  have hsame {d : Char} (hd : mark? d = some mark) : d = c := by
    rcases mark?_cases hmark with rfl | rfl <;> rcases mark?_cases hd with h | h <;> cases h <;> rfl
  -- by induction on the symbols, with the word that is still open generalized
  have hall (symbols : List Symbol) : ∀ run ts, tokensFrom run symbols = some ts →
      mark ∈ ts → .char c ∈ symbols := by
    induction symbols with
    | nil =>
      intro run ts ht hc
      exact absurd hc (mark_not_mem_wordTokens? hmark ht)
    | cons symbol symbols ih =>
      intro run ts ht hc
      cases symbol with
      | hole t =>
        have hne : mark ≠ .string t := by
          rcases mark?_cases hmark with rfl | rfl <;> simp
        rw [tokensFrom] at ht
        split at ht
        · obtain ⟨ts, hts, rfl⟩ := Option.map_eq_some_iff.1 ht
          exact List.mem_cons_of_mem _ (ih [] ts hts ((List.mem_cons.1 hc).resolve_left hne))
        · cases ht
      | char d =>
        rw [tokensFrom] at ht
        split at ht
        · exact List.mem_cons_of_mem _ (ih _ ts ht hc)
        · split at ht
          · cases ht
          next other hother =>
            obtain ⟨word, hw, ht⟩ := Option.bind_eq_some_iff.1 ht
            obtain ⟨rest, hrest, rfl⟩ := Option.map_eq_some_iff.1 ht
            rcases List.mem_append.1 hc with hc | hc
            · exact absurd hc (mark_not_mem_wordTokens? hmark hw)
            · rcases List.mem_cons.1 hc with rfl | hc
              · rw [hsame hother]
                exact List.mem_cons_self
              · exact List.mem_cons_of_mem _ (ih [] rest hrest hc)
  cases ht : tokensFrom [] a.symbols with
  | none => simp [tokens, ht] at h
  | some ts => exact hall a.symbols [] ts ht (by simpa [tokens, ht] using h)

/-- Code whose fixed text lacks a mark has no such token: in a literal it is a part of the
string. -/
theorem Lacks.not_mem (h : Lacks marks a) {mark : Token} (hc : c ∈ marks)
    (hmark : mark? c = some mark) : mark ∉ a.tokens := mt (mem_symbols_of_mark hmark) (h c hc)

/-! ## Rows -/

/-- Code that may stand on a row of its own. -/
structure IsRow (code : Code) : Prop where
  isPhrase : code.IsPhrase
  unbroken : Lacks ['\n'] code

instance (code : Code) : Decidable code.IsRow :=
  decidable_of_iff (code.IsPhrase ∧ Lacks ['\n'] code)
    ⟨fun ⟨hphrase, hlacks⟩ => ⟨hphrase, hlacks⟩, fun ⟨hphrase, hlacks⟩ => ⟨hphrase, hlacks⟩⟩

/-- Rows of code, each with its end. -/
def ended (lines : List Code) : Code := lines.flatMap fun line => line ++ fixed "\n"

theorem ended_append (front back : List Code) :
    ended (front ++ back) = ended front ++ ended back := List.flatMap_append

@[simp] theorem text_append (quote : Text → Text) (a b : Code) :
    (a ++ b).text quote = a.text quote ++ b.text quote := List.flatMap_append

/-- Lines that are written as code one group after another are written as the codes in a row. -/
theorem text_ended_flatMap {α : Type} {quote : Text → Text} {lines : α → List Code}
    {code : α → Code} (h : ∀ x, (ended (lines x)).text quote = (code x).text quote) (xs : List α) :
    (ended (xs.flatMap lines)).text quote = Code.text quote (xs.flatMap code) := by
  induction xs with
  | nil => rfl
  | cons x xs ih =>
    rw [List.flatMap_cons, List.flatMap_cons, ended_append, text_append, text_append, h, ih]

/-- The rows of code that is put together row by row are the tokens of these rows. -/
theorem rows?_ended {L : Lexicon} {quote : Text → Text} (hL : L.Reads quote)
    (h : ∀ line ∈ lines, IsRow line) :
    L.rows? ((ended lines).text quote) = some (lines.map tokens ++ [[]]) := by
  have hend : Spells IsFrame (fixed "\n") [.layout '\n'] := ⟨by decide, by decide⟩
  have hspells : Spells IsLine (ended lines)
      (lines.flatMap fun line => line.tokens ++ [.layout '\n']) :=
    spells_flatMap fun line hline => Spells.append_frame ⟨(h line hline).isPhrase, rfl⟩ hend
  have hrows : ∀ row ∈ lines.map tokens, Token.layout '\n' ∉ row := by
    intro row hrow
    obtain ⟨line, hline, rfl⟩ := List.mem_map.1 hrow
    exact (h line hline).unbroken.not_mem (List.mem_singleton.2 rfl) rfl
  rw [Lexicon.rows?, hspells.lex_text hL, Option.map_some, rowsOf, ← splitOn_ended _ hrows,
    List.flatMap_map]

end Code
end CurlScribe
