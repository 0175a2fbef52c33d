import CurlScribe.Proofs.Target.Literal
import CurlScribe.Target.Code

/-!
# Lexing generated code

A lexer for what the three languages share: names, numbers, punctuation, layout, and the string
literals of the language at hand. It knows no comments and no characters that could begin one, and
it refuses a literal that touches a word, since that word would be a prefix of the literal.

Generated code is fixed text with quoted text in between. Whether it lexes depends on the fixed text
alone, and so do the tokens but for the values of literals. To say so the code is seen as a row of
symbols, a character of the fixed text or a hole for a quoted text, and the lexer is compared with
one that reads symbols.
-/

namespace CurlScribe
namespace Target

/-! ## Tokens -/

/-- A token. Layout is kept, since lines and indentation mean something in some languages. -/
inductive Token where
  | name (t : Text)
  | number (t : Text)
  | string (value : Text)
  | punctuation (c : Char)
  | layout (c : Char)
deriving DecidableEq, Repr

/-- The token without the value of a literal. -/
def Token.erase : Token → Token
  | string _ => string []
  | token => token

/-- The token of a character that is one by itself. No such character begins a comment, a literal
or an escape. -/
def mark? (c : Char) : Option Token :=
  if [' ', '\n', '\t'].contains c then some (.layout c)
  else if "()[]\x7b\x7d<>.,:;=+-&!?".toList.contains c then some (.punctuation c)
  else none

/-- The tokens of a run of name characters: none if it is empty, else a name or a number. -/
def wordTokens? : Text → Option (List Token)
  | [] => some []
  | c :: run =>
    if Text.isNameStart c then some [.name (c :: run)]
    else if run.all Char.isDigit then some [.number (c :: run)]
    else none

/-- No mark goes on with a word. -/
theorem isNameChar_of_mark? {c : Char} (h : (mark? c).isSome = true) :
    Text.isNameChar c = false := by
  have hmem : c ∈ [' ', '\n', '\t'] ++ "()[]\x7b\x7d<>.,:;=+-&!?".toList := by
    rw [List.mem_append]
    unfold mark? at h
    split at h
    · next hl => exact .inl (List.contains_iff_mem.1 hl)
    · split at h
      · next hp => exact .inr (List.contains_iff_mem.1 hp)
      · exact absurd h (by simp)
  have hall : ([' ', '\n', '\t'] ++ "()[]\x7b\x7d<>.,:;=+-&!?".toList).all
      (fun d => !Text.isNameChar d) = true := by decide
  simpa using List.all_eq_true.1 hall c hmem

/-! ## The lexer -/

/-- The string literals of a language: what they begin with, and how they are read. -/
structure Lexicon where
  openers : List Text
  read? : Text → Option (Text × Text)
  length_read?_lt : ∀ {t value rest}, read? t = some (value, rest) → rest.length < t.length

namespace Lexicon

/-- Does a literal begin here? -/
def opens (L : Lexicon) (input : Text) : Bool := L.openers.any fun opener => opener.isPrefixOf input

/-- The tokens of the input, where `run` is the word that has been read before it. -/
def lexFrom (L : Lexicon) (run : Text) : Text → Option (List Token)
  | [] => wordTokens? run
  | c :: rest =>
    if L.opens (c :: rest) then
      if run.isEmpty then
        match _h : L.read? (c :: rest) with
        | none => none
        | some (value, after) => (lexFrom L [] after).map (.string value :: ·)
      else none
    else if Text.isNameChar c then lexFrom L (run ++ [c]) rest
    else
      match mark? c with
      | none => none
      | some mark =>
        (wordTokens? run).bind fun word => (lexFrom L [] rest).map fun tokens =>
          word ++ mark :: tokens
termination_by input => input.length
decreasing_by
  · exact L.length_read?_lt _h
  · simp
  · simp

/-- The tokens of a text, if all of it can be read. -/
def lex (L : Lexicon) (t : Text) : Option (List Token) := L.lexFrom [] t

end Lexicon

/-! ## Symbols -/

/-- A character of fixed text, or a hole that is filled with a quoted text. -/
inductive Symbol where
  | char (c : Char)
  | hole (t : Text)
deriving DecidableEq, Repr

namespace Symbol

/-- The text of a symbol in a language that quotes by `quote`. -/
def text (quote : Text → Text) : Symbol → Text
  | char c => [c]
  | hole t => quote t

/-- The symbol without the text that fills it. -/
def erase : Symbol → Symbol
  | char c => char c
  | hole _ => hole []

end Symbol

/-- The tokens of symbols, as `Lexicon.lexFrom` reads them when it finds every hole. -/
def tokensFrom (run : Text) : List Symbol → Option (List Token)
  | [] => wordTokens? run
  | .hole t :: rest => if run.isEmpty then (tokensFrom [] rest).map (.string t :: ·) else none
  | .char c :: rest =>
    if Text.isNameChar c then tokensFrom (run ++ [c]) rest
    else
      match mark? c with
      | none => none
      | some mark =>
        (wordTokens? run).bind fun word => (tokensFrom [] rest).map fun tokens =>
          word ++ mark :: tokens

theorem tokensFrom_name {run : Text} {c : Char} (h : Text.isNameChar c = true)
    (rest : List Symbol) : tokensFrom run (.char c :: rest) = tokensFrom (run ++ [c]) rest := by
  rw [tokensFrom, if_pos h]

theorem tokensFrom_mark {c : Char} {mark : Token} (h : mark? c = some mark) (run : Text)
    (rest : List Symbol) :
    tokensFrom run (.char c :: rest) =
      (wordTokens? run).bind fun word => (tokensFrom [] rest).map fun tokens =>
        word ++ mark :: tokens := by
  have hname := isNameChar_of_mark? (Option.isSome_iff_exists.2 ⟨mark, h⟩)
  simp only [tokensFrom, hname, Bool.false_eq_true, if_false, h]

theorem map_erase_wordTokens? (run : Text) :
    (wordTokens? run).map (List.map Token.erase) = wordTokens? run := by
  unfold wordTokens?
  split
  · rfl
  · split
    · rfl
    · split
      · rfl
      · rfl

theorem erase_of_mark? {c : Char} {mark : Token} (h : mark? c = some mark) :
    mark.erase = mark := by
  unfold mark? at h
  split at h
  · obtain rfl := Option.some.inj h
    rfl
  · split at h
    · obtain rfl := Option.some.inj h
      rfl
    · exact absurd h (by simp)

/-- The tokens depend on the texts that fill the holes by the values of literals only. -/
theorem tokensFrom_erase (run : Text) (symbols : List Symbol) :
    tokensFrom run (symbols.map Symbol.erase) =
      (tokensFrom run symbols).map (List.map Token.erase) := by
  induction symbols generalizing run with
  | nil => exact (map_erase_wordTokens? run).symm
  | cons symbol symbols ih =>
    cases symbol with
    | hole t =>
      show (if run.isEmpty then
        (tokensFrom [] (symbols.map Symbol.erase)).map (Token.string [] :: ·) else none) = _
      rw [tokensFrom, ih]
      split
      · rw [Option.map_map, Option.map_map]
        rfl
      · rfl
    | char c =>
      show (if Text.isNameChar c then tokensFrom (run ++ [c]) (symbols.map Symbol.erase) else _) = _
      rw [tokensFrom]
      split
      · exact ih _
      · rw [ih]
        -- a mark ends the open word, whose tokens hold no text of a literal
        cases hm : mark? c with
        | none => rfl
        | some mark =>
          have hword := map_erase_wordTokens? run
          have hmark := erase_of_mark? hm
          cases hw : wordTokens? run with
          | none => rfl
          | some word =>
            rw [hw] at hword
            have hmap : word.map Token.erase = word := Option.some.inj hword
            cases tokensFrom [] symbols with
            | none => rfl
            | some tokens => simp [hmap, hmark]

/-! ## Places -/

/-- What stands before a symbol: a character that ends tokens, a word, or a literal. -/
inductive Place where
  | clear
  | word
  | literal
deriving DecidableEq, Repr

/-- The place after a symbol, if the symbol may stand where it stands. Words do not begin with
digits, and literals touch neither words nor each other. -/
def Place.next : Place → Symbol → Option Place
  | .clear, .hole _ => some .literal
  | .clear, .char c =>
    if Text.isNameStart c then some .word else if (mark? c).isSome then some .clear else none
  | .word, .char c =>
    if Text.isNameChar c then some .word else if (mark? c).isSome then some .clear else none
  | .literal, .char c => if (mark? c).isSome then some .clear else none
  | .word, .hole _ => none
  | .literal, .hole _ => none

/-- The place after symbols, if all of them may stand where they stand. -/
def scan (place : Place) (symbols : List Symbol) : Option Place := symbols.foldlM Place.next place

/-- The place behind symbols in a row is found one step after the other. -/
theorem scan_append (place : Place) (front back : List Symbol) :
    scan place (front ++ back) = (scan place front).bind fun middle => scan middle back :=
  List.foldlM_append

/-! ## The lexer on symbols -/

/-- What the comparison of the two lexers needs to know of a language that quotes by `quote`: where
its literals begin, and that a literal is read back if no quote follows. -/
structure Lexicon.Reads (L : Lexicon) (quote : Text → Text) : Prop where
  opens_quote : ∀ t rest, L.opens (quote t ++ rest) = true
  read?_quote : ∀ t rest, (∀ c ∈ rest.head?, (mark? c).isSome = true) →
    L.read? (quote t ++ rest) = some (t, rest)
  opens_mark : ∀ c rest, (mark? c).isSome = true → L.opens (c :: rest) = false
  opens_name : ∀ c rest, Text.isNameChar c = true →
    (∀ d ∈ rest.head?, (Text.isNameChar d || (mark? d).isSome) = true) →
    L.opens (c :: rest) = false

/-- A literal is one token. -/
theorem lexFrom_literal {L : Lexicon} {input value after : Text} {tokens : List Token}
    (hopens : L.opens input = true) (hread : L.read? input = some (value, after))
    (h : L.lexFrom [] after = some tokens) :
    L.lexFrom [] input = some (.string value :: tokens) := by
  cases input with
  | nil => exact absurd (L.length_read?_lt hread) (by simp)
  | cons c rest =>
    rw [Lexicon.lexFrom, if_pos hopens, if_pos List.isEmpty_nil]
    split
    · next hn => exact absurd (hn.symm.trans hread) (by simp)
    · next v a hs =>
      obtain ⟨rfl, rfl⟩ := Prod.mk.inj (Option.some.inj (hs.symm.trans hread))
      rw [h]
      rfl

theorem lexFrom_name {L : Lexicon} {run rest : Text} {c : Char}
    (hopens : L.opens (c :: rest) = false) (h : Text.isNameChar c = true) :
    L.lexFrom run (c :: rest) = L.lexFrom (run ++ [c]) rest := by
  rw [Lexicon.lexFrom, hopens]
  simp only [Bool.false_eq_true, if_false, h, if_true]

/-- A mark ends the word before it and is a token of its own. -/
theorem lexFrom_mark {L : Lexicon} {rest : Text} {c : Char} {mark : Token}
    (hopens : L.opens (c :: rest) = false) (h : mark? c = some mark) (run : Text) :
    L.lexFrom run (c :: rest) =
      (wordTokens? run).bind fun word => (L.lexFrom [] rest).map fun tokens =>
        word ++ mark :: tokens := by
  have hname := isNameChar_of_mark? (Option.isSome_iff_exists.2 ⟨mark, h⟩)
  rw [Lexicon.lexFrom, hopens]
  simp only [hname, Bool.false_eq_true, if_false, h]

/-- The word that has been read when a place is reached. -/
def Place.Holds : Place → Text → Prop
  | .word, run => ∃ c rest, run = c :: rest ∧ Text.isNameStart c = true
  | _, run => run = []

theorem wordTokens?_isSome {place : Place} {run : Text} (h : place.Holds run) :
    ∃ word, wordTokens? run = some word := by
  cases place with
  | word =>
    obtain ⟨c, rest, rfl, hc⟩ := h
    exact ⟨_, if_pos hc⟩
  | clear =>
    obtain rfl := h
    exact ⟨[], rfl⟩
  | literal =>
    obtain rfl := h
    exact ⟨[], rfl⟩

/-- The place after a character that may stand where it stands: a word begins or goes on with a
name character, and every other character is a mark. -/
theorem next_char {place next : Place} {c : Char} (h : place.next (.char c) = some next) :
    (next = .word ∧ (place = .clear ∧ Text.isNameStart c = true ∨
      place = .word ∧ Text.isNameChar c = true)) ∨ (next = .clear ∧ (mark? c).isSome = true) := by
  have hmark (h : (if (mark? c).isSome = true then some Place.clear else none) = some next) :
      next = .clear ∧ (mark? c).isSome = true := by
    split at h
    · next hm => exact ⟨(Option.some.inj h).symm, hm⟩
    · exact absurd h (by simp)
  cases place with
  | clear =>
    rw [Place.next] at h
    split at h
    · next hc => exact .inl ⟨(Option.some.inj h).symm, .inl ⟨rfl, hc⟩⟩
    · exact .inr (hmark h)
  | word =>
    rw [Place.next] at h
    split at h
    · next hc => exact .inl ⟨(Option.some.inj h).symm, .inr ⟨rfl, hc⟩⟩
    · exact .inr (hmark h)
  | literal => exact .inr (hmark h)

/-- A name character that may stand where it stands belongs to the word that has been read. -/
theorem Place.Holds.snoc {place : Place} {run : Text} {c : Char} (hrun : place.Holds run)
    (h : place.next (.char c) = some .word) :
    Text.isNameChar c = true ∧ Place.word.Holds (run ++ [c]) := by
  rcases next_char h with ⟨-, ⟨rfl, hc⟩ | ⟨rfl, hc⟩⟩ | ⟨hn, -⟩
  · obtain rfl : run = [] := hrun
    exact ⟨Text.isNameChar_of_isNameStart hc, c, [], rfl, hc⟩
  · obtain ⟨d, more, rfl, hd⟩ := hrun
    exact ⟨hc, d, more ++ [c], rfl, hd⟩
  · exact absurd hn (by simp)

/-- The first character of symbols after a word goes on with it or ends it. -/
theorem head_of_scan_word (quote : Text → Text) {symbols : List Symbol} {last : Place}
    (h : scan .word symbols = some last) :
    ∀ d ∈ (symbols.flatMap (Symbol.text quote)).head?,
      (Text.isNameChar d || (mark? d).isSome) = true := by
  cases symbols with
  | nil => simp
  | cons symbol symbols =>
    cases symbol with
    | hole t => exact absurd h (by simp [scan, Place.next])
    | char c =>
      intro d hd
      obtain rfl : c = d := Option.some.inj hd
      rw [scan, List.foldlM_cons] at h
      obtain ⟨middle, hnext, -⟩ := Option.bind_eq_some_iff.1 h
      rcases next_char hnext with ⟨-, ⟨hp, -⟩ | ⟨-, hc⟩⟩ | ⟨-, hm⟩
      · exact absurd hp (by simp)
      · rw [hc, Bool.true_or]
      · rw [hm, Bool.or_true]

/-- The first character of symbols after a literal is a mark. -/
theorem head_of_scan_literal (quote : Text → Text) {symbols : List Symbol} {last : Place}
    (h : scan .literal symbols = some last) :
    ∀ d ∈ (symbols.flatMap (Symbol.text quote)).head?, (mark? d).isSome = true := by
  cases symbols with
  | nil => simp
  | cons symbol symbols =>
    cases symbol with
    | hole t => exact absurd h (by simp [scan, Place.next])
    | char c =>
      intro d hd
      obtain rfl : c = d := Option.some.inj hd
      rw [scan, List.foldlM_cons] at h
      obtain ⟨middle, hnext, -⟩ := Option.bind_eq_some_iff.1 h
      rcases next_char hnext with ⟨-, ⟨hp, -⟩ | ⟨hp, -⟩⟩ | ⟨-, hm⟩
      · exact absurd hp (by simp)
      · exact absurd hp (by simp)
      · exact hm

/-- Symbols that stand where they may are lexed as their text is. -/
theorem lexFrom_text {L : Lexicon} {quote : Text → Text} (hL : L.Reads quote)
    {symbols : List Symbol} {place last : Place} {run : Text} (hrun : place.Holds run)
    (h : scan place symbols = some last) :
    ∃ tokens, tokensFrom run symbols = some tokens ∧
      L.lexFrom run (symbols.flatMap (Symbol.text quote)) = some tokens := by
  -- on the symbols; the place says what the word that has been read looks like
  induction symbols generalizing place run with
  | nil =>
    obtain ⟨word, hw⟩ := wordTokens?_isSome hrun
    refine ⟨word, hw, ?_⟩
    rw [List.flatMap_nil, Lexicon.lexFrom]
    exact hw
  | cons symbol symbols ih =>
    rw [scan, List.foldlM_cons] at h
    obtain ⟨middle, hnext, hrest⟩ := Option.bind_eq_some_iff.1 h
    cases symbol with
    | hole t =>
      -- a hole stands only where tokens have ended
      obtain ⟨rfl, rfl⟩ : place = .clear ∧ .literal = middle := by
        cases place with
        | clear => exact ⟨rfl, Option.some.inj hnext⟩
        | word => exact absurd hnext (by simp [Place.next])
        | literal => exact absurd hnext (by simp [Place.next])
      obtain rfl : run = [] := hrun
      obtain ⟨tokens, ht, hlex⟩ := ih (show Place.literal.Holds [] from rfl) hrest
      refine ⟨.string t :: tokens, by rw [tokensFrom, ht]; rfl, ?_⟩
      exact lexFrom_literal (hL.opens_quote _ _)
        (hL.read?_quote t _ (head_of_scan_literal quote hrest)) hlex
    | char c =>
      rw [List.flatMap_cons]
      show ∃ tokens, _ ∧ L.lexFrom run (c :: symbols.flatMap (Symbol.text quote)) = _
      rcases next_char hnext with ⟨rfl, -⟩ | ⟨rfl, hm⟩
      · -- a name character goes on with the word; it opens no literal because of what follows it
        obtain ⟨hname, hrun'⟩ := hrun.snoc hnext
        obtain ⟨tokens, ht, hlex⟩ := ih hrun' hrest
        have hopens := hL.opens_name c _ hname (head_of_scan_word quote hrest)
        exact ⟨tokens, by rw [tokensFrom_name hname, ht], by rw [lexFrom_name hopens hname, hlex]⟩
      · -- a mark ends the word
        obtain ⟨mark, hmark⟩ := Option.isSome_iff_exists.1 hm
        have hopens := hL.opens_mark c (symbols.flatMap (Symbol.text quote)) hm
        obtain ⟨word, hword⟩ := wordTokens?_isSome hrun
        obtain ⟨tokens, ht, hlex⟩ := ih (show Place.clear.Holds [] from rfl) hrest
        refine ⟨word ++ mark :: tokens, ?_, ?_⟩
        · rw [tokensFrom_mark hmark, hword, ht]
          rfl
        · rw [lexFrom_mark hopens hmark, hword, hlex]
          rfl

/-- A word ends before symbols that may stand behind a literal. -/
theorem tokensFrom_of_scan_literal {back : List Symbol} (h : (scan .literal back).isSome = true)
    (run : Text) :
    tokensFrom run back =
      (wordTokens? run).bind fun tokens => (tokensFrom [] back).map (tokens ++ ·) := by
  cases back with
  | nil => simp [tokensFrom, wordTokens?]
  | cons symbol back =>
    cases symbol with
    | hole t => exact absurd h (by simp [scan, Place.next])
    | char c =>
      rw [scan, List.foldlM_cons] at h
      obtain ⟨last, hlast⟩ := Option.isSome_iff_exists.1 h
      obtain ⟨next, hnext, -⟩ := Option.bind_eq_some_iff.1 hlast
      rcases next_char hnext with ⟨-, ⟨hp, -⟩ | ⟨hp, -⟩⟩ | ⟨-, hm⟩
      · exact absurd hp (by simp)
      · exact absurd hp (by simp)
      · obtain ⟨mark, hmark⟩ := Option.isSome_iff_exists.1 hm
        rw [tokensFrom_mark hmark, tokensFrom_mark hmark]
        cases wordTokens? run with
        | none => rfl
        | some word => cases tokensFrom [] back <;> simp [wordTokens?]

/-- Symbols are read apart from those behind them if they do not end inside a word or those behind
them end it. -/
theorem tokensFrom_append_of {front back : List Symbol} {place last : Place} {run : Text}
    (hrun : place.Holds run) (h : scan place front = some last)
    (hback : last ≠ .word ∨ (scan .literal back).isSome = true) :
    tokensFrom run (front ++ back) =
      (tokensFrom run front).bind fun tokens => (tokensFrom [] back).map (tokens ++ ·) := by
  induction front generalizing place run with
  | nil =>
    obtain rfl : place = last := Option.some.inj h
    rw [List.nil_append, tokensFrom]
    rcases hback with hlast | hback
    · -- only a word would still be open at the end of the front
      have hnil : run = [] := by
        cases place with
        | clear => exact hrun
        | word => exact absurd rfl hlast
        | literal => exact hrun
      subst hnil
      cases tokensFrom [] back <;> rfl
    · exact tokensFrom_of_scan_literal hback run
  | cons symbol front ih =>
    rw [scan, List.foldlM_cons] at h
    obtain ⟨middle, hnext, hrest⟩ := Option.bind_eq_some_iff.1 h
    rw [List.cons_append]
    cases symbol with
    | hole t =>
      -- a literal begins where no word is open
      have hmiddle : middle.Holds [] := by
        cases place with
        | clear => obtain rfl := Option.some.inj hnext; rfl
        | word => exact absurd hnext (by simp [Place.next])
        | literal => exact absurd hnext (by simp [Place.next])
      rw [tokensFrom, tokensFrom, ih hmiddle hrest]
      split
      · cases tokensFrom [] front with
        | none => rfl
        | some tokens => cases tokensFrom [] back <;> rfl
      · rfl
    | char c =>
      rcases next_char hnext with ⟨rfl, -⟩ | ⟨rfl, hm⟩
      · obtain ⟨hname, hrun'⟩ := hrun.snoc hnext
        rw [tokensFrom_name hname, tokensFrom_name hname]
        exact ih hrun' hrest
      · obtain ⟨mark, hmark⟩ := Option.isSome_iff_exists.1 hm
        rw [tokensFrom_mark hmark, tokensFrom_mark hmark,
          ih (show Place.clear.Holds [] from rfl) hrest]
        cases wordTokens? run with
        | none => rfl
        | some word =>
          cases tokensFrom [] front with
          | none => rfl
          | some tokens => cases tokensFrom [] back <;> simp

/-! ## The languages -/

def goLexicon : Lexicon := ⟨[['"'], ['\x60']], GoLiteral.read?, GoLiteral.length_read?_lt⟩

def pythonLexicon : Lexicon :=
  ⟨[['\''], ['"']], PythonLiteral.read?, PythonLiteral.length_read?_lt⟩

def rustLexicon : Lexicon :=
  ⟨[['"'], ['r', '#', '"']], RustLiteral.read?, RustLiteral.length_read?_lt⟩

theorem ne_of_mark? {c d : Char} (hd : mark? d = none) (h : (mark? c).isSome = true) :
    d ≠ c := by
  rintro rfl
  exact absurd h (by simp [hd])

theorem ne_of_isNameChar {c d : Char} (hd : Text.isNameChar d = false)
    (h : Text.isNameChar c = true) : d ≠ c := by
  rintro rfl
  exact absurd h (by simp [hd])

theorem reads_go : goLexicon.Reads GoLiteral.quote where
  opens_quote t rest := by
    unfold GoLiteral.quote
    split
    · rfl
    · rfl
  read?_quote t rest _ := GoLiteral.read?_quote t rest
  opens_mark c rest h := by
    have hquote : '"' ≠ c := ne_of_mark? (by decide) h
    have hback : '\x60' ≠ c := ne_of_mark? (by decide) h
    simp [Lexicon.opens, goLexicon, List.isPrefixOf, hquote, hback]
  opens_name c rest h _ := by
    have hquote : '"' ≠ c := ne_of_isNameChar (by decide) h
    have hback : '\x60' ≠ c := ne_of_isNameChar (by decide) h
    simp [Lexicon.opens, goLexicon, List.isPrefixOf, hquote, hback]

theorem reads_python : pythonLexicon.Reads PythonLiteral.quote where
  opens_quote t rest := by
    rcases Bool.or_eq_true_iff.1 (PythonLiteral.isQuote_delimiter t) with h | h
    · rw [PythonLiteral.quote, beq_iff_eq.1 h]
      rfl
    · rw [PythonLiteral.quote, beq_iff_eq.1 h]
      rfl
  read?_quote t rest h := by
    refine PythonLiteral.read?_quote t ?_
    intro c hc
    have hsingle : '\'' ≠ c := ne_of_mark? (by decide) (h c hc)
    have hdouble : '"' ≠ c := ne_of_mark? (by decide) (h c hc)
    simp [PythonLiteral.isQuote, hsingle.symm, hdouble.symm]
  opens_mark c rest h := by
    have hsingle : '\'' ≠ c := ne_of_mark? (by decide) h
    have hdouble : '"' ≠ c := ne_of_mark? (by decide) h
    simp [Lexicon.opens, pythonLexicon, List.isPrefixOf, hsingle, hdouble]
  opens_name c rest h _ := by
    have hsingle : '\'' ≠ c := ne_of_isNameChar (by decide) h
    have hdouble : '"' ≠ c := ne_of_isNameChar (by decide) h
    simp [Lexicon.opens, pythonLexicon, List.isPrefixOf, hsingle, hdouble]

theorem reads_rust : rustLexicon.Reads RustLiteral.quote where
  opens_quote t rest := by
    unfold RustLiteral.quote
    split
    · rfl
    · rfl
  read?_quote t rest _ := RustLiteral.read?_quote t rest
  opens_mark c rest h := by
    have hquote : '"' ≠ c := ne_of_mark? (by decide) h
    have hraw : 'r' ≠ c := ne_of_mark? (by decide) h
    simp [Lexicon.opens, rustLexicon, List.isPrefixOf, hquote, hraw]
  opens_name c rest h hrest := by
    have hquote : '"' ≠ c := ne_of_isNameChar (by decide) h
    -- an r would open a raw literal before a number sign, which is no mark
    have hhash : ∀ d more, rest = d :: more → '#' ≠ d := by
      rintro d more rfl rfl
      exact absurd (hrest '#' rfl) (by decide)
    cases rest with
    | nil => simp [Lexicon.opens, rustLexicon, List.isPrefixOf, hquote]
    | cons d more => simp [Lexicon.opens, rustLexicon, List.isPrefixOf, hquote, hhash d more rfl]

end Target
end CurlScribe
