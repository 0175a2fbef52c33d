import CurlScribe.Proofs.Shell.Numeral
import CurlScribe.Proofs.Shell.Positions

/-!
# Escapes by number

In `$'...'` strings a character can be given by the digits of its code point, in four forms. Each
takes the longest run of digits in front of it, and no form takes more digits than a word of 32 bits
can hold. The character is the one with that number, so that every character is read back from its
digits in full width, whatever follows them (`numericEscape_exact`). Where there is no digit, or no
character with the number, the string is refused, and the error names the place of its dollar.
-/

namespace CurlScribe
namespace Shell

open Grammar

/-! ## Numbers without a character -/

/-- Is the number no code point of a character: one of a surrogate, or above the last code point? -/
def NoScalar (n : Nat) : Prop := (0xD800 ≤ n ∧ n ≤ 0xDFFF) ∨ 0x10FFFF < n

theorem scalar?_eq_none_iff {n : Nat} : scalar? n = none ↔ NoScalar n := by
  have hvalid : n.isValidChar ↔ n < 0xD800 ∨ (0xDFFF < n ∧ n < 0x110000) := Iff.rfl
  have hnone : scalar? n = none ↔ ¬n.isValidChar := by
    unfold scalar?
    split <;> simp [*]
  rw [hnone, hvalid, NoScalar]
  omega

/-- The character whose code point is in the word, or the fault of a string at `opening`. -/
def ofWord (opening : Text) (word : Option UInt32) (rest : Text) : Except Fault (Text × Text) :=
  match word.bind fun n => scalar? n.toNat with
  | some c => .ok ([c], rest)
  | none => .error ⟨opening, .invalidEscape⟩

/-! ## Forms of escapes -/

/-- The forms of escapes by number. -/
inductive NumericForm where
  | byte
  | short
  | long
  | octal
deriving DecidableEq, Repr

namespace NumericForm

/-- What stands between the backslash and the digits. -/
def lead : NumericForm → Text
  | byte => ['x']
  | short => ['u']
  | long => ['U']
  | octal => []

def radix : NumericForm → Radix
  | octal => .octal
  | _ => .hexadecimal

/-- How many digits are taken at most. -/
def limit : NumericForm → Nat
  | byte => 2
  | short => 4
  | long => 8
  | octal => 3

/-- The text can stand where the digits of an escape begin. Where no letter announces them there is
one at least. -/
def Opens (f : NumericForm) (input : Text) : Prop :=
  f.lead = [] → ∃ c more, input = c :: more ∧ (f.radix.value? c).isSome = true

/-- Is there no digit, or no character with the number? -/
def IsFaulty (f : NumericForm) (run : Text) : Prop := run = [] ∨ NoScalar (f.radix.valueOf run)

/-- The digits of a character in full width, in any case. -/
structure Spells (f : NumericForm) (c : Char) (digits : Text) : Prop where
  areDigits : f.radix.AreDigits digits
  fullWidth : digits.length = f.limit
  value : f.radix.valueOf digits = c.toNat

theorem limit_pos (f : NumericForm) : 0 < f.limit := by
  cases f <;> decide

/-- No form takes more digits than fit into a word. The longest one fills it. -/
theorem pow_limit_le (f : NumericForm) : f.radix.base ^ f.limit ≤ UInt32.size := by
  cases f <;> decide

end NumericForm

/-! ## One escape -/

variable {f : NumericForm}

/-- What opens an escape by number is read as one, since no escape before it has its first
character. -/
theorem ansiEscape_lead {input : Text} (h : f.Opens input) (opening : Text) :
    ansiEscape opening (f.lead ++ input) =
      numericEscape opening f.radix.value? f.radix.base f.limit input := by
  cases f with
  | byte => rfl
  | short => rfl
  | long => rfl
  | octal =>
    obtain ⟨c, more, rfl, hc⟩ := h rfl
    obtain ⟨d, hd⟩ := Option.isSome_iff_exists.1 hc
    have hoctal : Text.octalValue? c = some d := hd
    obtain ⟨hletter, hhex⟩ := none_of_octalValue? hoctal
    show ansiEscape opening (c :: more) = _
    simp only [ansiEscape, hletter, hhex, hoctal]
    rfl

/-- The scanner answers as if the number had been added up in a word. -/
theorem numericEscape_eq_ofWord {r : Radix} {limit : Nat} {input run rest : Text}
    {word : Option UInt32} (hread : digitRun r.value? limit input = (r.values run, rest))
    (hrun : r.AreDigits run)
    (hword : word.map UInt32.toNat = if run = [] then none else some (r.valueOf run))
    (opening : Text) :
    numericEscape opening r.value? r.base limit input = ofWord opening word rest := by
  have hlength := Radix.length_values hrun
  rw [numericEscape, hread]
  cases run with
  | nil =>
    obtain rfl : word = none := Option.map_eq_none_iff.1 hword
    rfl
  | cons c run =>
    rw [if_neg (List.cons_ne_nil c run)] at hword
    obtain ⟨n, rfl, hn⟩ := Option.map_eq_some_iff.1 hword
    obtain ⟨d, ds, hvalues⟩ : ∃ d ds, r.values (c :: run) = d :: ds :=
      List.exists_cons_of_length_pos (by rw [hlength]; exact Nat.succ_pos _)
    have hnumber : ofDigits r.base (d :: ds) = n.toNat := by
      rw [hn, ← hvalues, Radix.ofDigits_eq, Radix.valueOf]
    cases hc : scalar? n.toNat with
    | none => simp only [hvalues, ofWord, Option.bind_some, hnumber, hc]
    | some e => simp only [hvalues, ofWord, Option.bind_some, hnumber, hc]

/-- Either there is a fault, or there is a character with the number. -/
theorem ofWord_cases {run : Text} {word : Option UInt32}
    (hword : word.map UInt32.toNat = if run = [] then none else some (f.radix.valueOf run)) :
    (f.IsFaulty run ∧ ∀ opening rest, ofWord opening word rest = .error ⟨opening, .invalidEscape⟩) ∨
      (¬f.IsFaulty run ∧ ∃ c : Char, c.toNat = f.radix.valueOf run ∧
        ∀ opening rest, ofWord opening word rest = .ok ([c], rest)) := by
  by_cases hnil : run = []
  · rw [if_pos hnil] at hword
    obtain rfl : word = none := Option.map_eq_none_iff.1 hword
    exact .inl ⟨.inl hnil, fun _ _ => rfl⟩
  · rw [if_neg hnil] at hword
    obtain ⟨n, rfl, hn⟩ := Option.map_eq_some_iff.1 hword
    have hfaulty : f.IsFaulty run ↔ scalar? n.toNat = none := by
      rw [scalar?_eq_none_iff, hn]
      exact or_iff_right hnil
    rw [hfaulty]
    cases hc : scalar? n.toNat with
    | none =>
      refine .inl ⟨rfl, fun opening rest => ?_⟩
      rw [ofWord, Option.bind_some, hc]
    | some c =>
      have hcode : c.toNat = f.radix.valueOf run := by
        rw [← hn]
        exact scalar?_eq_some_iff.1 hc
      refine .inr ⟨by simp, c, hcode, fun opening rest => ?_⟩
      rw [ofWord, Option.bind_some, hc]

/-! ## Escapes in a command -/

/-- The scanner of a `$'...'` string comes from the input to `rest`. -/
inductive AnsiReaches : Text → Text → Prop
  | here (rest : Text) : AnsiReaches rest rest
  | escape {input cs next rest : Text} (isEscape : AnsiEscape input cs next)
      (tail : AnsiReaches next rest) : AnsiReaches ('\\' :: input) rest
  | plain {c : Char} {input rest : Text} (isPlain : c ∉ ['\'', '\\'])
      (tail : AnsiReaches input rest) : AnsiReaches (c :: input) rest

/-- The scanner of a command comes from the input to `rest`, where a fragment can begin: in the
first word, or in one behind it. -/
inductive Reaches : Text → Text → Prop
  | inWord {c : Char} {input tail rest : Text} {as : List Atom} (blanks : Blanks input (c :: tail))
      (isStart : WordStart c tail) (fragments : Fragments (c :: tail) as rest) : Reaches input rest
  | behindWord {input start next rest : Text} {as : List Atom} (blanks : Blanks input start)
      (isWord : MaximalWord start as next) (tail : Reaches next rest) : Reaches input rest

section Faults

variable {opening input rest : Text} {e : Fault}

theorem ansiQuoted_eq_error (h : AnsiReaches input rest) (he : ansiQuoted opening rest = .error e) :
    ansiQuoted opening input = .error e := by
  induction h with
  | here => exact he
  | escape isEscape _ ih =>
    rw [ansiQuoted_escape (ansiEscape_complete opening isEscape), ih he]
    rfl
  | plain isPlain _ ih =>
    rw [ansiQuoted_plain isPlain, ih he]
    rfl

theorem scanWord_eq_error {as : List Atom} (h : Fragments input as rest)
    (he : scanWord rest = .error e) : scanWord input = .error e := by
  induction h with
  | nil => exact he
  | cons head _ ih =>
    rw [scanWord_fragment head, ih he]
    rfl

theorem lexemes_eq_error (h : Reaches input rest) (he : scanWord rest = .error e) :
    (lexemes input).2 = some e := by
  induction h with
  | @inWord _ input _ _ _ blanks isStart fragments =>
    have hskip := skipBlank_of_blanks blanks (skipBlank_of_wordStart isStart)
    have hnext : nextLexeme input = some (.error e) := by
      simp only [nextLexeme, hskip, scanWord_eq_error fragments he]
    rw [lexemes_eq, hnext]
  | behindWord blanks isWord _ ih =>
    rw [lexemes_eq, nextLexeme_complete blanks isWord]
    exact ih he

/-- A fault in a `$'...'` string is a fault of its word. -/
theorem scanWord_ansiQuoted_eq_error {body : Text}
    (he : ansiQuoted ('$' :: '\'' :: body) body = .error e) :
    scanWord ('$' :: '\'' :: body) = .error e := by
  rw [scanWord]
  split
  · next hs => exact absurd (hs.symm.trans he) (by simp)
  · next e' hs => rw [Except.error.inj (hs.symm.trans he)]

/-- A fault in a `$'...'` string that the scanner comes to ends the tokens, and is reported at the
dollar. -/
theorem tokenStream_of_faultyEscape {front body : Text}
    (hstring : Reaches (front ++ '$' :: '\'' :: body) ('$' :: '\'' :: body))
    (hescape : AnsiReaches body ('\\' :: input))
    (he : ansiEscape ('$' :: '\'' :: body) input =
      .error ⟨'$' :: '\'' :: body, .invalidEscape⟩) :
    (tokenStream (front ++ '$' :: '\'' :: body)).2 =
      some ⟨Text.byteSize front, .invalidEscape⟩ := by
  have hbody := ansiQuoted_eq_error hescape (ansiQuoted_faultyEscape he)
  have hlexemes := lexemes_eq_error hstring (scanWord_ansiQuoted_eq_error hbody)
  rw [tokenStream_eq, hlexemes, Option.map_some, Fault.located, position_append]

end Faults

/-! ## Exactness -/

/-- How an escape is read whose digits begin the input. -/
structure Decodes (f : NumericForm) (input run : Text) (word : Option UInt32) (rest : Text) :
    Prop where
  longest : f.radix.LongestRun f.limit input run rest
  /-- Where no letter stands in front there is a digit. -/
  nonempty : f.lead = [] → run ≠ []
  /-- Adding up the digits in a word never exceeds it. -/
  accumulated : f.radix.accumulate? f.limit none input = some (word, rest)
  /-- There is a number exactly if there is a digit, and it is the number of the run. -/
  value : word.map UInt32.toNat = if run = [] then none else some (f.radix.valueOf run)
  /-- What the scanner answers depends on the word only. -/
  scanned : ∀ opening, ansiEscape opening (f.lead ++ input) = ofWord opening word rest
  /-- The character with the number is put in front of what the string goes on with. -/
  pushed : ¬f.IsFaulty run → ∃ c : Char, c.toNat = f.radix.valueOf run ∧ ∀ opening,
    ansiEscape opening (f.lead ++ input) = .ok ([c], rest) ∧
      ansiQuoted opening ('\\' :: (f.lead ++ input)) =
        (ansiQuoted opening rest).prepend [.char c]
  refused : ∀ opening, ansiEscape opening (f.lead ++ input) = .error ⟨opening, .invalidEscape⟩ ↔
    f.IsFaulty run
  /-- A refused escape in a command is an error at the dollar of its string. -/
  reported : f.IsFaulty run → ∀ front body,
    Reaches (front ++ '$' :: '\'' :: body) ('$' :: '\'' :: body) →
      AnsiReaches body ('\\' :: (f.lead ++ input)) →
        (tokenStream (front ++ '$' :: '\'' :: body)).2 =
          some ⟨Text.byteSize front, .invalidEscape⟩

theorem exists_decodes {input : Text} (h : f.Opens input) :
    ∃ run word rest, Decodes f input run word rest := by
  obtain ⟨run, rest, hlongest, hread⟩ := f.radix.exists_longestRun f.limit input
  obtain ⟨word, hword, hvalue⟩ :=
    Radix.exists_accumulate? f.pow_limit_le hread hlongest.areDigits
  have hscan : ∀ opening, ansiEscape opening (f.lead ++ input) = ofWord opening word rest := by
    intro opening
    rw [ansiEscape_lead h, numericEscape_eq_ofWord hread hlongest.areDigits hvalue]
  have hrefused : ∀ opening,
      ansiEscape opening (f.lead ++ input) = .error ⟨opening, .invalidEscape⟩ ↔
        f.IsFaulty run := by
    intro opening
    rw [hscan]
    rcases ofWord_cases hvalue with ⟨hfaulty, he⟩ | ⟨hgood, c, -, hc⟩
    · simp [he, hfaulty]
    · simp [hc, hgood]
  refine ⟨run, word, rest, hlongest, ?_, hword, hvalue, hscan, ?_, hrefused, ?_⟩
  · intro hlead
    obtain ⟨c, more, rfl, hc⟩ := h hlead
    exact hlongest.ne_nil f.limit_pos hc
  · intro hgood
    rcases ofWord_cases hvalue with ⟨hfaulty, -⟩ | ⟨-, c, hcode, hc⟩
    · exact absurd hfaulty hgood
    · refine ⟨c, hcode, fun opening => ?_⟩
      have hread := (hscan opening).trans (hc opening rest)
      exact ⟨hread, ansiQuoted_escape hread⟩
  · intro hfaulty front body hstring hescape
    exact tokenStream_of_faultyEscape hstring hescape ((hrefused _).2 hfaulty)

/-- The same digits in another case spell the same character. -/
theorem NumericForm.Spells.recased {c : Char} {digits other : Text} (h : f.Spells c digits)
    (hcase : Text.sameIgnoringCase other digits = true) : f.Spells c other := by
  have hlower : Text.lower other = Text.lower digits := eq_of_beq hcase
  have hmap : other.map f.radix.value? = (f.radix.values digits).map some := by
    rw [← Radix.map_value?_lower, hlower, Radix.map_value?_lower, Radix.map_value? h.areDigits]
  have hdigits := Radix.areDigits_of_map hmap
  have hvalues := Radix.values_of_map hmap
  refine ⟨hdigits, ?_, ?_⟩
  · rw [← h.fullWidth, ← Radix.length_values hdigits, hvalues, Radix.length_values h.areDigits]
  · rw [Radix.valueOf, hvalues]
    exact h.value

/-- Digits in full width are the longest run, whatever follows them. -/
theorem NumericForm.Spells.longestRun {c : Char} {digits : Text} (h : f.Spells c digits)
    (rest : Text) {run after : Text}
    (hlongest : f.radix.LongestRun f.limit (digits ++ rest) run after) :
    run = digits ∧ after = rest := by
  have hle := hlongest.longest digits (List.prefix_append digits rest) h.areDigits
    (Nat.le_of_eq h.fullWidth)
  have hlength : run.length = digits.length := by
    have hbound := hlongest.bounded
    have hwidth := h.fullWidth
    omega
  obtain ⟨hrun, hafter⟩ := List.append_inj hlongest.input_eq hlength.symm
  exact ⟨hrun.symm, hafter.symm⟩

theorem NumericForm.Spells.ne_nil {c : Char} {digits : Text} (h : f.Spells c digits) :
    digits ≠ [] := by
  rintro rfl
  have hwidth : 0 = f.limit := h.fullWidth
  have hlimit := f.limit_pos
  omega

theorem NumericForm.Spells.opens {c : Char} {digits : Text} (h : f.Spells c digits)
    (rest : Text) : f.Opens (digits ++ rest) := by
  intro _
  obtain ⟨d, more, rfl⟩ := List.exists_cons_of_ne_nil h.ne_nil
  exact ⟨d, more ++ rest, rfl, h.areDigits d List.mem_cons_self⟩

theorem NumericForm.Spells.not_isFaulty {c : Char} {digits : Text} (h : f.Spells c digits) :
    ¬f.IsFaulty digits := by
  rintro (hnil | hscalar)
  · exact h.ne_nil hnil
  · rw [h.value, ← scalar?_eq_none_iff, scalar?_eq_some_iff.2 rfl] at hscalar
    cases hscalar

/-- The digits of a character in full width are read as that character, and nothing more is. -/
theorem NumericForm.Spells.read {c : Char} {digits : Text} (h : f.Spells c digits)
    (opening rest : Text) :
    ansiEscape opening (f.lead ++ (digits ++ rest)) = .ok ([c], rest) ∧
      ansiQuoted opening ('\\' :: (f.lead ++ (digits ++ rest))) =
        (ansiQuoted opening rest).prepend [.char c] := by
  obtain ⟨run, word, after, hdecodes⟩ := exists_decodes (h.opens rest)
  -- the limit keeps the run from going on with digits of the text behind
  obtain ⟨rfl, rfl⟩ := h.longestRun rest hdecodes.longest
  obtain ⟨d, hd, hread⟩ := hdecodes.pushed h.not_isFaulty
  obtain rfl : d = c := Char.toNat_inj.1 (hd.trans h.value)
  exact hread opening

/-- Every escape by number is read as its digits say, without overflow, and every character is read
back from each of its escapes in full width, whatever the case of their letters. It has such escapes
in a form exactly if its code point is not too large for the digits. -/
theorem numericEscape_exact (f : NumericForm) :
    (∀ input, f.Opens input → ∃ run word rest, Decodes f input run word rest) ∧
      (∀ c : Char, (∃ digits, f.Spells c digits) ↔ c.toNat < f.radix.base ^ f.limit) ∧
      (∀ c digits other, f.Spells c digits → Text.sameIgnoringCase other digits = true →
        f.Spells c other) ∧
      ∀ c digits, f.Spells c digits → ∀ opening rest,
        ansiEscape opening (f.lead ++ (digits ++ rest)) = .ok ([c], rest) ∧
          ansiQuoted opening ('\\' :: (f.lead ++ (digits ++ rest))) =
            (ansiQuoted opening rest).prepend [.char c] := by
  refine ⟨fun input => exists_decodes, fun c => ?_, fun c digits other => .recased,
    fun c digits h => h.read⟩
  rw [← Radix.exists_run_iff]
  constructor
  · rintro ⟨digits, h⟩
    exact ⟨digits, h.areDigits, h.fullWidth, h.value⟩
  · rintro ⟨digits, hdigits, hwidth, hvalue⟩
    exact ⟨digits, hdigits, hwidth, hvalue⟩

/-- The largest octal escape before another digit; the last character of all, in digits of both
cases and before another digit; and a surrogate in the second word of a command. -/
theorem numericEscape_exact_largest :
    let last := Char.ofNat 0x10FFFF
    NumericForm.octal.Opens "7778".toList ∧
      (∃ run word rest, Decodes .octal "7778".toList run word rest) ∧
      NumericForm.long.Spells last "0010ffff".toList ∧
      Text.sameIgnoringCase "0010fFfF".toList "0010ffff".toList = true ∧
      NumericForm.long.Spells last "0010fFfF".toList ∧
      ansiEscape [] "U0010fFfFF".toList = .ok ([last], ['F']) ∧
      (tokenStream "a b$'c\\ud800'".toList).2 = some ⟨3, .invalidEscape⟩ := by
  intro last
  have hopens : NumericForm.octal.Opens "7778".toList := fun _ => ⟨'7', _, rfl, by decide⟩
  have hspells : NumericForm.long.Spells last "0010ffff".toList :=
    ⟨by decide, by decide, by decide⟩
  have hcase : Text.sameIgnoringCase "0010fFfF".toList "0010ffff".toList = true := by decide
  have hmixed := (numericEscape_exact .long).2.2.1 last _ _ hspells hcase
  have hread := ((numericEscape_exact .long).2.2.2 last _ hmixed [] ['F']).1
  let command := "a b$'c\\ud800'".toList
  have hstring : Reaches command (command.drop 3) := by
    have hword : MaximalWord command [.char 'a'] (command.drop 1) := by
      refine ⟨?_, not_continuation_of_ne (by decide) _,
        ⟨_, _, _, .plain _ (by decide), .nil _, rfl⟩, ?_⟩
      · intro more h
        exact absurd (List.cons.inj h).1 (by decide)
      · intro c more h
        cases h
        decide
    have hblanks : Blanks (command.drop 1) ('b' :: command.drop 3) :=
      .separator (by decide) (.nil _)
    have hstart : WordStart 'b' (command.drop 3) :=
      ⟨by decide, by decide, not_continuation_of_ne (by decide) _⟩
    have hfragments : Fragments ('b' :: command.drop 3) [.char 'b'] (command.drop 3) :=
      .cons (.plain _ (by decide)) (.nil _)
    exact .behindWord (.nil _) hword (.inWord hblanks hstart hfragments)
  have hescape : AnsiReaches "c\\ud800'".toList "\\ud800'".toList :=
    .plain (by decide) (.here _)
  obtain ⟨run, word, rest, hdecodes⟩ := (numericEscape_exact .short).1 "d800'".toList nofun
  have hfaulty : NumericForm.short.IsFaulty run := (hdecodes.refused []).1 (by decide)
  exact ⟨hopens, (numericEscape_exact .octal).1 _ hopens, hspells, hcase, hmixed, hread,
    hdecodes.reported hfaulty "a b".toList "c\\ud800'".toList hstring hescape⟩

end Shell
end CurlScribe
