import CurlScribe.Word.Atom

/-!
# Fragments of shell words

A shell word is a row of fragments: plain characters, escaped characters, quoted strings of four
kinds and variable references. Each scanner below takes the input that is left, and answers with
what the fragment denotes and the input after it. A fault names its cause and the input from the
character that it blames, so that its place can be told from either end.

That no scanner lengthens the input is what makes the scan of a whole command end.
-/

namespace CurlScribe
namespace Shell

/-! ## Faults -/

/-- Why the input is no sequence of shell words. -/
inductive FaultCause where
  | danglingBackslash
  | unterminatedSingleQuote
  | unterminatedDoubleQuote
  | unterminatedAnsiString
  | unterminatedExpansion
  | unsupportedExpansion (name : Text)
  | invalidEscape
deriving DecidableEq, Repr, Inhabited

namespace FaultCause

def message : FaultCause → Text
  | danglingBackslash => "backslash at end of input escapes nothing".toList
  | unterminatedSingleQuote => "unterminated single quote".toList
  | unterminatedDoubleQuote => "unterminated double quote".toList
  | unterminatedAnsiString => "unterminated $'...' string".toList
  | unterminatedExpansion => "unterminated $\x7b...\x7d expansion".toList
  | unsupportedExpansion name =>
    "unsupported parameter expansion $\x7b".toList ++ name ++ "\x7d".toList
  | invalidEscape => "invalid escape sequence in $'...' string".toList

end FaultCause

/-- A cause and the input from the character that it blames. -/
structure Fault where
  input : Text
  cause : FaultCause
deriving DecidableEq, Repr

/-- The atoms that were read and the input after them. -/
abbrev Scan := Except Fault (List Atom × Text)

namespace Scan

/-- The atoms `as` in front of what a scan has read. -/
def prepend (as : List Atom) : Scan → Scan
  | .ok (bs, rest) => .ok (as ++ bs, rest)
  | .error e => .error e

theorem prepend_eq_ok {as bs : List Atom} {rest : Text} {s : Scan} :
    prepend as s = .ok (bs, rest) ↔ ∃ cs, s = .ok (cs, rest) ∧ bs = as ++ cs := by
  cases s with
  | error e => simp [prepend]
  | ok p =>
    obtain ⟨cs, r⟩ := p
    simp only [prepend, Except.ok.injEq, Prod.mk.injEq]
    constructor
    · rintro ⟨h, rfl⟩
      exact ⟨cs, ⟨rfl, rfl⟩, h.symm⟩
    · rintro ⟨ds, ⟨rfl, rfl⟩, rfl⟩
      exact ⟨rfl, rfl⟩

end Scan

/-! ## Separators -/

/-- The characters that end an unquoted word. -/
def isSeparator (c : Char) : Bool := c == ' ' || c == '\t' || c == '\n' || c == '\r'

/-! ## References -/

/-- What a `$` before `rest` denotes, where it opens no string: a reference, or itself. -/
def dollar (rest : Text) : Except Fault (Atom × Text) :=
  match rest with
  | [] => .ok (.char '$', [])
  | c :: inner =>
    if c = '{' then
      match Text.splitFirst (· == '}') inner with
      | none => .error ⟨'$' :: rest, .unterminatedExpansion⟩
      | some (name, after) =>
        if Text.isName name then .ok (.reference ⟨name, true⟩, after)
        else .error ⟨'$' :: rest, .unsupportedExpansion name⟩
    else if Text.isNameStart c then
      .ok (.reference ⟨rest.takeWhile Text.isNameChar, false⟩, rest.dropWhile Text.isNameChar)
    else .ok (.char '$', rest)

/-! ## Escape sequences of `$'...'` strings -/

/-- The longest run of at most `limit` digits, as their values, and what follows it. -/
def digitRun (value? : Char → Option Nat) : Nat → Text → List Nat × Text
  | 0, rest => ([], rest)
  | _ + 1, [] => ([], [])
  | limit + 1, c :: rest =>
    match value? c with
    | none => ([], c :: rest)
    | some d =>
      let (ds, after) := digitRun value? limit rest
      (d :: ds, after)

/-- The number with the given digits, the most significant first. -/
def ofDigits (base : Nat) (digits : List Nat) : Nat := digits.foldl (fun n d => n * base + d) 0

/-- The character of a code point, if it has one. -/
def scalar? (n : Nat) : Option Char := if n.isValidChar then some (Char.ofNat n) else none

/-- The character that an escape of one letter denotes. -/
def letterEscape? : Char → Option Char
  | 'n' => some '\n'
  | 't' => some '\t'
  | 'r' => some '\r'
  | 'a' => some '\x07'
  | 'b' => some '\x08'
  | 'e' => some '\x1b'
  | 'E' => some '\x1b'
  | 'f' => some '\x0c'
  | 'v' => some '\x0b'
  | '\\' => some '\\'
  | '\'' => some '\''
  | '"' => some '"'
  | '?' => some '?'
  | _ => none

/-- How many hexadecimal digits may follow an escape letter. -/
def hexEscapeLimit? : Char → Option Nat
  | 'x' => some 2
  | 'u' => some 4
  | 'U' => some 8
  | _ => none

/-- A character given by its code point, in at most `limit` digits. -/
def numericEscape (opening : Text) (value? : Char → Option Nat) (base limit : Nat) (rest : Text) :
    Except Fault (Text × Text) :=
  match digitRun value? limit rest with
  | ([], _) => .error ⟨opening, .invalidEscape⟩
  | (digits, after) =>
    match scalar? (ofDigits base digits) with
    | some c => .ok ([c], after)
    | none => .error ⟨opening, .invalidEscape⟩

/-- What a backslash before the given input denotes in a `$'...'` string that starts at
`opening`. -/
def ansiEscape (opening : Text) : Text → Except Fault (Text × Text)
  | [] => .error ⟨opening, .unterminatedAnsiString⟩
  | c :: rest =>
    match letterEscape? c with
    | some d => .ok ([d], rest)
    | none =>
      match hexEscapeLimit? c with
      | some limit => numericEscape opening Text.hexValue? 16 limit rest
      | none =>
        match Text.octalValue? c with
        | some _ => numericEscape opening Text.octalValue? 8 3 (c :: rest)
        | none => .ok (['\\', c], rest)

/-! ## No fragment lengthens the input -/

/-- A reference does not lengthen the input, even where it is none and takes nothing. -/
theorem length_dollar_le {rest after : Text} {a : Atom} (h : dollar rest = .ok (a, after)) :
    after.length ≤ rest.length := by
  unfold dollar at h
  split at h
  · simp_all
  · split at h
    · split at h
      · simp at h
      · rename_i hs
        have := Text.length_splitFirst_lt hs
        split at h
        · simp only [Except.ok.injEq, Prod.mk.injEq] at h
          simp only [← h.2, List.length_cons]
          omega
        · simp at h
    · split at h
      · simp only [Except.ok.injEq, Prod.mk.injEq] at h
        rw [← h.2]
        exact Text.length_dropWhile_le ..
      · simp only [Except.ok.injEq, Prod.mk.injEq] at h
        simp [← h.2]

theorem length_digitRun_le (value? : Char → Option Nat) (limit : Nat) (rest : Text) :
    (digitRun value? limit rest).2.length ≤ rest.length := by
  fun_induction digitRun value? limit rest with
  | case1 => simp
  | case2 => simp
  | case3 => simp
  | case4 _ _ _ _ _ _ _ hr ih =>
    simp only [hr] at ih
    simp only [List.length_cons]
    omega

theorem length_numericEscape_le {opening rest cs after : Text} {value? : Char → Option Nat}
    {base limit : Nat} (h : numericEscape opening value? base limit rest = .ok (cs, after)) :
    after.length ≤ rest.length := by
  have hl := length_digitRun_le value? limit rest
  unfold numericEscape at h
  split at h
  · simp at h
  · rename_i hr
    rw [hr] at hl
    split at h
    · simp only [Except.ok.injEq, Prod.mk.injEq] at h
      simpa [← h.2] using hl
    · simp at h

theorem length_ansiEscape_le {opening rest cs after : Text}
    (h : ansiEscape opening rest = .ok (cs, after)) : after.length ≤ rest.length := by
  unfold ansiEscape at h
  split at h
  · simp at h
  · rename_i c tail
    split at h
    · simp only [Except.ok.injEq, Prod.mk.injEq] at h
      simp [← h.2]
    · split at h
      · have := length_numericEscape_le h
        simp only [List.length_cons]
        omega
      · split at h
        · exact length_numericEscape_le h
        · simp only [Except.ok.injEq, Prod.mk.injEq] at h
          simp [← h.2]

/-! ## Quoted strings -/

/-- The contents of a `'...'` string after its opening quote. -/
def singleQuoted (rest : Text) : Scan :=
  match Text.splitFirst (· == '\'') rest with
  | some (inside, after) => .ok (inside.map .char, after)
  | none => .error ⟨'\'' :: rest, .unterminatedSingleQuote⟩

/-- The characters that a backslash escapes between double quotes. -/
def isDoubleQuoteEscape (c : Char) : Bool := c == '"' || c == '\\' || c == '$' || c == '\x60'

/-- The contents of a `"..."` string after the quote at which `opening` begins. -/
def doubleQuoted (opening : Text) : Text → Scan
  | [] => .error ⟨opening, .unterminatedDoubleQuote⟩
  | '"' :: rest => .ok ([], rest)
  | '\\' :: '\n' :: rest => doubleQuoted opening rest
  | '\\' :: '\r' :: '\n' :: rest => doubleQuoted opening rest
  | '\\' :: c :: rest =>
    if isDoubleQuoteEscape c then (doubleQuoted opening rest).prepend [.char c]
    else (doubleQuoted opening (c :: rest)).prepend [.char '\\']
  | ['\\'] => .error ⟨opening, .unterminatedDoubleQuote⟩
  | '$' :: rest =>
    match _h : dollar rest with
    | .ok (a, after) => (doubleQuoted opening after).prepend [a]
    | .error e => .error e
  | c :: rest => (doubleQuoted opening rest).prepend [.char c]
termination_by rest => rest.length
decreasing_by
  all_goals grind [→ length_dollar_le]

/-- The contents of a `$'...'` string after its opening quote, `opening` beginning at the
dollar. -/
def ansiQuoted (opening : Text) : Text → Scan
  | [] => .error ⟨opening, .unterminatedAnsiString⟩
  | '\'' :: rest => .ok ([], rest)
  | '\\' :: rest =>
    match _h : ansiEscape opening rest with
    | .ok (cs, after) => (ansiQuoted opening after).prepend (cs.map .char)
    | .error e => .error e
  | c :: rest => (ansiQuoted opening rest).prepend [.char c]
termination_by rest => rest.length
decreasing_by
  all_goals grind [→ length_ansiEscape_le]

/-! ## Quoted strings shorten the input -/

/-- The quote that ends a string is taken off the input. -/
theorem length_singleQuoted_lt {rest after : Text} {as : List Atom}
    (h : singleQuoted rest = .ok (as, after)) : after.length < rest.length := by
  unfold singleQuoted at h
  split at h
  · rename_i hs
    simp only [Except.ok.injEq, Prod.mk.injEq] at h
    rw [← h.2]
    exact Text.length_splitFirst_lt hs
  · simp at h

theorem length_doubleQuoted_lt {opening rest after : Text} {as : List Atom}
    (h : doubleQuoted opening rest = .ok (as, after)) : after.length < rest.length := by
  fun_induction doubleQuoted opening rest generalizing as with
  | case1 => simp at h
  | case2 rest => simp_all
  | case3 rest ih => have := ih h; simp only [List.length_cons]; omega
  | case4 rest ih => have := ih h; simp only [List.length_cons]; omega
  | case5 c rest _ _ _ ih =>
    obtain ⟨cs, hs, -⟩ := Scan.prepend_eq_ok.1 h
    have := ih hs
    simp only [List.length_cons]; omega
  | case6 c rest _ _ _ ih =>
    obtain ⟨cs, hs, -⟩ := Scan.prepend_eq_ok.1 h
    have := ih hs
    simp only [List.length_cons] at this ⊢; omega
  | case7 => simp at h
  | case8 rest a after' hd ih =>
    obtain ⟨cs, hs, -⟩ := Scan.prepend_eq_ok.1 h
    have := ih hs
    have := length_dollar_le hd
    simp only [List.length_cons]; omega
  | case9 => simp at h
  | case10 c rest _ _ _ _ _ _ ih =>
    obtain ⟨cs, hs, -⟩ := Scan.prepend_eq_ok.1 h
    have := ih hs
    simp only [List.length_cons]; omega

theorem length_ansiQuoted_lt {opening rest after : Text} {as : List Atom}
    (h : ansiQuoted opening rest = .ok (as, after)) : after.length < rest.length := by
  fun_induction ansiQuoted opening rest generalizing as with
  | case1 => simp at h
  | case2 rest => simp_all
  | case3 rest cs after' he ih =>
    obtain ⟨ds, hs, -⟩ := Scan.prepend_eq_ok.1 h
    have := ih hs
    have := length_ansiEscape_le he
    simp only [List.length_cons]; omega
  | case4 => simp at h
  | case5 c rest _ _ ih =>
    obtain ⟨cs, hs, -⟩ := Scan.prepend_eq_ok.1 h
    have := ih hs
    simp only [List.length_cons]; omega

end Shell
end CurlScribe
