import CurlScribe.Shell.Fragment

/-!
# Tokens

A command is a row of words with blanks between them. Blanks are separators, line continuations and
comments, which begin at `#` where a word could start. A token is a word without its quotes together
with the bytes of the command that it was read from.

The stream yields one token at a time and ends at the first fault; `tokenize` is the whole stream.
-/

namespace CurlScribe
namespace Shell

/-! ## Words and blanks -/

/-- The rest of the word that the input begins with, up to a separator or the end. -/
def scanWord : Text → Scan
  | [] => .ok ([], [])
  | '\\' :: '\n' :: rest => scanWord rest
  | '\\' :: '\r' :: '\n' :: rest => scanWord rest
  | '\\' :: c :: rest => (scanWord rest).prepend [.char c]
  | ['\\'] => .error ⟨['\\'], .danglingBackslash⟩
  | '\'' :: rest =>
    match _h : singleQuoted rest with
    | .ok (as, after) => (scanWord after).prepend as
    | .error e => .error e
  | '"' :: rest =>
    match _h : doubleQuoted ('"' :: rest) rest with
    | .ok (as, after) => (scanWord after).prepend as
    | .error e => .error e
  | '$' :: '\'' :: rest =>
    match _h : ansiQuoted ('$' :: '\'' :: rest) rest with
    | .ok (as, after) => (scanWord after).prepend as
    | .error e => .error e
  | '$' :: '"' :: rest =>
    match _h : doubleQuoted ('"' :: rest) rest with
    | .ok (as, after) => (scanWord after).prepend as
    | .error e => .error e
  | '$' :: rest =>
    match _h : dollar rest with
    | .ok (a, after) => (scanWord after).prepend [a]
    | .error e => .error e
  | c :: rest => if isSeparator c then .ok ([], c :: rest) else (scanWord rest).prepend [.char c]
termination_by input => input.length
decreasing_by
  all_goals
    grind [→ length_singleQuoted_lt, → length_doubleQuoted_lt, → length_ansiQuoted_lt,
      → length_dollar_le]

/-- The input from the first character that is not in a blank; `comment` tells whether the input
begins inside a comment. -/
def skipBlank : Bool → Text → Text
  | _, [] => []
  | true, c :: rest => skipBlank (c != '\n') rest
  | false, '\\' :: '\n' :: rest => skipBlank false rest
  | false, '\\' :: '\r' :: '\n' :: rest => skipBlank false rest
  | false, '#' :: rest => skipBlank true rest
  | false, c :: rest => if isSeparator c then skipBlank false rest else c :: rest

/-- Is the input at its end or at a separator? -/
def atWordEnd : Text → Bool
  | [] => true
  | c :: _ => isSeparator c

/-! ## The scan moves on -/

/-- Behind a character and what a fragment takes, a scan ends before the input does, whether it goes
on or stops there. -/
theorem length_lt_of_behind {after next rest : Text} {p : Prop} (c : Char)
    (hnext : next.length ≤ rest.length) (h : after.length < next.length ∨ after = next ∧ p) :
    after.length < (c :: rest).length := by
  rw [List.length_cons]
  rcases h with h | ⟨rfl, -⟩
  · omega
  · omega

/-- A word that is scanned either takes something from the input or is at its end already. -/
theorem scanWord_progress {input after : Text} {as : List Atom}
    (h : scanWord input = .ok (as, after)) :
    after.length < input.length ∨ (after = input ∧ atWordEnd input = true) := by
  fun_induction scanWord input generalizing as with
  | case1 => simp_all [atWordEnd]
  | case2 rest ih => exact .inl (length_lt_of_behind _ (Nat.le_succ _) (ih h))
  | case3 rest ih =>
    exact .inl (length_lt_of_behind _ (Nat.le_add_right _ 2) (ih h))
  | case16 c rest => simp_all [atWordEnd]
  -- a fragment that fails ends the scan
  | case5 => cases h
  | case7 => cases h
  | case9 => cases h
  | case11 => cases h
  | case13 => cases h
  | case15 => cases h
  -- a fragment that is read leaves no more than the input, and the scan goes on behind it
  | case6 rest bs next hq ih =>
    obtain ⟨cs, hs, -⟩ := Scan.prepend_eq_ok.1 h
    exact .inl (length_lt_of_behind _ (Nat.le_of_lt (length_singleQuoted_lt hq)) (ih hs))
  | case8 rest bs next hq ih =>
    obtain ⟨cs, hs, -⟩ := Scan.prepend_eq_ok.1 h
    exact .inl (length_lt_of_behind _ (Nat.le_of_lt (length_doubleQuoted_lt hq)) (ih hs))
  | case10 rest bs next hq ih =>
    obtain ⟨cs, hs, -⟩ := Scan.prepend_eq_ok.1 h
    exact .inl (length_lt_of_behind _ (Nat.le_succ_of_le (Nat.le_of_lt (length_ansiQuoted_lt hq)))
      (ih hs))
  | case12 rest bs next hq ih =>
    obtain ⟨cs, hs, -⟩ := Scan.prepend_eq_ok.1 h
    exact .inl (length_lt_of_behind _ (Nat.le_succ_of_le (Nat.le_of_lt (length_doubleQuoted_lt hq)))
      (ih hs))
  | case14 rest _ _ a next hq ih =>
    obtain ⟨cs, hs, -⟩ := Scan.prepend_eq_ok.1 h
    exact .inl (length_lt_of_behind _ (length_dollar_le hq) (ih hs))
  | case4 =>
    rename_i ih
    obtain ⟨cs, hs, -⟩ := Scan.prepend_eq_ok.1 h
    exact .inl (length_lt_of_behind _ (Nat.le_succ _) (ih hs))
  | case17 =>
    rename_i ih
    obtain ⟨cs, hs, -⟩ := Scan.prepend_eq_ok.1 h
    exact .inl (length_lt_of_behind _ (Nat.le_refl _) (ih hs))

theorem length_skipBlank_le (comment : Bool) (input : Text) :
    (skipBlank comment input).length ≤ input.length := by
  fun_induction skipBlank comment input <;> simp <;> omega

/-- After a blank stands a word or the end of the input. -/
theorem atWordEnd_skipBlank {comment : Bool} {input rest : Text} {c : Char}
    (h : skipBlank comment input = c :: rest) : atWordEnd (c :: rest) = false := by
  fun_induction skipBlank comment input <;> simp_all [atWordEnd]

/-! ## Lexemes -/

/-- A word and the input from its first character on and after its last. -/
structure Lexeme where
  word : Word
  start : Text
  stop : Text
deriving DecidableEq, Repr

/-- The first word of the input, if there is one. -/
def nextLexeme (input : Text) : Option (Except Fault Lexeme) :=
  match skipBlank false input with
  | [] => none
  | start =>
    match scanWord start with
    | .ok (atoms, stop) => some (.ok ⟨Word.ofAtoms atoms, start, stop⟩)
    | .error e => some (.error e)

theorem length_nextLexeme_lt {input : Text} {l : Lexeme} (h : nextLexeme input = some (.ok l)) :
    l.stop.length < input.length := by
  unfold nextLexeme at h
  split at h
  · simp at h
  · rename_i start hne
    split at h
    · rename_i atoms stop hs
      simp only [Option.some.injEq, Except.ok.injEq] at h
      have hl := length_skipBlank_le false input
      match hb : skipBlank false input with
      | [] => exact absurd hb hne
      | c :: rest =>
        rw [hb] at hs hl
        rcases scanWord_progress hs with hlt | ⟨-, hend⟩
        · rw [← h]
          exact Nat.lt_of_lt_of_le hlt hl
        · rw [atWordEnd_skipBlank hb] at hend
          exact absurd hend (by simp)
    · simp at h

/-! ## Tokens and their stream -/

/-- A word without its quotes and the bytes `start` to `stop` that it was read from. -/
structure Token where
  word : Word
  start : Nat
  stop : Nat
deriving DecidableEq, Repr

/-- What is wrong with a command, and the byte at which the wrong construct begins. -/
structure SyntaxError where
  position : Nat
  cause : FaultCause
deriving DecidableEq, Repr

/-- A command of `size` bytes that has been read up to `input`; after a fault nothing more is
read. -/
structure TokenStream where
  size : Nat
  input : Text
  failed : Bool
deriving DecidableEq, Repr

namespace TokenStream

/-- The stream of a whole command. -/
def ofText (command : Text) : TokenStream := ⟨Text.byteSize command, command, false⟩

/-- The byte at which `rest`, an end of the command, begins. -/
def position (s : TokenStream) (rest : Text) : Nat := s.size - Text.byteSize rest

/-- The next token or the fault that ends the stream, and the stream after it. -/
def next (s : TokenStream) : Option (Except SyntaxError Token) × TokenStream :=
  if s.failed then (none, s)
  else match nextLexeme s.input with
    | none => (none, { s with input := [] })
    | some (.ok l) =>
      (some (.ok ⟨l.word, s.position l.start, s.position l.stop⟩), { s with input := l.stop })
    | some (.error e) => (some (.error ⟨s.position e.input, e.cause⟩), { s with failed := true })

end TokenStream

/-- All lexemes of an input, and the fault that ends them if there is one. -/
def lexemes (input : Text) : List Lexeme × Option Fault :=
  match _h : nextLexeme input with
  | none => ([], none)
  | some (.error e) => ([], some e)
  | some (.ok l) =>
    let (others, fault) := lexemes l.stop
    (l :: others, fault)
termination_by input.length
decreasing_by exact length_nextLexeme_lt _h

/-- All tokens of a command, and the fault that ends them if there is one. -/
def tokenStream (command : Text) : List Token × Option SyntaxError :=
  let s := TokenStream.ofText command
  let (found, fault) := lexemes command
  (found.map fun l => ⟨l.word, s.position l.start, s.position l.stop⟩,
    fault.map fun e => ⟨s.position e.input, e.cause⟩)

/-- The tokens of a command, if all of it can be read. -/
def tokenize (command : Text) : Except SyntaxError (List Token) :=
  match tokenStream command with
  | (tokens, none) => .ok tokens
  | (_, some e) => .error e

end Shell
end CurlScribe
