import CurlScribe.Proofs.Shell.Positions

/-!
# Commands one after the other

A line feed between two inputs keeps them apart: where the first ends, nothing is open that the line
feed could become a part of, unless the first ends in a carriage return, which may be escaped. So
the tokens of both together are those of the first and then those of the second
(`tokenStream_append_lineFeed`).
-/

namespace CurlScribe
namespace Shell

open Grammar

variable {a : Text} (b : Text)

/-! ## Lexemes -/

/-- The lexeme in an input that goes on with `more`. -/
def Lexeme.before (l : Lexeme) (more : Text) : Lexeme := ⟨l.word, l.start ++ more, l.stop ++ more⟩

theorem nextLexeme_append_of_none (h : nextLexeme a = none) :
    nextLexeme (a ++ '\n' :: b) = nextLexeme b :=
  nextLexeme_eq_of_blanks (blanks_append_lineFeed (nextLexeme_eq_none_iff.1 h) rfl b)

/-- A line feed and more may follow a word in the place of the end of the input. -/
theorem mayFollow_lineFeed {front rest : Text} (h : (front ++ rest).getLast? ≠ some '\r') :
    MayFollow front rest (rest ++ '\n' :: b) := by
  cases rest with
  | nil =>
    rw [List.append_nil] at h
    refine ⟨fun c hc => .inl ?_, fun hlast => absurd hlast h⟩
    cases hc
    decide
  | cons c rest => exact ⟨fun d hd => .inr hd, fun _ hlf => hlf⟩

theorem nextLexeme_append_of_some {l : Lexeme} (h : nextLexeme a = some (.ok l))
    (ha : a.getLast? ≠ some '\r') :
    nextLexeme (a ++ '\n' :: b) = some (.ok (l.before ('\n' :: b))) := by
  obtain ⟨gap, front, hlocated⟩ := exists_located h
  have hfollow : MayFollow front l.stop (l.stop ++ '\n' :: b) := by
    refine mayFollow_lineFeed b fun hlast => ha ?_
    rw [hlocated.input_eq, hlocated.start_eq, List.getLast?_append, hlast, Option.some_or]
  have hinput : a ++ '\n' :: b = gap ++ (front ++ (l.stop ++ '\n' :: b)) := by
    rw [hlocated.input_eq, hlocated.start_eq]
    simp
  rw [hinput, nextLexeme_eq_of_blanks (hlocated.blanks _), hlocated.reading _ hfollow,
    Lexeme.before, hlocated.start_eq, List.append_assoc]

/-- The rest of an input behind its first word ends as the input does. -/
theorem getLast?_stop_ne {l : Lexeme} (h : nextLexeme a = some (.ok l))
    (ha : a.getLast? ≠ some '\r') : l.stop.getLast? ≠ some '\r' := by
  intro hlast
  obtain ⟨front, hfront⟩ := (suffix_of_nextLexeme h).2
  rw [← hfront, List.getLast?_append, hlast] at ha
  exact ha rfl

/-- By recursion on the first input: each of its words is read as before, and when there is none
left, the line feed is skipped. -/
theorem lexemes_append_lineFeed {ls : List Lexeme} (h : lexemes a = (ls, none))
    (ha : a.getLast? ≠ some '\r') :
    lexemes (a ++ '\n' :: b) =
      (ls.map (·.before ('\n' :: b)) ++ (lexemes b).1, (lexemes b).2) := by
  fun_induction lexemes a generalizing ls with
  | case1 a hnone =>
    obtain ⟨rfl, -⟩ := Prod.mk.inj h
    rw [lexemes_eq, nextLexeme_append_of_none b hnone, ← lexemes_eq]
    rfl
  | case2 => cases (Prod.mk.inj h).2
  | case3 a l hl others fault ho ih =>
    obtain ⟨rfl, rfl⟩ := Prod.mk.inj h
    rw [lexemes_eq, nextLexeme_append_of_some b hl ha]
    show (l.before _ :: (lexemes (l.stop ++ '\n' :: b)).1, (lexemes (l.stop ++ '\n' :: b)).2) = _
    rw [ih ho (getLast?_stop_ne hl ha)]
    rfl

/-! ## Tokens -/

/-- The token when `n` bytes more are in front of it. -/
def Token.shift (n : Nat) (t : Token) : Token := ⟨t.word, t.start + n, t.stop + n⟩

/-- The error when `n` bytes more are in front of the place that it names. -/
def SyntaxError.shift (n : Nat) (e : SyntaxError) : SyntaxError := ⟨e.position + n, e.cause⟩

/-- What comes behind a command does not move what is in it. -/
theorem position_before (command rest more : Text) :
    (TokenStream.ofText (command ++ more)).position (rest ++ more) =
      (TokenStream.ofText command).position rest := by
  show Text.byteSize (command ++ more) - Text.byteSize (rest ++ more) = _
  rw [Text.byteSize_append, Text.byteSize_append, Nat.add_sub_add_right]
  rfl

/-- What comes before a command moves what is in it by its bytes. -/
theorem position_behind (more : Text) {command rest : Text} (h : rest <:+ command) :
    (TokenStream.ofText (more ++ command)).position rest =
      (TokenStream.ofText command).position rest + Text.byteSize more := by
  obtain ⟨front, rfl⟩ := h
  rw [← List.append_assoc, position_append, position_append, Text.byteSize_append, Nat.add_comm]

theorem token_before (l : Lexeme) (command more : Text) :
    (l.before more).token (command ++ more) = l.token command := by
  unfold Lexeme.token Lexeme.before
  rw [position_before, position_before]

theorem token_behind (more : Text) {l : Lexeme} {command : Text} (hstart : l.start <:+ command)
    (hstop : l.stop <:+ command) :
    l.token (more ++ command) = (l.token command).shift (Text.byteSize more) := by
  unfold Lexeme.token Token.shift
  rw [position_behind more hstart, position_behind more hstop]

theorem located_behind (more : Text) {e : Fault} {command : Text} (h : e.input <:+ command) :
    e.located (more ++ command) = (e.located command).shift (Text.byteSize more) := by
  unfold Fault.located SyntaxError.shift
  rw [position_behind more h]

/-- An input that can be read and another one behind it, on a line of its own, give the tokens of
the first and then the tokens and the error of the second, with their places counted from the start
of the whole. -/
theorem tokenStream_append_lineFeed {tokens : List Token} (h : tokenize a = .ok tokens)
    (ha : a.getLast? ≠ some '\r') :
    tokenStream (a ++ '\n' :: b) =
      (tokens ++ (tokenStream b).1.map (Token.shift (Text.byteSize a + 1)),
        (tokenStream b).2.map (SyntaxError.shift (Text.byteSize a + 1))) := by
  obtain ⟨ls, hls, rfl⟩ := tokenize_eq_ok_iff.1 h
  obtain ⟨hlexemes, hfault⟩ := suffix_of_lexemes b
  have hsize : Text.byteSize (a ++ ['\n']) = Text.byteSize a + 1 := Text.byteSize_append a _
  -- the lexemes of both inputs, located in the whole
  have hfirst (l : Lexeme) : (l.before ('\n' :: b)).token (a ++ '\n' :: b) = l.token a :=
    token_before l a _
  have hsecond : ∀ l ∈ (lexemes b).1, l.token (a ++ '\n' :: b) =
      (l.token b).shift (Text.byteSize a + 1) := by
    intro l hl
    rw [List.append_cons, token_behind _ (hlexemes l hl).1 (hlexemes l hl).2, hsize]
  have herror : ∀ e, (lexemes b).2 = some e → e.located (a ++ '\n' :: b) =
      (e.located b).shift (Text.byteSize a + 1) := by
    intro e he
    rw [List.append_cons, located_behind _ (hfault e he), hsize]
  rw [tokenStream_eq, tokenStream_eq, lexemes_append_lineFeed b hls ha]
  refine Prod.ext ?_ ?_
  · show (ls.map _ ++ (lexemes b).1).map _ = ls.map _ ++ ((lexemes b).1.map _).map _
    rw [List.map_append, List.map_map, List.map_map, List.map_congr_left hsecond]
    exact congrArg (· ++ _) (List.map_congr_left fun l _ => hfirst l)
  · show (lexemes b).2.map _ = ((lexemes b).2.map _).map _
    rw [Option.map_map]
    exact Option.map_congr herror

/-- A dollar at the end of a word and a quote in a comment at the end of the first line; a quote
that is not closed on the second. -/
theorem tokenStream_append_lineFeed_comment :
    let a := "a$ # \"".toList
    let b := "é '".toList
    let first : Token := ⟨Word.ofString "a$", 0, 2⟩
    tokenize a = .ok [first] ∧ a.getLast? ≠ some '\r' ∧
      tokenStream (a ++ '\n' :: b) =
        ([first, ⟨Word.ofString "é", 7, 9⟩], some ⟨10, .unterminatedSingleQuote⟩) := by
  intro a b first
  have hread : tokenize a = .ok [first] := by decide +kernel
  have hlast : a.getLast? ≠ some '\r' := by decide
  have hsecond :
      tokenStream b = ([⟨Word.ofString "é", 0, 2⟩], some ⟨3, .unterminatedSingleQuote⟩) := by
    decide +kernel
  refine ⟨hread, hlast, ?_⟩
  rw [tokenStream_append_lineFeed b hread hlast, hsecond]
  decide +kernel

end Shell
end CurlScribe
