import CurlScribe.Proofs.Shell.Positions

/-!
# Spans

Tokens and errors name places of the command by numbers of bytes. `Placed` says what these places
are worth: spans are texts of the command in order, each of which alone is read as its word; what
lies between them is blank; and an error points behind them, at a character that can be wrong. One
more token in front keeps all of this (`Placed.cons`), so the stream of a command has it
(`placed_tokenStream`).
-/

namespace CurlScribe
namespace Shell

open Grammar

/-! ## Places -/

/-- The text from byte `n` of the command on is `rest`, and no character straddles that byte. -/
def StandsAt (command : Text) (n : Nat) (rest : Text) : Prop :=
  ∃ front, command = front ++ rest ∧ n = Text.byteSize front

/-- There are only blanks from byte `m` to byte `n`. -/
def OnlyBlanks (command : Text) (m n : Nat) : Prop :=
  ∃ input rest, StandsAt command m input ∧ StandsAt command n rest ∧ Blanks input rest

/-- The span of a token is a text of the command that is read as one token when it stands alone,
with the same word and all of it as the span. -/
def IsExact (command : Text) (t : Token) : Prop :=
  ∃ slice rest, StandsAt command t.start (slice ++ rest) ∧ StandsAt command t.stop rest ∧
    tokenStream slice = ([⟨t.word, 0, Text.byteSize slice⟩], none)

/-- The byte at which the last token ends, and `m` if there is none. -/
def endOf (m : Nat) : List Token → Nat
  | [] => m
  | t :: tokens => endOf t.stop tokens

/-- The tokens of a command from byte `m` on, and the error that may end them, are where their
places say. -/
structure Placed (command : Text) (m : Nat) (tokens : List Token) (error : Option SyntaxError) :
    Prop where
  /-- There are at most as many tokens as bytes. -/
  few : m + tokens.length ≤ Text.byteSize command
  nonempty : ∀ t ∈ tokens, t.start < t.stop
  inside : ∀ t ∈ tokens, m ≤ t.start ∧ t.stop ≤ Text.byteSize command
  ordered : tokens.Pairwise fun s t => s.stop ≤ t.start
  isExact : ∀ t ∈ tokens, IsExact command t
  blanks : ∀ before t after, tokens = before ++ t :: after →
    OnlyBlanks command (endOf m before) t.start
  lastBlanks : error = none → OnlyBlanks command (endOf m tokens) (Text.byteSize command)
  /-- An error is not before the end of the last token and points at a character of the command. -/
  blamed : ∀ e, error = some e → endOf m tokens ≤ e.position ∧
    ∃ c ∈ openings, ∃ rest, StandsAt command e.position (c :: rest)

namespace StandsAt

variable {command front rest : Text} {n : Nat}

theorem start (command : Text) : StandsAt command 0 command := ⟨[], rfl, rfl⟩

theorem stop (command : Text) : StandsAt command (Text.byteSize command) [] :=
  ⟨command, (List.append_nil _).symm, rfl⟩

theorem behind (h : StandsAt command n (front ++ rest)) :
    StandsAt command (n + Text.byteSize front) rest := by
  obtain ⟨before, rfl, rfl⟩ := h
  exact ⟨before ++ front, (List.append_assoc ..).symm, (Text.byteSize_append ..).symm⟩

theorem position_eq (h : StandsAt command n rest) :
    (TokenStream.ofText command).position rest = n := by
  obtain ⟨front, rfl, rfl⟩ := h
  exact position_append front rest

theorem add_byteSize (h : StandsAt command n rest) :
    n + Text.byteSize rest = Text.byteSize command := by
  obtain ⟨front, rfl, rfl⟩ := h
  exact (Text.byteSize_append front rest).symm

end StandsAt

/-! ## One token -/

/-- The text of a word alone is one token. -/
theorem tokenStream_of_located {input gap front : Text} {l : Lexeme}
    (h : Located input l gap front) :
    tokenStream front = ([⟨l.word, 0, Text.byteSize front⟩], none) := by
  have hread := h.reading [] (.nil _ _)
  rw [List.append_nil] at hread
  have hlexemes : lexemes front = ([⟨l.word, front, []⟩], none) := by
    rw [lexemes_eq, hread]
    show (_ :: (lexemes []).1, (lexemes []).2) = _
    rw [lexemes_eq]
    rfl
  rw [tokenStream_eq, hlexemes]
  have hstart := (StandsAt.start front).position_eq
  have hstop := (StandsAt.stop front).position_eq
  show ([Token.mk l.word _ _], none) = _
  rw [hstart, hstop]

/-- No tokens, before blanks that end the command or before an error. -/
theorem Placed.nil {command : Text} {m : Nat} {error : Option SyntaxError}
    (hm : m ≤ Text.byteSize command)
    (hblanks : error = none → OnlyBlanks command m (Text.byteSize command))
    (hblamed : ∀ e, error = some e → m ≤ e.position ∧
      ∃ c ∈ openings, ∃ rest, StandsAt command e.position (c :: rest)) :
    Placed command m [] error where
  few := hm
  nonempty := List.forall_mem_nil _
  inside := List.forall_mem_nil _
  ordered := .nil
  isExact := List.forall_mem_nil _
  blanks := by simp
  lastBlanks := hblanks
  blamed := hblamed

/-- A token in front of others that begin where it ends. -/
theorem Placed.cons {command : Text} {m : Nat} {t : Token} {tokens : List Token}
    {error : Option SyntaxError} (hm : m ≤ t.start) (ht : t.start < t.stop)
    (hexact : IsExact command t) (hblanks : OnlyBlanks command m t.start)
    (h : Placed command t.stop tokens error) : Placed command m (t :: tokens) error where
  few := by
    have hfew := h.few
    rw [List.length_cons]
    omega
  nonempty := List.forall_mem_cons.2 ⟨ht, h.nonempty⟩
  inside := by
    have hfew := h.few
    refine List.forall_mem_cons.2 ⟨⟨hm, by omega⟩, fun s hs => ?_⟩
    obtain ⟨hstart, hstop⟩ := h.inside s hs
    exact ⟨by omega, hstop⟩
  ordered := List.pairwise_cons.2 ⟨fun s hs => (h.inside s hs).1, h.ordered⟩
  isExact := List.forall_mem_cons.2 ⟨hexact, h.isExact⟩
  blanks := by
    intro before s after hs
    cases before with
    | nil =>
      obtain ⟨rfl, -⟩ := List.cons.inj hs
      exact hblanks
    | cons first before =>
      obtain ⟨rfl, htail⟩ := List.cons.inj hs
      exact h.blanks before s after htail
  lastBlanks := h.lastBlanks
  blamed := h.blamed

/-! ## The whole stream -/

/-- Tokens and fault of what follows byte `m`. -/
theorem placed_lexemes {command input : Text} {m : Nat} (h : StandsAt command m input) :
    Placed command m ((lexemes input).1.map (Lexeme.token command))
      ((lexemes input).2.map (Fault.located command)) := by
  have hsize := h.add_byteSize
  -- by recursion on the lexemes: at the end, at a fault, and at one more lexeme
  induction input using lexemes.induct generalizing m with
  | case1 input hn =>
    rw [lexemes_eq, hn]
    have hblanks : OnlyBlanks command m (Text.byteSize command) :=
      ⟨input, [], h, .stop command, nextLexeme_eq_none_iff.1 hn⟩
    exact .nil (by omega) (fun _ => hblanks) (by simp)
  | case2 input e he =>
    rw [lexemes_eq, he]
    obtain ⟨⟨front, rfl⟩, c, hc, hhead⟩ := blames_nextLexeme he
    have hplace := h.behind
    obtain ⟨rest, hrest⟩ := List.head?_eq_some_iff.1 hhead
    refine .nil (by omega) (by simp) ?_
    rintro e' ⟨⟩
    show m ≤ (TokenStream.ofText command).position e.input ∧ ∃ c ∈ openings, ∃ rest,
      StandsAt command ((TokenStream.ofText command).position e.input) (c :: rest)
    rw [hplace.position_eq]
    refine ⟨Nat.le_add_right _ _, c, hc, rest, ?_⟩
    rw [← hrest]
    exact hplace
  | case3 input l hl _ _ _ ih =>
    rw [lexemes_eq, hl]
    obtain ⟨gap, front, hlocated⟩ := exists_located hl
    -- the lexeme begins behind the gap and ends behind what it takes
    have hstart : StandsAt command (m + Text.byteSize gap) l.start := by
      rw [hlocated.input_eq] at h
      exact h.behind
    have hstop : StandsAt command (m + Text.byteSize gap + Text.byteSize front) l.stop := by
      rw [hlocated.start_eq] at hstart
      exact hstart.behind
    have htoken : l.token command = ⟨l.word, m + Text.byteSize gap,
        m + Text.byteSize gap + Text.byteSize front⟩ := by
      rw [Lexeme.token, hstart.position_eq, hstop.position_eq]
    rw [List.map_cons, htoken]
    refine Placed.cons (Nat.le_add_right _ _)
      (Nat.lt_add_of_pos_right (Text.byteSize_pos hlocated.nonempty)) ?_ ?_
      (ih hstop hstop.add_byteSize)
    · refine ⟨front, l.stop, ?_, hstop, tokenStream_of_located hlocated⟩
      rw [← hlocated.start_eq]
      exact hstart
    · refine ⟨input, l.start, h, hstart, ?_⟩
      have hblanks := hlocated.blanks l.start
      rwa [← hlocated.input_eq] at hblanks

/-- All answers of a stream: its tokens, and the error that ends it if there is one. -/
def answersOf (stream : List Token × Option SyntaxError) : List (Except SyntaxError Token) :=
  stream.1.map .ok ++ stream.2.toList.map .error

/-- The answers to the first `n` requests for a token, as long as there are any. -/
def TokenStream.answers : Nat → TokenStream → List (Except SyntaxError Token)
  | 0, _ => []
  | n + 1, s =>
    match s.next with
    | (none, _) => []
    | (some answer, later) => answer :: answers n later

/-- After a fault there are no more answers. -/
theorem answers_of_failed (n size : Nat) (input : Text) :
    TokenStream.answers n ⟨size, input, true⟩ = [] := by
  cases n with
  | zero => rfl
  | succ n => rfl

/-- Requests for tokens are answered by the lexemes in order and the fault behind them. -/
theorem answers_eq (command : Text) (n : Nat) (input : Text) :
    TokenStream.answers n ⟨Text.byteSize command, input, false⟩ =
      (answersOf ((lexemes input).1.map (Lexeme.token command),
        (lexemes input).2.map (Fault.located command))).take n := by
  induction n generalizing input with
  | zero => rfl
  | succ n ih =>
    rw [TokenStream.answers, TokenStream.next, lexemes_eq]
    cases hl : nextLexeme input with
    | none => rfl
    | some answer =>
      cases answer with
      | error e =>
        show _ :: TokenStream.answers n ⟨_, input, true⟩ = _
        rw [answers_of_failed]
        exact (congrArg _ List.take_nil).symm
      | ok l =>
        show _ :: TokenStream.answers n ⟨_, l.stop, false⟩ = _
        rw [ih l.stop]
        rfl

/-- The stream of a command has its tokens and its error where they say, and requests for tokens
are answered by these and no more. -/
theorem placed_tokenStream (command : Text) :
    Placed command 0 (tokenStream command).1 (tokenStream command).2 ∧
      ∀ n, (TokenStream.ofText command).answers n = (answersOf (tokenStream command)).take n :=
  ⟨placed_lexemes (.start command), fun n => answers_eq command n command⟩

end Shell
end CurlScribe
