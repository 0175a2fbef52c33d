import CurlScribe.Proofs.Shell.Exactness

/-!
# What may follow a word

A reader of words looks at what follows a word: a name or a run of digits might go on, a dollar
might begin a reference, and an escaped carriage return might belong to a continuation. What it
learns there is only that nothing goes on. So a word is read alike whatever follows it, as long as
that begins with a separator or not at all (`exists_front_of_maximalWord`); a carriage return at
the end of the word must not come to stand before a line feed.
-/

namespace CurlScribe
namespace Shell

open Grammar

/-! ## What may follow -/

/-- In the place of `rest`, `other` may follow `front`. -/
structure MayFollow (front rest other : Text) : Prop where
  /-- What comes next is a separator, or what came next before. -/
  ahead : ∀ c ∈ other.head?, c ∈ separators ∨ c ∈ rest.head?
  /-- No continuation comes about at the end of `front`. -/
  noLineBreak : front.getLast? = some '\r' → other.head? = some '\n' → rest.head? = some '\n'

namespace MayFollow

variable {front more rest other : Text}

/-- The end of the input may follow any front: it stops whatever a separator stops. -/
theorem nil (front rest : Text) : MayFollow front rest [] := ⟨nofun, nofun⟩

/-- What follows a front begins with its next piece, and only where that is empty with what comes
behind it. -/
theorem behind (h : MayFollow (front ++ more) rest other) :
    MayFollow front (more ++ rest) (more ++ other) := by
  cases more with
  | nil =>
    rw [List.append_nil] at h
    exact h
  | cons c more => exact ⟨fun _ hc => .inr hc, fun _ h => h⟩

/-- Only the end of a front matters for what may follow it. -/
theorem of_append (h : MayFollow (front ++ more) rest other) : MayFollow more rest other := by
  refine ⟨h.ahead, fun hlast => h.noLineBreak ?_⟩
  rw [List.getLast?_append, hlast, Option.some_or]

theorem of_cons {c : Char} (h : MayFollow (c :: front) rest other) :
    MayFollow front rest other := by
  have happend : MayFollow ([c] ++ front) rest other := h
  exact happend.of_append

/-- What is known of the character that follows, and of separators, is known of the one that may
follow. -/
theorem forall_head {p : Char → Prop} (h : MayFollow front rest other)
    (hsep : ∀ c ∈ separators, p c) (hrest : ∀ c more, rest = c :: more → p c) :
    ∀ c more, other = c :: more → p c := by
  rintro c more rfl
  rcases h.ahead c rfl with hc | hc
  · exact hsep c hc
  · obtain ⟨tail, htail⟩ := List.head?_eq_some_iff.1 hc
    exact hrest c tail htail

/-- A continuation that begins in a front does not depend on what follows it. -/
theorem exists_continuation {c : Char} {next : Text} (h : MayFollow ('\\' :: c :: front) rest other)
    (hk : Continuation ('\\' :: c :: (front ++ other)) next) :
    ∃ next', Continuation ('\\' :: c :: (front ++ rest)) next' := by
  generalize hi : '\\' :: c :: (front ++ other) = input at hk
  cases hk with
  | lineFeed =>
    obtain ⟨rfl, -⟩ := List.cons.inj (List.cons.inj hi).2
    exact ⟨_, .lineFeed _⟩
  | carriageReturn =>
    obtain ⟨rfl, htail⟩ := List.cons.inj (List.cons.inj hi).2
    cases front with
    | cons d front =>
      obtain ⟨rfl, -⟩ := List.cons.inj htail
      exact ⟨_, .carriageReturn _⟩
    | nil =>
      have hother : other.head? = some '\n' := by
        rw [show other = _ from htail]
        rfl
      obtain ⟨tail, rfl⟩ := List.head?_eq_some_iff.1 (h.noLineBreak rfl hother)
      exact ⟨_, .carriageReturn tail⟩

end MayFollow

/-! ## Taking a front off the input -/

/-- A front is taken off the input, and would be taken off it if something else followed. -/
def Takes (R : Text → Text → Prop) (input rest : Text) : Prop :=
  ∃ front, input = front ++ rest ∧ ∀ other, MayFollow front rest other → R (front ++ other) other

namespace Takes

variable {R S T : Text → Text → Prop} {input next rest : Text}

theorem mono (h : Takes R input rest) (hT : ∀ {input rest}, R input rest → T input rest) :
    Takes T input rest := by
  obtain ⟨front, rfl, hfront⟩ := h
  exact ⟨front, rfl, fun other hother => hT (hfront other hother)⟩

/-- A character in front of what is taken. -/
theorem cons (c : Char) (h : Takes R input rest)
    (hT : ∀ {input rest}, R input rest → T (c :: input) rest) : Takes T (c :: input) rest := by
  obtain ⟨front, rfl, hfront⟩ := h
  exact ⟨c :: front, rfl, fun other hother => hT (hfront other hother.of_cons)⟩

/-- Two fronts taken one after the other. -/
theorem trans (h : Takes R input next) (h' : Takes S next rest)
    (hT : ∀ {input next rest}, R input next → S next rest → T input rest) :
    Takes T input rest := by
  obtain ⟨front, rfl, hfront⟩ := h
  obtain ⟨more, rfl, hmore⟩ := h'
  refine ⟨front ++ more, (List.append_assoc ..).symm, fun other hother => ?_⟩
  rw [List.append_assoc]
  exact hT (hfront _ hother.behind) (hmore other hother.of_append)

end Takes

/-! ## Fragments -/

theorem takes_continuation {input rest : Text} (h : Continuation input rest) :
    Takes Continuation input rest := by
  cases h with
  | lineFeed => exact ⟨['\\', '\n'], rfl, fun other _ => .lineFeed other⟩
  | carriageReturn => exact ⟨['\\', '\r', '\n'], rfl, fun other _ => .carriageReturn other⟩

/-- A reference takes its name and looks no further than one character behind it. -/
theorem takes_dollar {input rest : Text} {a : Atom} (h : Dollar input a rest) :
    Takes (Dollar · a ·) input rest := by
  cases h with
  | lone noName =>
    refine ⟨[], rfl, fun other hother => .lone (hother.forall_head ?_ noName)⟩
    exact forall_mem_separators.2 (by decide)
  | reference isVariable =>
    cases isVariable with
    | @plain name _ isName isLongest =>
      refine ⟨name, rfl, fun other hother => .reference (.plain isName ?_)⟩
      exact hother.forall_head (fun c hc => isNameChar_of_mem_separators hc) isLongest
    | @braced name _ isName =>
      refine ⟨'{' :: (name ++ ['}']), by simp, fun other _ => ?_⟩
      have hbraced := VariableName.braced other isName
      simpa using Dollar.reference hbraced

/-- Digits are taken up to one that is none. -/
theorem takes_digitRun {value? : Char → Option Nat} {limit : Nat} {input rest : Text}
    {ds : List Nat} (hsep : ∀ c ∈ separators, value? c = none)
    (h : DigitRun value? limit input ds rest) :
    Takes (DigitRun value? limit · ds ·) input rest := by
  obtain ⟨nonempty, bounded, ⟨run, rfl, hrun⟩, isLongest⟩ := h
  refine ⟨run, rfl, fun other hother => ⟨nonempty, bounded, ⟨run, rfl, hrun⟩, ?_⟩⟩
  exact isLongest.imp_right (hother.forall_head hsep)

/-- An escape takes its characters, and digits look one character further. -/
theorem takes_ansiEscape {input cs rest : Text} (h : AnsiEscape input cs rest) :
    Takes (AnsiEscape · cs ·) input rest := by
  cases h with
  | @letter c _ _ isEscape => exact ⟨[c], rfl, fun other _ => .letter other isEscape⟩
  | @hexadecimal c _ _ _ _ _ isEscape run codePoint =>
    have hrun := takes_digitRun (forall_mem_separators.2 (by decide)) run
    exact hrun.cons c fun run => .hexadecimal isEscape run codePoint
  | octal run codePoint =>
    have hrun := takes_digitRun (forall_mem_separators.2 (by decide)) run
    exact hrun.mono fun run => .octal run codePoint
  | @other c _ noLetter noHex noOctal =>
    exact ⟨[c], rfl, fun other _ => .other other noLetter noHex noOctal⟩

theorem doubleQuoted_front_ne_nil {front rest : Text} {as : List Atom}
    (h : DoubleQuoted (front ++ rest) as rest) : front ≠ [] := by
  rintro rfl
  have hlength := length_doubleQuoted_lt (doubleQuoted_complete [] h)
  exact absurd hlength (Nat.lt_irrefl _)

theorem takes_doubleQuoted {input rest : Text} {as : List Atom} (h : DoubleQuoted input as rest) :
    Takes (DoubleQuoted · as ·) input rest := by
  induction h with
  | close => exact ⟨['"'], rfl, fun other _ => .close other⟩
  | @escape c _ _ as isEscape _ ih =>
    have hescaped : Takes (fun i r => DoubleQuoted ('\\' :: i) (.char c :: as) r) _ _ :=
      ih.cons c (.escape isEscape)
    exact hescaped.cons '\\' id
  | continuation isContinuation _ ih =>
    exact (takes_continuation isContinuation).trans ih .continuation
  | @backslash c input rest as noEscape noContinuation tail ih =>
    obtain ⟨front, hinput, hfront⟩ := ih
    rw [hinput] at tail
    obtain ⟨d, front, rfl⟩ := List.exists_cons_of_ne_nil (doubleQuoted_front_ne_nil tail)
    obtain ⟨rfl, rfl⟩ := List.cons.inj hinput
    refine ⟨'\\' :: c :: front, rfl, fun other hother => ?_⟩
    refine .backslash noEscape (fun next hk => ?_) (hfront other hother.of_cons)
    obtain ⟨next', hk'⟩ := hother.exists_continuation hk
    exact noContinuation next' hk'
  | @dollar a _ _ _ as isDollar _ ih =>
    have hdollar : Takes (fun i r => DoubleQuoted ('$' :: i) (a :: as) r) _ _ :=
      (takes_dollar isDollar).trans ih .dollar
    exact hdollar.cons '$' id
  | @plain c _ _ _ isPlain _ ih => exact ih.cons c (.plain isPlain)

theorem takes_ansiQuoted {input rest : Text} {as : List Atom} (h : AnsiQuoted input as rest) :
    Takes (AnsiQuoted · as ·) input rest := by
  induction h with
  | close => exact ⟨['\''], rfl, fun other _ => .close other⟩
  | @escape _ cs _ _ as isEscape _ ih =>
    have hescaped : Takes (fun i r => AnsiQuoted ('\\' :: i) (cs.map .char ++ as) r) _ _ :=
      (takes_ansiEscape isEscape).trans ih .escape
    exact hescaped.cons '\\' id
  | @plain c _ _ _ isPlain _ ih => exact ih.cons c (.plain isPlain)

/-- A fragment takes its characters, whatever follows instead of the rest. -/
theorem takes_fragment {input rest : Text} {as : List Atom} (h : Fragment input as rest) :
    Takes (Fragment · as ·) input rest := by
  cases h with
  | @plain c _ isPlain => exact ⟨[c], rfl, fun other _ => .plain other isPlain⟩
  | @escaped c _ noContinuation =>
    refine ⟨['\\', c], rfl, fun other hother => .escaped fun next hk => ?_⟩
    have hcontinuation : Continuation ('\\' :: c :: ([] ++ other)) next := hk
    obtain ⟨next', hk'⟩ := hother.exists_continuation hcontinuation
    exact noContinuation next' hk'
  | continuation isContinuation => exact (takes_continuation isContinuation).mono .continuation
  | @singleQuoted inside _ noQuote =>
    refine ⟨'\'' :: (inside ++ ['\'']), by simp, fun other _ => ?_⟩
    have hquoted := Fragment.singleQuoted other noQuote
    simpa using hquoted
  | doubleQuoted isQuoted => exact (takes_doubleQuoted isQuoted).cons '"' .doubleQuoted
  | localized isQuoted =>
    have hquoted : Takes (fun i r => Fragment ('$' :: i) as r) _ _ :=
      (takes_doubleQuoted isQuoted).cons '"' .localized
    exact hquoted.cons '$' id
  | ansiQuoted isQuoted =>
    have hquoted : Takes (fun i r => Fragment ('$' :: i) as r) _ _ :=
      (takes_ansiQuoted isQuoted).cons '\'' .ansiQuoted
    exact hquoted.cons '$' id
  | @dollar a input _ noQuote isDollar =>
    obtain ⟨front, rfl, hfront⟩ := takes_dollar isDollar
    refine ⟨'$' :: front, rfl, fun other hother => .dollar ?_ (hfront other hother.of_cons)⟩
    cases front with
    | nil => exact hother.forall_head (forall_mem_separators.2 (by decide)) noQuote
    | cons c front =>
      rintro d more hd
      obtain ⟨rfl, -⟩ := List.cons.inj hd
      exact noQuote c _ rfl

theorem takes_fragments {input rest : Text} {as : List Atom} (h : Fragments input as rest) :
    Takes (Fragments · as ·) input rest := by
  induction h with
  | nil => exact ⟨[], rfl, fun other _ => .nil other⟩
  | cons head _ ih => exact (takes_fragment head).trans ih .cons

/-! ## Words -/

/-- At least one fragment, as a word needs it. -/
def SomeFragments (input : Text) (as : List Atom) (rest : Text) : Prop :=
  ∃ bs next cs, Fragment input bs next ∧ Fragments next cs rest ∧ as = bs ++ cs

theorem takes_someFragments {input rest : Text} {as : List Atom} (h : SomeFragments input as rest) :
    Takes (SomeFragments · as ·) input rest := by
  obtain ⟨bs, next, cs, head, tail, rfl⟩ := h
  exact (takes_fragment head).trans (takes_fragments tail) fun head tail =>
    ⟨bs, _, cs, head, tail, rfl⟩

/-- No fragment is empty or a backslash alone. -/
theorem not_someFragments {input : Text} (h : input = [] ∨ input = ['\\']) (as : List Atom) :
    ¬SomeFragments input as [] := by
  rintro ⟨bs, next, cs, head, -, -⟩
  rcases h with rfl | rfl
  · cases head with
    | continuation isContinuation => cases isContinuation
  · cases head with
    | plain _ isPlain => exact isPlain (by decide)
    | continuation isContinuation => cases isContinuation

/-- A word is not empty, and is read alike whatever may follow it. -/
theorem exists_front_of_maximalWord {input rest : Text} {as : List Atom}
    (h : MaximalWord input as rest) :
    ∃ front, front ≠ [] ∧ input = front ++ rest ∧
      ∀ other, MayFollow front rest other → MaximalWord (front ++ other) as other := by
  obtain ⟨front, rfl, hfront⟩ := takes_someFragments h.fragments
  have halone : SomeFragments front as [] := by
    have hnil := hfront [] (.nil front rest)
    rwa [List.append_nil] at hnil
  have hne : front ≠ [] := fun hnil => not_someFragments (.inl hnil) as halone
  refine ⟨front, hne, rfl, fun other hother => ⟨?_, ?_, hfront other hother, ?_⟩⟩
  · obtain ⟨c, front, rfl⟩ := List.exists_cons_of_ne_nil hne
    intro more he
    exact h.noComment _ (congrArg (· :: (front ++ rest)) (List.cons.inj he).1)
  · intro next hk
    match front with
    | [] => exact hne rfl
    | [c] =>
      -- a backslash alone is no fragment, so that what may follow cannot complete a continuation
      have hc : c ≠ '\\' := fun hc => not_someFragments (.inr (by rw [hc])) as halone
      exact not_continuation_of_ne hc _ next hk
    | c :: d :: front =>
      by_cases hc : c = '\\'
      · subst hc
        obtain ⟨next', hk'⟩ := hother.exists_continuation hk
        exact h.noContinuation next' hk'
      · exact not_continuation_of_ne hc _ next hk
  · exact hother.forall_head (fun c hc => hc) h.isLongest

/-! ## Blanks -/

/-- Blanks before something are blanks before anything else. -/
theorem exists_front_of_blanks {input rest : Text} (h : Blanks input rest) (hne : rest ≠ []) :
    ∃ front, input = front ++ rest ∧ ∀ other, Blanks (front ++ other) other := by
  induction h with
  | nil => exact ⟨[], rfl, .nil⟩
  | @separator c _ _ isSeparator _ ih =>
    obtain ⟨front, rfl, hfront⟩ := ih hne
    exact ⟨c :: front, rfl, fun other => .separator isSeparator (hfront other)⟩
  | continuation isContinuation _ ih =>
    obtain ⟨front, rfl, hfront⟩ := ih hne
    cases isContinuation with
    | lineFeed =>
      exact ⟨'\\' :: '\n' :: front, rfl, fun other => .continuation (.lineFeed _) (hfront other)⟩
    | carriageReturn =>
      exact ⟨'\\' :: '\r' :: '\n' :: front, rfl,
        fun other => .continuation (.carriageReturn _) (hfront other)⟩
  | @comment inside _ _ noLineFeed _ ih =>
    obtain ⟨front, rfl, hfront⟩ := ih hne
    refine ⟨'#' :: (inside ++ '\n' :: front), by simp, fun other => ?_⟩
    have hcomment := Blanks.comment noLineFeed (hfront other)
    simpa using hcomment
  | lastComment => exact absurd rfl hne

/-- Blanks up to the end of the input are blanks with a line feed behind them, which ends a
comment. -/
theorem blanks_append_lineFeed {input rest : Text} (h : Blanks input rest) (hrest : rest = [])
    (other : Text) : Blanks (input ++ '\n' :: other) other := by
  induction h with
  | nil =>
    subst hrest
    exact .separator (by decide) (.nil other)
  | separator isSeparator _ ih => exact .separator isSeparator (ih hrest)
  | continuation isContinuation _ ih =>
    cases isContinuation with
    | lineFeed => exact .continuation (.lineFeed _) (ih hrest)
    | carriageReturn => exact .continuation (.carriageReturn _) (ih hrest)
  | comment noLineFeed _ ih =>
    rw [List.cons_append, List.append_assoc]
    exact .comment noLineFeed (ih hrest)
  | lastComment noLineFeed => exact .comment noLineFeed (.nil other)

theorem nextLexeme_eq_of_blanks {input rest : Text} (h : Blanks input rest) :
    nextLexeme input = nextLexeme rest := by
  unfold nextLexeme
  rw [skipBlank_eq_of_blanks h]

/-! ## Lexemes -/

/-- The parts of an input around its first word: the blanks before it, its text, and what follows
it. -/
structure Located (input : Text) (l : Lexeme) (gap front : Text) : Prop where
  input_eq : input = gap ++ l.start
  start_eq : l.start = front ++ l.stop
  nonempty : front ≠ []
  blanks : ∀ other, Blanks (gap ++ other) other
  reading : ∀ other, MayFollow front l.stop other →
    nextLexeme (front ++ other) = some (.ok ⟨l.word, front ++ other, other⟩)

/-- Every lexeme is located behind a gap, and takes a front of the input. -/
theorem exists_located {input : Text} {l : Lexeme} (h : nextLexeme input = some (.ok l)) :
    ∃ gap front, Located input l gap front := by
  obtain ⟨as, hblanks, hword, hdenotes⟩ := nextLexeme_sound h
  obtain ⟨front, hne, hstart, hfront⟩ := exists_front_of_maximalWord hword
  have hstart_ne : l.start ≠ [] := by
    rw [hstart]
    simp [hne]
  obtain ⟨gap, hinput, hgap⟩ := exists_front_of_blanks hblanks hstart_ne
  refine ⟨gap, front, hinput, hstart, hne, hgap, fun other hother => ?_⟩
  rw [nextLexeme_complete (.nil _) (hfront other hother), hdenotes]

end Shell
end CurlScribe
