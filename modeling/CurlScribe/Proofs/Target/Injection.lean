import CurlScribe.Proofs.Target.GoShape
import CurlScribe.Proofs.Target.PythonShape
import CurlScribe.Proofs.Target.RustShape

/-!
# Requests cannot inject code

Whatever texts a request holds, the program for it is read to its end by the lexer of the language,
and its tokens but for the values of literals are those of every other program for a request of the
same skeleton. No control character reaches the source but line ends, and tabs where the language
allows them in literals.
-/

namespace CurlScribe
open Target

/-- The lexicon of the language of a style, if its sources are programs. -/
def Style.lexicon? : Style → Option Lexicon
  | .go => some goLexicon
  | .python => some pythonLexicon
  | .rust => some rustLexicon
  | .http => none

/-- How the language of a style quotes; messages quote nothing. -/
def Style.quote : Style → Text → Text
  | .go => GoLiteral.quote
  | .python => PythonLiteral.quote
  | .rust => RustLiteral.quote
  | .http => id

/-- A control character that sources of a style may contain. -/
def Style.IsLayout (style : Style) (c : Char) : Prop := c = '\n' ∨ (c = '\t' ∧ style ≠ .python)

/-- The literals of a style are read by its own lexicon. -/
theorem Style.reads_quote {style : Style} {L : Lexicon} (h : style.lexicon? = some L) :
    L.Reads style.quote := by
  cases style with
  | go =>
    obtain rfl := Option.some.inj h
    exact reads_go
  | python =>
    obtain rfl := Option.some.inj h
    exact reads_python
  | rust =>
    obtain rfl := Option.some.inj h
    exact reads_rust
  | http => exact absurd h (by simp [Style.lexicon?])

namespace Request

/-- The code of the program for a request, if the style has programs and there is one. -/
def code? (r : Request) : Style → Option Code
  | .go => some (Go.Program.ofRequest r).code
  | .python => (Python.Program.ofRequest r).toOption.map Python.Program.code
  | .rust => some (Rust.Program.ofRequest r).code
  | .http => none

variable {style : Style} {r s : Request} {code other : Code} {source : Source}

theorem ofRequest_of_code? (h : r.code? .python = some code) :
    ∃ p, Python.Program.ofRequest r = .ok p ∧ p.code = code := by
  obtain ⟨p, hp, rfl⟩ := Option.map_eq_some_iff.1 h
  cases hr : Python.Program.ofRequest r with
  | error e =>
    rw [hr] at hp
    exact absurd hp (by simp [Except.toOption])
  | ok q =>
    rw [hr] at hp
    exact ⟨p, congrArg _ (Option.some.inj hp), rfl⟩

/-- A source is the text of the code that a request has in the style. -/
theorem exists_code_of_render {L : Lexicon} (hL : style.lexicon? = some L)
    (h : r.render style = .ok source) :
    ∃ code, r.code? style = some code ∧ source.text = code.text style.quote := by
  cases style with
  | go =>
    obtain rfl := Except.ok.inj h
    exact ⟨(Go.Program.ofRequest r).code, rfl, by rw [Go.Program.source, Style.quote]⟩
  | python =>
    cases hr : Python.Program.ofRequest r with
    | error e =>
      rw [render, hr] at h
      exact absurd h (by simp [Except.map])
    | ok p =>
      rw [render, hr] at h
      obtain rfl := Except.ok.inj h
      refine ⟨p.code, by rw [code?, hr]; rfl, ?_⟩
      rw [Python.Program.source, Python.Program.text_eq (Python.isSound_ofRequest hr), Style.quote]
  | rust =>
    obtain rfl := Except.ok.inj h
    exact ⟨(Rust.Program.ofRequest r).code, rfl, by rw [Rust.Program.source, Style.quote]⟩
  | http => exact absurd hL (by simp [Style.lexicon?])

/-- The code of a request may stand before anything, whatever the request says. -/
theorem isLine_of_code? (h : r.code? style = some code) : code.IsLine := by
  cases style with
  | go =>
    obtain rfl := Option.some.inj h
    exact Go.isLine_ofRequest r
  | python =>
    obtain ⟨p, hp, rfl⟩ := ofRequest_of_code? h
    exact Python.Program.isLine_code (Python.isSound_ofRequest hp)
  | rust =>
    obtain rfl := Option.some.inj h
    exact Rust.Program.isLine_code (Rust.isSound_ofRequest r)
  | http => exact absurd h (by simp [code?])

/-- Control characters of tidy texts are those of the layout. -/
theorem isLayout_of_isTidy (hs : style ≠ .python) {t : Text} (h : t.IsTidy) :
    ∀ c ∈ t, Text.isControl c = true → style.IsLayout c := by
  intro c hc hcontrol
  rcases Bool.or_eq_true_iff.1 (h c hc hcontrol) with hc | hc
  · exact .inl (beq_iff_eq.1 hc)
  · exact .inr ⟨beq_iff_eq.1 hc, hs⟩

/-- The control characters of a source are those of its layout. -/
theorem isLayout_of_code? (h : r.code? style = some code) :
    ∀ c ∈ code.text style.quote, Text.isControl c = true → style.IsLayout c := by
  have hline := isLine_of_code? h
  cases style with
  | go => exact isLayout_of_isTidy (by decide) (hline.isTidy GoLiteral.isTidy_quote)
  | python =>
    obtain ⟨p, hp, rfl⟩ := ofRequest_of_code? h
    intro c hc hcontrol
    exact .inl (Python.Program.eq_of_isControl (Python.isSound_ofRequest hp) hc hcontrol)
  | rust => exact isLayout_of_isTidy (by decide) (hline.isTidy RustLiteral.isTidy_quote)
  | http => exact absurd h (by simp [code?])

/-- The codes for requests of one skeleton have the same erasure. -/
theorem erase_eq_of_alike (halike : r.Alike style s) (hr : r.code? style = some code)
    (hs : s.code? style = some other) : code.erase = other.erase := by
  cases style with
  | go =>
    obtain rfl := Option.some.inj hr
    obtain rfl := Option.some.inj hs
    exact Go.erase_ofRequest halike
  | python =>
    obtain ⟨p, hp, rfl⟩ := ofRequest_of_code? hr
    obtain ⟨q, hq, rfl⟩ := ofRequest_of_code? hs
    rw [p.erase_code, q.erase_code, Python.outline_ofRequest halike hp hq]
  | rust =>
    obtain rfl := Option.some.inj hr
    obtain rfl := Option.some.inj hs
    rw [(Rust.Program.ofRequest r).erase_code, (Rust.Program.ofRequest s).erase_code,
      Rust.outline_ofRequest halike]
  | http => exact absurd hr (by simp [code?])

/-- A source of a program is read to its end, with the tokens, but for the values of literals, of
every source for a request of the same skeleton, and it holds no control character but layout. -/
theorem lex_render {L : Lexicon} (hL : style.lexicon? = some L) (hr : ∀ w ∈ r.words, w.IsNormal)
    (h : r.render style = .ok source) :
    (∃ tokens, L.lex source.text = some tokens ∧
      ∀ (s : Request) (source' : Source), (∀ w ∈ s.words, w.IsNormal) →
        s.render style = .ok source' → s.skeleton style = r.skeleton style →
        ∃ tokens', L.lex source'.text = some tokens' ∧
          tokens'.map Token.erase = tokens.map Token.erase) ∧
      ∀ c ∈ source.text, Text.isControl c = true → c = '\n' ∨ (c = '\t' ∧ style ≠ .python) := by
  obtain ⟨code, hcode, htext⟩ := exists_code_of_render hL h
  have hline := isLine_of_code? hcode
  have hreads := Style.reads_quote hL
  obtain ⟨tokens, -, hlex, -, -⟩ := hline.lex_alike hreads hline rfl
  refine ⟨⟨tokens, by rw [htext, hlex], ?_⟩, by rw [htext]; exact isLayout_of_code? hcode⟩
  intro s source' hs h' hskeleton
  obtain ⟨other, hother, htext'⟩ := exists_code_of_render hL h'
  -- requests of one skeleton have codes of one erasure, and those have tokens of one erasure
  have halike : r.Alike style s := alike_of_skeleton hr hs hskeleton.symm
  obtain ⟨as, bs, has, hbs, hsame⟩ := hline.lex_alike hreads (isLine_of_code? hother)
    (erase_eq_of_alike halike hcode hother)
  obtain rfl : as = tokens := Option.some.inj (has.symm.trans hlex)
  exact ⟨bs, by rw [htext', hbs], hsame.symm⟩

/-- A header field that tries to end its literal and the call has the tokens of a plain one. -/
theorem lex_render_hostile :
    let request (value : String) : Request := {
      method := none
      url := Word.ofString "http://a/"
      headers := [⟨Word.ofString "X", Word.ofString value⟩]
      credentials := none
      body := .empty
      usedVariables := [] }
    ∃ hostile plain tokens tokens',
      (request "'); evil() #\r\n\"\\").render .python = .ok hostile ∧
        (request "1").render .python = .ok plain ∧
        pythonLexicon.lex hostile.text = some tokens ∧ pythonLexicon.lex plain.text = some tokens' ∧
        tokens'.map Token.erase = tokens.map Token.erase := by
  intro request
  have hnormal (value : String) : ∀ w ∈ (request value).words, w.IsNormal := by
    intro w hw
    simp only [words, request, Option.toList_none, List.flatMap_nil, Body.words, List.append_nil,
      List.flatMap_singleton, List.nil_append, List.cons_append, List.mem_cons, List.not_mem_nil,
      or_false] at hw
    rcases hw with rfl | rfl | rfl
    · exact Word.isNormal_ofText _
    · exact Word.isNormal_ofText _
    · exact Word.isNormal_ofText _
  obtain ⟨⟨tokens, ht, hsame⟩, -⟩ := lex_render (show Style.python.lexicon? = _ from rfl)
    (hnormal "'); evil() #\r\n\"\\") rfl
  obtain ⟨tokens', ht', herase⟩ := hsame (request "1") _ (hnormal "1") rfl (by decide)
  exact ⟨_, _, tokens, tokens', rfl, rfl, ht, ht', herase⟩

end Request
end CurlScribe
