import CurlScribe.Proofs.Target.Control

/-!
# Quoted text

Any text can be quoted for Go, Rust and Python. What is written for it is one literal, with the text
as its value, and ends where the code goes on: this holds for every reader that knows the escapes
that quoting needs, so also for the reader of the language. For Go and Rust it holds whatever code
goes on; in Python two quotes and a third one behind them would begin a literal of another form.
The literals hold no character that a source must not hold, and no two texts share a literal.
-/

namespace CurlScribe

/-- Texts that are read back from what is written for them are written differently. -/
theorem injective_of_read? (read? : Text → Option (Text × Text)) {quote : Text → Text}
    (h : ∀ t, read? (quote t) = some (t, [])) : Function.Injective quote := by
  intro s t he
  have hread : some (s, ([] : Text)) = some (t, []) := by
    rw [← h s, he, h t]
  exact (Prod.mk.inj (Option.some.inj hread)).1

/-- A carriage return is neither a line end nor a tab. -/
theorem Text.IsTidy.not_mem_return {t : Text} (h : t.IsTidy) : '\r' ∉ t := by
  intro hmem
  exact absurd (h '\r' hmem (by decide)) (by decide)

/-! ## Go -/

namespace GoLiteral

/-- No literal holds a byte order mark: the raw form is not taken for a text that has one, and the
other form escapes it. -/
theorem byteOrderMark_not_mem_quote (t : Text) : byteOrderMark ∉ quote t := by
  rcases quote_cases t with ⟨hraw, hquote⟩ | hquote
  · have hinside : byteOrderMark ∉ t := by
      intro hmem
      exact absurd (hraw byteOrderMark hmem) (by decide)
    have hback : byteOrderMark ∉ ['\x60'] := by decide
    rw [hquote]
    exact List.not_mem_append (List.not_mem_append hback hinside) hback
  · have hinside : byteOrderMark ∉ t.flatMap escape := by
      intro hmem
      exact absurd (forall_isPlain_escape t byteOrderMark hmem) (by decide)
    have hdouble : byteOrderMark ∉ ['"'] := by decide
    rw [hquote]
    exact List.not_mem_append hdouble (List.not_mem_append hinside hdouble)

/-- What is quoted is one literal in front of any code, and may stand in a Go source: it holds no
byte order mark, no carriage return, and of the control characters line ends and tabs at most. -/
theorem readBy?_quote_markless {Q : Quoting} (hQ : basic.IsPartOf Q) :
    (∀ t rest, readBy? Q (quote t ++ rest) = some (t, rest)) ∧
      (∀ t, byteOrderMark ∉ quote t ∧ '\r' ∉ quote t ∧ Text.IsTidy (quote t)) ∧
      Function.Injective quote := by
  have hread : ∀ t rest, readBy? Q (quote t ++ rest) = some (t, rest) := readBy?_quote hQ
  refine ⟨hread, ?_, ?_⟩
  · intro t
    exact ⟨byteOrderMark_not_mem_quote t, (isTidy_quote t).not_mem_return, isTidy_quote t⟩
  · apply injective_of_read? (readBy? Q)
    intro t
    simpa using hread t []

/-- A text that the raw form cannot hold, with digits behind the literal that could go on with its
last escape, and a text that it holds, with another back quote behind the literal. -/
theorem readBy?_quote_markless_both :
    let escaped : Text := ['"', '\x60', '\r', '\ufeff', '\x7f']
    let raw : Text := ['"', '\\', '\n', '\t']
    quote escaped = "\"\\\"\x60\\r\\ufeff\\u007f\"".toList ∧
      readBy? quoting (quote escaped ++ "41\"".toList) = some (escaped, "41\"".toList) ∧
      quote raw = "\x60\"\\\n\t\x60".toList ∧
      readBy? basic (quote raw ++ "\x60".toList) = some (raw, "\x60".toList) :=
  ⟨by decide, (readBy?_quote_markless isPartOf_quoting).1 _ _, by decide,
    (readBy?_quote_markless ⟨by decide, fun _ => id⟩).1 _ _⟩

end GoLiteral

/-! ## Rust -/

namespace RustLiteral

/-- What is quoted is one literal in front of any code, also if the text ends in a quote or the code
begins with a number sign. It holds no carriage return, and of the control characters line ends and
tabs at most. -/
theorem readBy?_quote_tidy {Q : Quoting} (hQ : basic.IsPartOf Q) :
    (∀ t rest, readBy? Q (quote t ++ rest) = some (t, rest)) ∧
      (∀ t, '\r' ∉ quote t ∧ Text.IsTidy (quote t)) ∧ Function.Injective quote := by
  have hread : ∀ t rest, readBy? Q (quote t ++ rest) = some (t, rest) := readBy?_quote hQ
  refine ⟨hread, ?_, ?_⟩
  · intro t
    exact ⟨(isTidy_quote t).not_mem_return, isTidy_quote t⟩
  · apply injective_of_read? (readBy? Q)
    intro t
    simpa using hread t []

/-- A text that ends like a raw literal and has braces behind a backslash and a control character
before a digit, and a text that ends in a quote, with a number sign behind the literal. -/
theorem readBy?_quote_tidy_both :
    let escaped : Text := ['\\', '\x7b', '\x7d', '\x1b', '0', '"', '#']
    let raw : Text := ['\\', 'u', '\x7b', '\x7d', '\n', '"']
    quote escaped = "\"\\\\\x7b\x7d\\u\x7b1b\x7d0\\\"#\"".toList ∧
      readBy? quoting (quote escaped ++ "#".toList) = some (escaped, "#".toList) ∧
      quote raw = "r#\"\\u\x7b\x7d\n\"\"#".toList ∧
      readBy? basic (quote raw ++ "#".toList) = some (raw, "#".toList) :=
  ⟨by decide, (readBy?_quote_tidy isPartOf_quoting).1 _ _, by decide,
    (readBy?_quote_tidy ⟨by decide, fun _ => id⟩).1 _ _⟩

end RustLiteral

/-! ## Python -/

namespace PythonLiteral

/-- What is quoted is one literal in front of any code that no quote begins, and stays on one line:
it holds no control character at all. -/
theorem readBy?_quote_visible {Q : Quoting} (hQ : basic.IsPartOf Q) :
    (∀ t rest, (∀ c ∈ rest.head?, isQuote c = false) →
        readBy? Q (quote t ++ rest) = some (t, rest)) ∧
      (∀ t, Text.IsVisible (quote t)) ∧ Function.Injective quote := by
  have hread : ∀ t rest, (∀ c ∈ rest.head?, isQuote c = false) →
      readBy? Q (quote t ++ rest) = some (t, rest) := fun t _ h => readBy?_quote hQ t h
  refine ⟨hread, isVisible_quote, ?_⟩
  apply injective_of_read? (readBy? Q)
  intro t
  simpa using hread t [] (by simp)

/-- A text with both kinds of quotes and a control character before a digit, a text between double
quotes, and no text at all. -/
theorem readBy?_quote_visible_quotes :
    let single : Text := ['"', '\'', '\\', '\x85', '4']
    let double : Text := ['\'', '\'', '\n']
    let code : Text := ", ''".toList
    (∀ c ∈ code.head?, isQuote c = false) ∧
      quote single = "'\"\\'\\\\\\x854'".toList ∧
      readBy? quoting (quote single ++ code) = some (single, code) ∧
      quote double = "\"''\\n\"".toList ∧
      readBy? basic (quote double ++ code) = some (double, code) ∧
      readBy? basic (quote [] ++ code) = some ([], code) := by
  intro single double code
  have hcode : ∀ c ∈ code.head?, isQuote c = false := by
    intro c hc
    obtain rfl : ',' = c := Option.some.inj hc
    rfl
  have hbasic := (readBy?_quote_visible (Q := basic) ⟨by decide, fun _ => id⟩).1
  exact ⟨hcode, by decide, (readBy?_quote_visible isPartOf_quoting).1 _ _ hcode, by decide,
    hbasic _ _ hcode, hbasic _ _ hcode⟩

end PythonLiteral
end CurlScribe
