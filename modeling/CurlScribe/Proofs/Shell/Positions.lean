import CurlScribe.Proofs.Shell.Lookahead

/-!
# Positions

Words and faults are found as ends of the command, and their positions are the numbers of bytes
before these ends. Here it is shown that they are ends of the command indeed: a word by what is
known of its lexeme, and a fault because every scanner blames either a quote or dollar that it has
been opened with or one that it meets further on (`blames_nextLexeme`).
-/

namespace CurlScribe

namespace Text

/-! ## Sizes -/

/-- Sizes add up. -/
theorem byteSize_append (s t : Text) : byteSize (s ++ t) = byteSize s + byteSize t := by
  induction s with
  | nil => exact (Nat.zero_add _).symm
  | cons c s ih => rw [List.cons_append, byteSize, byteSize, ih, Nat.add_assoc]

/-- A text that is not empty takes up bytes. -/
theorem byteSize_pos {t : Text} (h : t ≠ []) : 0 < byteSize t := by
  obtain ⟨c, t, rfl⟩ := List.exists_cons_of_ne_nil h
  exact Nat.add_pos_left c.utf8Size_pos _

end Text

namespace Shell

open Grammar

/-! ## Ends of the input -/

/-- What is left of the input is an end of it. -/
theorem Takes.suffix {R : Text → Text → Prop} {input rest : Text} (h : Takes R input rest) :
    rest <:+ input := by
  obtain ⟨front, rfl, -⟩ := h
  exact List.suffix_append front rest

/-- What a reference leaves is an end of the input. -/
theorem suffix_of_dollar {input rest : Text} {a : Atom} (h : dollar input = .ok (a, rest)) :
    rest <:+ input := (takes_dollar (dollar_sound h)).suffix

theorem suffix_of_singleQuoted {input rest : Text} {as : List Atom}
    (h : singleQuoted input = .ok (as, rest)) : rest <:+ input := by
  obtain ⟨inside, -, rfl, -⟩ := singleQuoted_eq_ok_iff.1 h
  exact ⟨inside ++ ['\''], by simp⟩

theorem suffix_of_doubleQuoted {opening input rest : Text} {as : List Atom}
    (h : doubleQuoted opening input = .ok (as, rest)) : rest <:+ input :=
  (takes_doubleQuoted (doubleQuoted_sound h)).suffix

theorem suffix_of_ansiQuoted {opening input rest : Text} {as : List Atom}
    (h : ansiQuoted opening input = .ok (as, rest)) : rest <:+ input :=
  (takes_ansiQuoted (ansiQuoted_sound h)).suffix

/-! ## Faults -/

/-- The characters that begin what can be faulty. -/
def openings : List Char := ['\'', '"', '\\', '$']

/-- A fault blames a quote, a backslash or a dollar of the input. -/
structure Blames (input : Text) (e : Fault) : Prop where
  suffix : e.input <:+ input
  opening : ∃ c ∈ openings, e.input.head? = some c

namespace Blames

variable {input rest : Text} {e : Fault}

/-- A fault in an end of the input is a fault in the input. -/
theorem mono (h : Blames rest e) (hrest : rest <:+ input) : Blames input e :=
  ⟨h.suffix.trans hrest, h.opening⟩

theorem cons (c : Char) (h : Blames rest e) : Blames (c :: rest) e :=
  h.mono (List.suffix_cons c rest)

/-- A fault that blames the first character. -/
theorem head {c : Char} (hc : c ∈ openings) (h : e.input = c :: rest) : Blames (c :: rest) e :=
  ⟨⟨[], h⟩, c, hc, by simp [h]⟩

end Blames

/-- Atoms in front of a scan change nothing about its fault. -/
theorem Scan.prepend_eq_error {as : List Atom} {s : Scan} {e : Fault}
    (h : s.prepend as = .error e) : s = .error e := by
  cases s with
  | error e' => exact h
  | ok p => cases h

/-- A reference that is not read is blamed where it begins. -/
theorem input_of_dollar {input : Text} {e : Fault} (h : dollar input = .error e) :
    e.input = '$' :: input := by
  unfold dollar at h
  split at h
  · cases h
  · split at h
    · split at h
      · cases h
        rfl
      · split at h
        · cases h
        · cases h
          rfl
    · split at h
      · cases h
      · cases h

/-- A string without an end is blamed where it begins. -/
theorem input_of_singleQuoted {input : Text} {e : Fault} (h : singleQuoted input = .error e) :
    e.input = '\'' :: input := by
  unfold singleQuoted at h
  split at h
  · cases h
  · cases h
    rfl

/-- A number that is no character is blamed where its string begins. -/
theorem input_of_numericEscape {opening input : Text} {value? : Char → Option Nat}
    {base limit : Nat} {e : Fault} (h : numericEscape opening value? base limit input = .error e) :
    e.input = opening := by
  unfold numericEscape at h
  split at h
  · cases h
    rfl
  · split at h
    · cases h
    · cases h
      rfl

theorem input_of_ansiEscape {opening input : Text} {e : Fault}
    (h : ansiEscape opening input = .error e) : e.input = opening := by
  unfold ansiEscape at h
  split at h
  · cases h
    rfl
  · split at h
    · cases h
    · split at h
      · exact input_of_numericEscape h
      · split at h
        · exact input_of_numericEscape h
        · cases h

/-- All faults of a string with escapes are blamed where it begins. -/
theorem input_of_ansiQuoted {opening input : Text} {e : Fault}
    (h : ansiQuoted opening input = .error e) : e.input = opening := by
  fun_induction ansiQuoted opening input with
  | case1 =>
    cases h
    rfl
  | case2 => cases h
  | case3 _ _ _ _ ih => exact ih (Scan.prepend_eq_error h)
  | case4 _ _ he =>
    cases h
    exact input_of_ansiEscape he
  | case5 _ _ _ _ ih => exact ih (Scan.prepend_eq_error h)

/-- A string between double quotes is blamed for its missing end, a reference in it for itself. -/
theorem blames_doubleQuoted {opening input : Text} {e : Fault}
    (h : doubleQuoted opening input = .error e) : e.input = opening ∨ Blames input e := by
  fun_induction doubleQuoted opening input with
  | case1 =>
    cases h
    exact .inl rfl
  | case2 => cases h
  | case3 rest ih => exact (ih h).imp_right fun hb => (hb.cons '\n').cons '\\'
  | case4 rest ih => exact (ih h).imp_right fun hb => ((hb.cons '\n').cons '\r').cons '\\'
  | case5 c rest _ _ _ ih =>
    exact (ih (Scan.prepend_eq_error h)).imp_right fun hb => (hb.cons c).cons '\\'
  | case6 c rest _ _ _ ih => exact (ih (Scan.prepend_eq_error h)).imp_right (Blames.cons '\\')
  | case7 =>
    cases h
    exact .inl rfl
  | case8 rest a after hd ih =>
    exact (ih (Scan.prepend_eq_error h)).imp_right fun hb =>
      (hb.mono (suffix_of_dollar hd)).cons '$'
  | case9 rest e' hd =>
    cases h
    exact .inr (.head (by decide) (input_of_dollar hd))
  | case10 c rest _ _ _ _ _ _ ih => exact (ih (Scan.prepend_eq_error h)).imp_right (Blames.cons c)

/-- A fault in a word is somewhere in the input. -/
theorem blames_scanWord {input : Text} {e : Fault} (h : scanWord input = .error e) :
    Blames input e := by
  -- what is left after a fragment is an end of the input, so faults there are faults here
  fun_induction scanWord input with
  | case1 => cases h
  | case2 rest ih => exact ((ih h).cons '\n').cons '\\'
  | case3 rest ih => exact (((ih h).cons '\n').cons '\r').cons '\\'
  | case4 c rest _ _ ih => exact ((ih (Scan.prepend_eq_error h)).cons c).cons '\\'
  | case5 =>
    cases h
    exact .head (by decide) rfl
  | case6 rest as after hq ih =>
    exact ((ih (Scan.prepend_eq_error h)).mono (suffix_of_singleQuoted hq)).cons '\''
  | case7 rest e' hq =>
    cases h
    exact .head (by decide) (input_of_singleQuoted hq)
  | case8 rest as after hq ih =>
    exact ((ih (Scan.prepend_eq_error h)).mono (suffix_of_doubleQuoted hq)).cons '"'
  | case9 rest e' hq =>
    cases h
    rcases blames_doubleQuoted hq with hb | hb
    · exact .head (by decide) hb
    · exact hb.cons '"'
  | case10 rest as after hq ih =>
    exact (((ih (Scan.prepend_eq_error h)).mono (suffix_of_ansiQuoted hq)).cons '\'').cons '$'
  | case11 rest e' hq =>
    cases h
    exact .head (by decide) (input_of_ansiQuoted hq)
  | case12 rest as after hq ih =>
    exact (((ih (Scan.prepend_eq_error h)).mono (suffix_of_doubleQuoted hq)).cons '"').cons '$'
  | case13 rest e' hq =>
    cases h
    rcases blames_doubleQuoted hq with hb | hb
    · exact (Blames.head (by decide) hb).cons '$'
    · exact (hb.cons '"').cons '$'
  | case14 rest _ _ a after hd ih =>
    exact ((ih (Scan.prepend_eq_error h)).mono (suffix_of_dollar hd)).cons '$'
  | case15 rest _ _ e' hd =>
    cases h
    exact .head (by decide) (input_of_dollar hd)
  | case16 => cases h
  | case17 c rest =>
    rename_i ih
    exact (ih (Scan.prepend_eq_error h)).cons c

/-- The fault that ends an input blames a character of what follows its last blanks. -/
theorem blames_nextLexeme {input : Text} {e : Fault} (h : nextLexeme input = some (.error e)) :
    Blames input e := by
  unfold nextLexeme at h
  split at h
  · cases h
  next start hne =>
    split at h
    · cases h
    next hs =>
      cases h
      obtain ⟨front, hfront, -⟩ := exists_front_of_blanks ((blanks_skipBlank false input).1 rfl) hne
      rw [hfront]
      exact (blames_scanWord hs).mono (List.suffix_append _ _)

/-! ## Lexemes in a row -/

/-- The lexemes are the first one and those behind its end, or a fault in place of them. -/
theorem lexemes_eq (input : Text) :
    lexemes input = match nextLexeme input with
      | none => ([], none)
      | some (.error e) => ([], some e)
      | some (.ok l) => (l :: (lexemes l.stop).1, (lexemes l.stop).2) := by
  rw [lexemes]
  split <;> simp_all

/-- Both ends of a lexeme are places in the input. -/
theorem suffix_of_nextLexeme {input : Text} {l : Lexeme} (h : nextLexeme input = some (.ok l)) :
    l.start <:+ input ∧ l.stop <:+ input := by
  obtain ⟨gap, front, hlocated⟩ := exists_located h
  have hstart : l.start <:+ input := by
    rw [hlocated.input_eq]
    exact List.suffix_append _ _
  refine ⟨hstart, List.IsSuffix.trans ?_ hstart⟩
  rw [hlocated.start_eq]
  exact List.suffix_append _ _

/-- All lexemes of an input and the fault that may end them are read from ends of it. -/
theorem suffix_of_lexemes (input : Text) :
    (∀ l ∈ (lexemes input).1, l.start <:+ input ∧ l.stop <:+ input) ∧
      ∀ e, (lexemes input).2 = some e → e.input <:+ input := by
  induction input using lexemes.induct with
  | case1 input hn =>
    rw [lexemes_eq, hn]
    exact ⟨nofun, nofun⟩
  | case2 input e he =>
    rw [lexemes_eq, he]
    refine ⟨nofun, fun e' he' => ?_⟩
    cases he'
    exact (blames_nextLexeme he).suffix
  | case3 input l hl _ _ _ ih =>
    have hfirst := suffix_of_nextLexeme hl
    rw [lexemes_eq, hl]
    refine ⟨List.forall_mem_cons.2 ⟨hfirst, fun l' hl' => ?_⟩, fun e he => ?_⟩
    · obtain ⟨h, h'⟩ := ih.1 l' hl'
      exact ⟨h.trans hfirst.2, h'.trans hfirst.2⟩
    · exact (ih.2 e he).trans hfirst.2

/-! ## Tokens -/

/-- The token of a lexeme of a command. -/
def Lexeme.token (command : Text) (l : Lexeme) : Token :=
  ⟨l.word, (TokenStream.ofText command).position l.start,
    (TokenStream.ofText command).position l.stop⟩

/-- A fault of a command with the position that it blames. -/
def Fault.located (command : Text) (e : Fault) : SyntaxError :=
  ⟨(TokenStream.ofText command).position e.input, e.cause⟩

/-- The tokens are the lexemes, located in the command. -/
theorem tokenStream_eq (command : Text) :
    tokenStream command = ((lexemes command).1.map (Lexeme.token command),
      (lexemes command).2.map (Fault.located command)) := rfl

/-- An end of a command begins behind the bytes before it. -/
theorem position_append (front rest : Text) :
    (TokenStream.ofText (front ++ rest)).position rest = Text.byteSize front := by
  show Text.byteSize (front ++ rest) - Text.byteSize rest = _
  rw [Text.byteSize_append, Nat.add_sub_cancel]

end Shell
end CurlScribe
