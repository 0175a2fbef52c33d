import CurlScribe.Proofs.Shell.Fragments
import CurlScribe.Proofs.Word.Normal
import CurlScribe.Shell.Token

/-!
# Reading commands is exact

A command can be read exactly if the grammar derives it, and its tokens are the normal words of
what the grammar says its words denote. Words come first, then blanks, then whole commands.
-/

namespace CurlScribe
namespace Shell

open Grammar

/-! ## Words -/

theorem isSeparator_iff {c : Char} : isSeparator c = true ↔ c ∈ separators := by
  simp only [isSeparator, separators, Bool.or_eq_true, beq_iff_eq, List.mem_cons, List.not_mem_nil,
    or_false]
  grind

theorem scanWord_sound {input rest : Text} {as : List Atom} (h : scanWord input = .ok (as, rest)) :
    Fragments input as rest ∧ ∀ c more, rest = c :: more → c ∈ separators := by
  -- the cases are those of the scanner; where it answers with an error there is nothing to show
  fun_induction scanWord input generalizing as with
  | case1 =>
    simp only [Except.ok.injEq, Prod.mk.injEq] at h
    obtain ⟨rfl, rfl⟩ := h
    exact ⟨.nil _, by simp⟩
  | case2 tail ih => exact ⟨.cons (.continuation (.lineFeed _)) (ih h).1, (ih h).2⟩
  | case3 tail ih => exact ⟨.cons (.continuation (.carriageReturn _)) (ih h).1, (ih h).2⟩
  | case4 c tail hlf hcr ih =>
    obtain ⟨cs, hs, rfl⟩ := Scan.prepend_eq_ok.1 h
    refine ⟨.cons (.escaped fun next hk => ?_) (ih hs).1, (ih hs).2⟩
    cases hk with
    | lineFeed => exact hlf rfl
    | carriageReturn => exact hcr _ rfl rfl
  | case5 => simp at h
  | case6 tail as' after hq ih =>
    obtain ⟨cs, hs, rfl⟩ := Scan.prepend_eq_ok.1 h
    obtain ⟨inside, hn, rfl, rfl⟩ := singleQuoted_eq_ok_iff.1 hq
    exact ⟨.cons (.singleQuoted _ hn) (ih hs).1, (ih hs).2⟩
  | case7 => simp at h
  | case8 tail as' after hq ih =>
    obtain ⟨cs, hs, rfl⟩ := Scan.prepend_eq_ok.1 h
    exact ⟨.cons (.doubleQuoted (doubleQuoted_sound hq)) (ih hs).1, (ih hs).2⟩
  | case9 => simp at h
  | case10 tail as' after hq ih =>
    obtain ⟨cs, hs, rfl⟩ := Scan.prepend_eq_ok.1 h
    exact ⟨.cons (.ansiQuoted (ansiQuoted_sound hq)) (ih hs).1, (ih hs).2⟩
  | case11 => simp at h
  | case12 tail as' after hq ih =>
    obtain ⟨cs, hs, rfl⟩ := Scan.prepend_eq_ok.1 h
    exact ⟨.cons (.localized (doubleQuoted_sound hq)) (ih hs).1, (ih hs).2⟩
  | case13 => simp at h
  | case14 tail hq hd a after he ih =>
    obtain ⟨cs, hs, rfl⟩ := Scan.prepend_eq_ok.1 h
    refine ⟨.cons (.dollar ?_ (dollar_sound he)) (ih hs).1, (ih hs).2⟩
    rintro c more rfl
    exact ⟨fun hc => hq more (hc ▸ rfl), fun hc => hd more (hc ▸ rfl)⟩
  | case15 => simp at h
  | case16 c tail =>
    simp only [Except.ok.injEq, Prod.mk.injEq] at h
    obtain ⟨rfl, rfl⟩ := h
    refine ⟨.nil _, fun d more hd => ?_⟩
    obtain ⟨rfl, -⟩ := List.cons.inj hd
    exact isSeparator_iff.1 ‹_›
  | case17 =>
    -- the last branch is reached by what no branch before it takes, so the character is plain
    rename_i c tail _ _ hb hbe hq hdq _ _ hd hsep ih
    obtain ⟨cs, hs, rfl⟩ := Scan.prepend_eq_ok.1 h
    have hbs : c ≠ '\\' := fun he => by
      cases tail with
      | nil => exact hbe he rfl
      | cons d tail => exact hb d tail he rfl
    have hns : c ∉ separators := fun hm => hsep (isSeparator_iff.2 hm)
    have hp : c ∉ separators ++ ['\'', '"', '\\', '$'] := by
      simp [hns, hbs, show c ≠ '\'' from hq, show c ≠ '"' from hdq, show c ≠ '$' from hd]
    exact ⟨.cons (.plain _ hp) (ih hs).1, (ih hs).2⟩

/-- A word that begins with a fragment is the fragment and the rest of the word. -/
theorem scanWord_fragment {input next : Text} {as : List Atom} (h : Fragment input as next) :
    scanWord input = (scanWord next).prepend as := by
  cases h with
  -- a continuation denotes nothing, so nothing is put in front of the rest
  | continuation hk =>
    have hp : (scanWord next).prepend [] = scanWord next := by
      cases scanWord next <;> rfl
    cases hk <;> rw [scanWord, hp]
  | escaped hk =>
    obtain ⟨hlf, hcr⟩ := no_lineBreak_of_not_continuation hk
    rw [scanWord]
    · exact hlf
    · exact hcr
  | singleQuoted _ hn =>
    rename_i inside
    have hq : singleQuoted (inside ++ '\'' :: next) = .ok (inside.map .char, next) :=
      singleQuoted_eq_ok_iff.2 ⟨inside, hn, rfl, rfl⟩
    rw [scanWord]
    split
    · next bs after he =>
      rw [hq, Except.ok.injEq, Prod.mk.injEq] at he
      rw [he.1, he.2]
    · next e he => exact absurd (he.symm.trans hq) (by simp)
  | doubleQuoted hq =>
    have hq' := fun opening => doubleQuoted_complete opening hq
    rw [scanWord]
    split
    · next bs after he =>
      rw [hq', Except.ok.injEq, Prod.mk.injEq] at he
      rw [he.1, he.2]
    · next e he => exact absurd (he.symm.trans (hq' _)) (by simp)
  | localized hq =>
    have hq' := fun opening => doubleQuoted_complete opening hq
    rw [scanWord]
    split
    · next bs after he =>
      rw [hq', Except.ok.injEq, Prod.mk.injEq] at he
      rw [he.1, he.2]
    · next e he => exact absurd (he.symm.trans (hq' _)) (by simp)
  | ansiQuoted hq =>
    have hq' := fun opening => ansiQuoted_complete opening hq
    rw [scanWord]
    split
    · next bs after he =>
      rw [hq', Except.ok.injEq, Prod.mk.injEq] at he
      rw [he.1, he.2]
    · next e he => exact absurd (he.symm.trans (hq' _)) (by simp)
  | dollar hn hd =>
    rename_i a tail
    -- a dollar before a quote begins a string, so the branches for those are out
    have hd' := dollar_complete hd
    rw [scanWord]
    · split
      · next b after he =>
        rw [hd', Except.ok.injEq, Prod.mk.injEq] at he
        rw [he.1, he.2]
      · next e he => exact absurd (he.symm.trans hd') (by simp)
    · rintro rest rfl
      exact (hn _ _ rfl).1 rfl
    · rintro rest rfl
      exact (hn _ _ rfl).2 rfl
  | plain _ hp =>
    rename_i c
    simp only [List.mem_append, List.mem_cons, List.not_mem_nil, or_false, not_or] at hp
    obtain ⟨hs, hq, hdq, hb, hd⟩ := hp
    rw [scanWord, if_neg (fun h => hs (isSeparator_iff.1 h))]
    all_goals simp [hq, hdq, hb, hd]

/-- At a separator or the end of the input a word ends. -/
theorem scanWord_of_end {rest : Text} (h : ∀ c more, rest = c :: more → c ∈ separators) :
    scanWord rest = .ok ([], rest) := by
  cases rest with
  | nil => rw [scanWord]
  | cons c more =>
    have hc := h c more rfl
    have hs := isSeparator_iff.2 hc
    simp only [separators, List.mem_cons, List.not_mem_nil, or_false] at hc
    rw [scanWord, if_pos hs]
    all_goals rcases hc with rfl | rfl | rfl | rfl <;> simp

theorem scanWord_complete {input rest : Text} {as : List Atom} (h : Fragments input as rest)
    (hl : ∀ c more, rest = c :: more → c ∈ separators) : scanWord input = .ok (as, rest) := by
  induction h with
  | nil => exact scanWord_of_end hl
  | cons hf _ ih =>
    rw [scanWord_fragment hf, ih hl]
    rfl

/-! ## Blanks -/

/-- Blanks, or a comment in which `inside` has been read, up to where the scanner stops. -/
theorem blanks_skipBlank (comment : Bool) (input : Text) :
    (comment = false → Blanks input (skipBlank comment input)) ∧
      (comment = true → ∀ inside, '\n' ∉ inside →
        Blanks ('#' :: (inside ++ input)) (skipBlank comment input)) := by
  -- both modes at once, since a comment ends in the other mode and blanks begin comments
  fun_induction skipBlank comment input with
  | case1 comment =>
    refine ⟨fun _ => .nil _, fun _ inside hn => ?_⟩
    rw [List.append_nil]
    exact .lastComment hn
  | case2 c rest ih =>
    refine ⟨by simp, fun _ inside hn => ?_⟩
    -- the line feed ends the comment, any other character is taken into it
    by_cases hc : c = '\n'
    · subst hc
      exact .comment hn (ih.1 rfl)
    · have hm : (c != '\n') = true := by simpa using hc
      have hb := ih.2 hm (inside ++ [c]) (by simp [hn, Ne.symm hc])
      rwa [List.append_assoc] at hb
  | case3 rest ih => exact ⟨fun _ => .continuation (.lineFeed _) (ih.1 rfl), by simp⟩
  | case4 rest ih => exact ⟨fun _ => .continuation (.carriageReturn _) (ih.1 rfl), by simp⟩
  | case5 rest ih => exact ⟨fun _ => ih.2 rfl [] (by simp), by simp⟩
  | case6 c rest _ _ _ hs ih =>
    exact ⟨fun _ => .separator (isSeparator_iff.1 hs) (ih.1 rfl), by simp⟩
  | case7 c rest => exact ⟨fun _ => .nil _, by simp⟩

/-- A comment is skipped with its line feed. -/
theorem skipBlank_comment {inside : Text} (rest : Text) (h : '\n' ∉ inside) :
    skipBlank true (inside ++ '\n' :: rest) = skipBlank false rest := by
  induction inside with
  | nil => rfl
  | cons c inside ih =>
    simp only [List.mem_cons, not_or] at h
    have hc : (c != '\n') = true := by simpa using Ne.symm h.1
    rw [List.cons_append, skipBlank, hc, ih h.2]

theorem skipBlank_lastComment {inside : Text} (h : '\n' ∉ inside) :
    skipBlank true inside = [] := by
  induction inside with
  | nil => rfl
  | cons c inside ih =>
    simp only [List.mem_cons, not_or] at h
    have hc : (c != '\n') = true := by simpa using Ne.symm h.1
    rw [skipBlank, hc, ih h.2]

theorem skipBlank_continuation {input rest : Text} (h : Continuation input rest) :
    skipBlank false input = skipBlank false rest := by
  cases h <;> rw [skipBlank]

theorem skipBlank_separator {c : Char} (rest : Text) (h : c ∈ separators) :
    skipBlank false (c :: rest) = skipBlank false rest := by
  have hs := isSeparator_iff.2 h
  simp only [separators, List.mem_cons, List.not_mem_nil, or_false] at h
  rw [skipBlank, if_pos hs]
  all_goals rcases h with rfl | rfl | rfl | rfl <;> simp

/-- What is behind blanks decides what the first word is. -/
theorem skipBlank_eq_of_blanks {input rest : Text} (h : Blanks input rest) :
    skipBlank false input = skipBlank false rest := by
  induction h with
  | nil => rfl
  | separator hs _ ih => rw [skipBlank_separator _ hs, ih]
  | continuation hk _ ih => rw [skipBlank_continuation hk, ih]
  | comment hn _ ih => rw [skipBlank, skipBlank_comment _ hn, ih]
  | lastComment hn => simp only [skipBlank, skipBlank_lastComment hn]

/-- The scanner takes all blanks that there are. -/
theorem skipBlank_of_blanks {input rest : Text} (h : Blanks input rest)
    (hl : skipBlank false rest = rest) : skipBlank false input = rest :=
  (skipBlank_eq_of_blanks h).trans hl

/-- Where a word can begin: at no separator, no comment and no continuation. -/
structure WordStart (c : Char) (rest : Text) : Prop where
  noSeparator : c ∉ separators
  noComment : c ≠ '#'
  noContinuation : ∀ next, ¬ Continuation (c :: rest) next

/-- Where a word can begin, there is no blank. -/
theorem skipBlank_of_wordStart {c : Char} {rest : Text} (h : WordStart c rest) :
    skipBlank false (c :: rest) = c :: rest := by
  have hs : ¬ isSeparator c = true := fun hs => h.noSeparator (isSeparator_iff.1 hs)
  rw [skipBlank, if_neg hs]
  · rintro tail rfl rfl
    exact h.noContinuation _ (.lineFeed tail)
  · rintro tail rfl rfl
    exact h.noContinuation _ (.carriageReturn tail)
  · exact h.noComment

/-- After a blank a word can begin. -/
theorem wordStart_of_skipBlank {comment : Bool} {input rest : Text} {c : Char}
    (h : skipBlank comment input = c :: rest) : WordStart c rest := by
  fun_induction skipBlank comment input with
  | case1 => simp at h
  | case7 d tail hlf hcr hc hs =>
    obtain ⟨rfl, rfl⟩ := List.cons.inj h
    refine ⟨fun hm => hs (isSeparator_iff.2 hm), hc, fun next hk => ?_⟩
    cases hk with
    | lineFeed => exact hlf _ rfl rfl
    | carriageReturn => exact hcr _ rfl rfl
  | case2 _ _ ih | case3 _ ih | case4 _ ih | case5 _ ih | case6 _ _ _ _ _ _ ih => exact ih h

/-- A fragment does not begin with a separator. -/
theorem exists_head_of_fragment {input next : Text} {as : List Atom} (h : Fragment input as next) :
    ∃ c rest, input = c :: rest ∧ c ∉ separators := by
  cases h with
  | plain _ hp =>
    simp only [List.mem_append, not_or] at hp
    exact ⟨_, _, rfl, hp.1⟩
  | continuation hk => cases hk <;> exact ⟨_, _, rfl, by decide⟩
  | _ => exact ⟨_, _, rfl, by decide⟩

theorem wordStart_of_maximalWord {input rest : Text} {as : List Atom}
    (h : MaximalWord input as rest) : ∃ c tail, input = c :: tail ∧ WordStart c tail := by
  obtain ⟨bs, next, cs, hf, -, -⟩ := h.fragments
  obtain ⟨c, tail, rfl, hs⟩ := exists_head_of_fragment hf
  exact ⟨c, tail, rfl, hs, fun hc => h.noComment tail (hc ▸ rfl), h.noContinuation⟩

/-- What is scanned where a word can begin is a word as long as possible. -/
theorem maximalWord_of_scanWord {c : Char} {tail rest : Text} {as : List Atom}
    (hw : WordStart c tail) (h : scanWord (c :: tail) = .ok (as, rest)) :
    MaximalWord (c :: tail) as rest := by
  obtain ⟨hf, hl⟩ := scanWord_sound h
  refine ⟨fun more he => hw.noComment (List.cons.inj he).1, hw.noContinuation, ?_, hl⟩
  -- the scanner stops at once only at a separator, where no word begins
  cases hf with
  | nil => exact absurd (hl c tail rfl) hw.noSeparator
  | cons hh ht => exact ⟨_, _, _, hh, ht, rfl⟩

theorem scanWord_of_maximalWord {input rest : Text} {as : List Atom}
    (h : MaximalWord input as rest) : scanWord input = .ok (as, rest) := by
  obtain ⟨bs, next, cs, hf, ht, rfl⟩ := h.fragments
  exact scanWord_complete (.cons hf ht) h.isLongest

/-! ## Commands -/

/-- The next lexeme is the next word, after blanks. -/
theorem nextLexeme_sound {input : Text} {l : Lexeme} (h : nextLexeme input = some (.ok l)) :
    ∃ as, Blanks input l.start ∧ MaximalWord l.start as l.stop ∧ l.word = Word.ofAtoms as := by
  have hb := (blanks_skipBlank false input).1 rfl
  unfold nextLexeme at h
  split at h
  · simp at h
  · next start hne =>
    split at h
    · next as stop hs =>
      simp only [Option.some.injEq, Except.ok.injEq] at h
      subst h
      match hk : skipBlank false input with
      | [] => exact absurd hk hne
      | c :: tail =>
        rw [hk] at hb hs
        exact ⟨as, hb, maximalWord_of_scanWord (wordStart_of_skipBlank hk) hs, rfl⟩
    · simp at h

theorem nextLexeme_complete {input start rest : Text} {as : List Atom} (hb : Blanks input start)
    (hw : MaximalWord start as rest) :
    nextLexeme input = some (.ok ⟨Word.ofAtoms as, start, rest⟩) := by
  obtain ⟨c, tail, rfl, hc⟩ := wordStart_of_maximalWord hw
  have hk := skipBlank_of_blanks hb (skipBlank_of_wordStart hc)
  simp only [nextLexeme, hk, scanWord_of_maximalWord hw]

theorem nextLexeme_eq_none_iff {input : Text} : nextLexeme input = none ↔ Blanks input [] := by
  constructor
  · intro h
    have hb := (blanks_skipBlank false input).1 rfl
    unfold nextLexeme at h
    split at h
    · next hk => rwa [hk] at hb
    · split at h <;> simp at h
  · intro h
    simp only [nextLexeme, skipBlank_of_blanks h rfl]

theorem lexemes_sound {input : Text} {ls : List Lexeme} (h : lexemes input = (ls, none)) :
    CommandLine input (ls.map fun l => l.word.atoms) ∧ ∀ l ∈ ls, l.word.IsNormal := by
  fun_induction lexemes input generalizing ls with
  | case1 input hn =>
    obtain ⟨rfl, -⟩ := Prod.mk.inj h
    exact ⟨.done (nextLexeme_eq_none_iff.1 hn), by simp⟩
  | case2 => simp at h
  | case3 input l hl others fault ho ih =>
    obtain ⟨rfl, rfl⟩ := Prod.mk.inj h
    obtain ⟨as, hb, hw, hword⟩ := nextLexeme_sound hl
    obtain ⟨ht, hn⟩ := ih ho
    constructor
    · rw [List.map_cons, hword, Word.atoms_ofAtoms]
      exact .word hb hw ht
    · intro l' hm
      rcases List.mem_cons.1 hm with rfl | hm
      · rw [hword]
        exact Word.isNormal_ofAtoms as
      · exact hn l' hm

theorem lexemes_complete {input : Text} {ds : List (List Atom)} (h : CommandLine input ds) :
    ∃ ls, lexemes input = (ls, none) ∧ ls.map Lexeme.word = ds.map Word.ofAtoms := by
  induction h with
  | done hb =>
    have hn := nextLexeme_eq_none_iff.2 hb
    refine ⟨[], ?_, rfl⟩
    rw [lexemes]
    split
    · rfl
    · next he => exact absurd (hn.symm.trans he) (by simp)
    · next he => exact absurd (hn.symm.trans he) (by simp)
  | @word input start rest as ds hb hw _ ih =>
    obtain ⟨ls, hl, hm⟩ := ih
    have hn := nextLexeme_complete hb hw
    refine ⟨⟨Word.ofAtoms as, start, rest⟩ :: ls, ?_, by rw [List.map_cons, List.map_cons, hm]⟩
    rw [lexemes]
    split
    · next he => exact absurd (hn.symm.trans he) (by simp)
    · next he => exact absurd (hn.symm.trans he) (by simp)
    · next l he =>
      obtain rfl : (⟨Word.ofAtoms as, start, rest⟩ : Lexeme) = l := by simpa using hn.symm.trans he
      simp only [hl]

theorem tokenize_eq_ok_iff {command : Text} {tokens : List Token} :
    tokenize command = .ok tokens ↔ ∃ ls, lexemes command = (ls, none) ∧
      tokens = ls.map fun l => ⟨l.word, (TokenStream.ofText command).position l.start,
        (TokenStream.ofText command).position l.stop⟩ := by
  unfold tokenize tokenStream
  rcases lexemes command with ⟨ls, fault⟩
  cases fault with
  | none => simp [eq_comm]
  | some e => simp

/-- The words of the tokens of a command are the normal words of what the grammar derives. -/
theorem tokenize_of_commandLine {command : Text} {ds : List (List Atom)}
    (h : CommandLine command ds) :
    ∃ tokens, tokenize command = .ok tokens ∧ tokens.map Token.word = ds.map Word.ofAtoms := by
  obtain ⟨ls, hl, hm⟩ := lexemes_complete h
  refine ⟨_, tokenize_eq_ok_iff.2 ⟨ls, hl, rfl⟩, ?_⟩
  rw [List.map_map, ← hm]
  rfl

/-- The grammar derives a command that can be read, with the atoms of its tokens. -/
theorem commandLine_of_tokenize {command : Text} {tokens : List Token}
    (h : tokenize command = .ok tokens) :
    CommandLine command (tokens.map fun t => t.word.atoms) ∧ ∀ t ∈ tokens, t.word.IsNormal := by
  obtain ⟨ls, hl, rfl⟩ := tokenize_eq_ok_iff.1 h
  obtain ⟨hc, hn⟩ := lexemes_sound hl
  constructor
  · rw [List.map_map]
    exact hc
  · intro t ht
    obtain ⟨l, hm, rfl⟩ := List.mem_map.1 ht
    exact hn l hm

/-- A command can be read exactly if it is a row of words with blanks around them, and then the
word of each token is the normal word of what the word in its place denotes. -/
theorem tokenize_exact (command : Text) :
    ((∃ tokens, tokenize command = .ok tokens) ↔ ∃ ds, CommandLine command ds) ∧
      ∀ tokens ds, tokenize command = .ok tokens → CommandLine command ds →
        tokens.map (fun t => t.word.atoms) = ds ∧ ∀ t ∈ tokens, t.word.IsNormal := by
  refine ⟨⟨fun ⟨tokens, h⟩ => ⟨_, (commandLine_of_tokenize h).1⟩, fun ⟨ds, h⟩ => ?_⟩, ?_⟩
  · obtain ⟨tokens, ht, -⟩ := tokenize_of_commandLine h
    exact ⟨tokens, ht⟩
  · intro tokens ds ht hd
    refine ⟨?_, (commandLine_of_tokenize ht).2⟩
    obtain ⟨tokens', ht', hm⟩ := tokenize_of_commandLine hd
    -- completeness gives tokens with the words of this derivation, and the scanner has one answer
    obtain rfl : tokens = tokens' := Except.ok.inj (ht.symm.trans ht')
    have ha := congrArg (List.map Word.atoms) hm
    rw [List.map_map, List.map_map] at ha
    rw [show ds = ds.map (Word.atoms ∘ Word.ofAtoms) by simp [Function.comp_def]]
    exact ha

/-- A word of three kinds of fragments, and a comment after it. -/
theorem tokenize_exact_mixed :
    let command := "a$'\\x41'\"$B\" #".toList
    let denoted := [[Atom.char 'a', .char 'A', .reference ⟨['B'], false⟩]]
    CommandLine command denoted ∧ ∃ tokens, tokenize command = .ok tokens ∧
      tokens.map (fun t => t.word.atoms) = denoted := by
  intro command denoted
  have hansi : Fragment (command.drop 1) [.char 'A'] (command.drop 8) := by
    have hrun : DigitRun Text.hexValue? 2 (command.drop 5) [4, 1] (command.drop 7) :=
      ⟨by decide, by decide, ⟨['4', '1'], rfl, by decide⟩, .inl rfl⟩
    exact .ansiQuoted (.escape (.hexadecimal (d := 'A') (by decide) hrun (by decide)) (.close _))
  have hquoted : Fragment (command.drop 8) [.reference ⟨['B'], false⟩] (command.drop 12) := by
    have hname : VariableName (command.drop 10) ⟨['B'], false⟩ (command.drop 11) :=
      @VariableName.plain ['B'] _ (by decide) (by intro c more h; cases h; decide)
    exact .doubleQuoted (.dollar (.reference hname) (.close _))
  have hword : MaximalWord command [.char 'a', .char 'A', .reference ⟨['B'], false⟩]
      (command.drop 12) := by
    refine ⟨?_, ?_, ⟨_, _, _, .plain _ (by decide), .cons hansi (.cons hquoted (.nil _)), rfl⟩, ?_⟩
    · intro more h
      exact absurd (List.cons.inj h).1 (by decide)
    · intro next h
      change Continuation ('a' :: command.drop 1) next at h
      cases h
    · intro c more h
      cases h
      decide
  have hline : CommandLine command denoted :=
    .word (.nil _) hword (.done (.separator (by decide) (.lastComment (by decide))))
  obtain ⟨tokens, ht⟩ := (tokenize_exact command).1.2 ⟨denoted, hline⟩
  exact ⟨hline, tokens, ht, ((tokenize_exact command).2 tokens denoted ht hline).1⟩

end Shell
end CurlScribe
