import CurlScribe.Proofs.Shell.Grammar
import CurlScribe.Proofs.Text.Runs

/-!
# Scanning fragments is exact

The scanners of references, escapes and quoted strings answer with exactly what the grammar
derives. Soundness follows the recursion of the scanner, completeness the derivation.
-/

namespace CurlScribe
namespace Shell

open Grammar
open Text (splitFirst_eq_some_iff takeWhile_dropWhile_append eq_false_of_dropWhile isName_iff
  isNameChar_of_isNameStart forall_isNameChar)

/-! ## Separators and continuations -/

/-- To hold of every separator is to hold of the four of them. -/
theorem forall_mem_separators {p : Char → Prop} :
    (∀ c ∈ separators, p c) ↔ p ' ' ∧ p '\t' ∧ p '\r' ∧ p '\n' := by
  simp [separators]

theorem isNameChar_of_mem_separators {c : Char} (h : c ∈ separators) :
    Text.isNameChar c = false := by
  have hall : ∀ c ∈ separators, Text.isNameChar c = false := forall_mem_separators.2 (by decide)
  exact hall c h

theorem not_continuation_of_ne {c : Char} (h : c ≠ '\\') (input : Text) :
    ∀ next, ¬ Continuation (c :: input) next := by
  intro next hc
  cases hc with
  | lineFeed => exact h rfl
  | carriageReturn => exact h rfl

/-! ## References -/

/-- A reference that is read is one of the grammar. -/
theorem dollar_sound {input rest : Text} {a : Atom} (h : dollar input = .ok (a, rest)) :
    Dollar input a rest := by
  unfold dollar at h
  split at h
  · simp only [Except.ok.injEq, Prod.mk.injEq] at h
    obtain ⟨rfl, rfl⟩ := h
    exact .lone (by simp)
  · next c inner =>
    split at h
    · next hc =>
      subst hc
      split at h
      · simp at h
      · next name after hs =>
        split at h
        · next hn =>
          simp only [Except.ok.injEq, Prod.mk.injEq] at h
          obtain ⟨rfl, rfl⟩ := h
          obtain ⟨rfl, -⟩ := splitFirst_eq_some_iff.1 hs
          exact .reference (.braced _ hn)
        · simp at h
    · next hb =>
      split at h
      · next hc =>
        simp only [Except.ok.injEq, Prod.mk.injEq] at h
        obtain ⟨rfl, rfl⟩ := h
        -- the longest run of name characters is a name because its first character starts one
        have hv : VariableName
            ((c :: inner).takeWhile Text.isNameChar ++ (c :: inner).dropWhile Text.isNameChar)
            ⟨(c :: inner).takeWhile Text.isNameChar, false⟩
            ((c :: inner).dropWhile Text.isNameChar) := by
          refine .plain ?_ fun d more hd => eq_false_of_dropWhile hd
          rw [List.takeWhile_cons_of_pos (isNameChar_of_isNameStart hc)]
          exact isName_iff.2 ⟨c, _, rfl, hc, List.all_eq_true.1 List.all_takeWhile⟩
        rw [List.takeWhile_append_dropWhile] at hv
        exact .reference hv
      · next hc =>
        simp only [Except.ok.injEq, Prod.mk.injEq] at h
        obtain ⟨rfl, rfl⟩ := h
        refine .lone fun d more hd => ?_
        obtain ⟨rfl, -⟩ := List.cons.inj hd
        exact ⟨hb, by simpa using hc⟩

theorem not_isNameChar_brace : Text.isNameChar '}' = false := by decide

/-- What the grammar derives of a dollar is what the scanner answers. -/
theorem dollar_complete {input rest : Text} {a : Atom} (h : Dollar input a rest) :
    dollar input = .ok (a, rest) := by
  cases h with
  | lone hn =>
    unfold dollar
    cases input with
    | nil => rfl
    | cons c more =>
      obtain ⟨hb, hs⟩ := hn c more rfl
      simp only [if_neg hb, hs]
      rfl
  | reference hv =>
    cases hv with
    | braced _ hn =>
      rename_i name
      -- the first brace is the closing one, since names hold none
      have hb : '}' ∉ name := by
        intro hm
        have := forall_isNameChar hn _ hm
        rw [not_isNameChar_brace] at this
        exact absurd this (by simp)
      have hs : Text.splitFirst (· == '}') (name ++ '}' :: rest) = some (name, rest) :=
        splitFirst_eq_some_iff.2 ⟨rfl, hb⟩
      simp only [dollar, if_pos, hs, hn]
    | plain hn hl =>
      rename_i name
      obtain ⟨htake, hdrop⟩ := takeWhile_dropWhile_append (forall_isNameChar hn) hl
      obtain ⟨c, more, rfl, hc, -⟩ := isName_iff.1 hn
      have hb : c ≠ '{' := by
        rintro rfl
        exact absurd hc (by decide)
      simp only [List.cons_append] at htake hdrop ⊢
      simp only [dollar, if_neg hb, if_pos hc, htake, hdrop]

/-! ## Escapes -/

/-- The character of a code point is the one whose code point it is. -/
theorem scalar?_eq_some_iff {n : Nat} {c : Char} : scalar? n = some c ↔ c.toNat = n := by
  unfold scalar?
  constructor
  · intro h
    split at h
    · next hv =>
      rw [← Option.some.inj h, Char.ofNat, dif_pos hv]
      rfl
    · simp at h
  · rintro rfl
    rw [if_pos (show c.toNat.isValidChar from c.valid), Char.ofNat_toNat]

/-- The digits that are read are as many as the limit allows and the input has. -/
theorem digitRun_spec {value? : Char → Option Nat} {limit : Nat} {input rest : Text}
    {ds : List Nat} (h : digitRun value? limit input = (ds, rest)) :
    ds.length ≤ limit ∧ (∃ run, input = run ++ rest ∧ run.map value? = ds.map some) ∧
      (ds.length = limit ∨ ∀ c more, rest = c :: more → value? c = none) := by
  fun_induction digitRun value? limit input generalizing ds with
  | case1 =>
    obtain ⟨rfl, rfl⟩ := Prod.mk.inj h
    exact ⟨Nat.le_refl _, ⟨[], rfl, rfl⟩, .inl rfl⟩
  | case2 =>
    obtain ⟨rfl, rfl⟩ := Prod.mk.inj h
    exact ⟨Nat.zero_le _, ⟨[], rfl, rfl⟩, .inr (by simp)⟩
  | case3 n c more hc =>
    obtain ⟨rfl, rfl⟩ := Prod.mk.inj h
    refine ⟨Nat.zero_le _, ⟨[], rfl, rfl⟩, .inr fun d m hd => ?_⟩
    obtain ⟨rfl, -⟩ := List.cons.inj hd
    exact hc
  | case4 n c more d hc es after hr ih =>
    obtain ⟨rfl, rfl⟩ := Prod.mk.inj h
    obtain ⟨hl, ⟨run, rfl, hrun⟩, hm⟩ := ih hr
    refine ⟨by simpa using hl, ⟨c :: run, rfl, by simp [hc, hrun]⟩, ?_⟩
    exact hm.imp (by simp) id

/-- Such digits are the ones that are read. -/
theorem digitRun_eq {value? : Char → Option Nat} {limit : Nat} {run rest : Text} {ds : List Nat}
    (hb : ds.length ≤ limit) (hr : run.map value? = ds.map some)
    (hm : ds.length = limit ∨ ∀ c more, rest = c :: more → value? c = none) :
    digitRun value? limit (run ++ rest) = (ds, rest) := by
  -- on the digits that are taken; the limit counts down with them
  induction run generalizing ds limit with
  | nil =>
    obtain rfl : ds = [] := by simpa using hr.symm
    cases limit with
    | zero => rfl
    | succ n =>
      cases rest with
      | nil => rfl
      | cons c more =>
        have hc := hm.resolve_left (by simp) c more rfl
        simp only [List.nil_append, digitRun, hc]
  | cons c run ih =>
    cases ds with
    | nil => simp at hr
    | cons d ds =>
      obtain ⟨hc, hr⟩ := List.cons.inj hr
      cases limit with
      | zero => simp at hb
      | succ n =>
        have hlength : ds.length ≤ n := by simpa using hb
        have hi := ih hlength hr (hm.imp (by simp) id)
        simp only [List.cons_append, digitRun, hc, hi]

/-- A numeric escape is read if its number is that of a character. -/
theorem numericEscape_eq_ok_iff {opening input cs rest : Text} {value? : Char → Option Nat}
    {base limit : Nat} :
    numericEscape opening value? base limit input = .ok (cs, rest) ↔
      ∃ ds d, DigitRun value? limit input ds rest ∧ d.toNat = ofDigits base ds ∧ cs = [d] := by
  unfold numericEscape
  constructor
  · intro h
    split at h
    · simp at h
    · next ds after hne hr =>
      split at h
      · next d hd =>
        simp only [Except.ok.injEq, Prod.mk.injEq] at h
        obtain ⟨rfl, rfl⟩ := h
        obtain ⟨hb, hrun, hm⟩ := digitRun_spec hr
        exact ⟨ds, d, ⟨fun he => hne (he ▸ rfl), hb, hrun, hm⟩, scalar?_eq_some_iff.1 hd, rfl⟩
      · simp at h
  · rintro ⟨ds, d, ⟨hne, hb, ⟨run, rfl, hrun⟩, hm⟩, hd, rfl⟩
    rw [digitRun_eq hb hrun hm]
    split
    · next he => exact absurd (Prod.mk.inj he).1 hne
    · next ds' after' _ he =>
      obtain ⟨rfl, rfl⟩ := Prod.mk.inj he
      rw [scalar?_eq_some_iff.2 hd]

theorem letterEscape?_eq_some_iff {c d : Char} :
    letterEscape? c = some d ↔ (c, d) ∈ letterEscapes := by
  constructor
  · intro h
    unfold letterEscape? at h
    split at h <;> first | (obtain rfl := Option.some.inj h; decide) | simp at h
  · intro h
    simp only [letterEscapes, List.mem_cons, Prod.mk.injEq, List.not_mem_nil, or_false] at h
    rcases h with ⟨rfl, rfl⟩ | ⟨rfl, rfl⟩ | ⟨rfl, rfl⟩ | ⟨rfl, rfl⟩ | ⟨rfl, rfl⟩ | ⟨rfl, rfl⟩ |
      ⟨rfl, rfl⟩ | ⟨rfl, rfl⟩ | ⟨rfl, rfl⟩ | ⟨rfl, rfl⟩ | ⟨rfl, rfl⟩ | ⟨rfl, rfl⟩ | ⟨rfl, rfl⟩ <;> rfl

theorem hexEscapeLimit?_eq_some_iff {c : Char} {limit : Nat} :
    hexEscapeLimit? c = some limit ↔ (c, limit) ∈ hexEscapes := by
  constructor
  · intro h
    unfold hexEscapeLimit? at h
    split at h <;> first | (obtain rfl := Option.some.inj h; decide) | simp at h
  · intro h
    simp only [hexEscapes, List.mem_cons, Prod.mk.injEq, List.not_mem_nil, or_false] at h
    rcases h with ⟨rfl, rfl⟩ | ⟨rfl, rfl⟩ | ⟨rfl, rfl⟩ <;> rfl

/-- No octal digit is an escape letter. -/
theorem octalValue?_eq_none_of_letter {c d : Char} (h : (c, d) ∈ letterEscapes) :
    Text.octalValue? c = none := by
  simp only [letterEscapes, List.mem_cons, Prod.mk.injEq, List.not_mem_nil, or_false] at h
  rcases h with ⟨rfl, -⟩ | ⟨rfl, -⟩ | ⟨rfl, -⟩ | ⟨rfl, -⟩ | ⟨rfl, -⟩ | ⟨rfl, -⟩ |
    ⟨rfl, -⟩ | ⟨rfl, -⟩ | ⟨rfl, -⟩ | ⟨rfl, -⟩ | ⟨rfl, -⟩ | ⟨rfl, -⟩ | ⟨rfl, -⟩ <;> decide

/-- The letters before hexadecimal digits escape nothing on their own and are no octal digits. -/
theorem none_of_hexEscape {c : Char} {limit : Nat} (h : (c, limit) ∈ hexEscapes) :
    letterEscape? c = none ∧ Text.octalValue? c = none := by
  simp only [hexEscapes, List.mem_cons, Prod.mk.injEq, List.not_mem_nil, or_false] at h
  rcases h with ⟨rfl, -⟩ | ⟨rfl, -⟩ | ⟨rfl, -⟩ <;> decide

theorem letterEscape?_eq_none_iff {c : Char} :
    letterEscape? c = none ↔ ∀ d, (c, d) ∉ letterEscapes := by
  rw [Option.eq_none_iff_forall_ne_some]
  exact forall_congr' fun d => not_congr letterEscape?_eq_some_iff

theorem hexEscapeLimit?_eq_none_iff {c : Char} :
    hexEscapeLimit? c = none ↔ ∀ limit, (c, limit) ∉ hexEscapes := by
  rw [Option.eq_none_iff_forall_ne_some]
  exact forall_congr' fun limit => not_congr hexEscapeLimit?_eq_some_iff

/-- An octal digit is tried last, and no table before it knows the character. -/
theorem none_of_octalValue? {c : Char} {d : Nat} (h : Text.octalValue? c = some d) :
    letterEscape? c = none ∧ hexEscapeLimit? c = none := by
  constructor
  · refine letterEscape?_eq_none_iff.2 fun e he => ?_
    rw [octalValue?_eq_none_of_letter he] at h
    exact absurd h (by simp)
  · refine hexEscapeLimit?_eq_none_iff.2 fun limit hm => ?_
    rw [(none_of_hexEscape hm).2] at h
    exact absurd h (by simp)

/-- A run of digits begins with a digit. -/
theorem exists_digit_of_digitRun {value? : Char → Option Nat} {limit : Nat} {input rest : Text}
    {ds : List Nat} (h : DigitRun value? limit input ds rest) :
    ∃ c more d, input = c :: more ∧ value? c = some d := by
  obtain ⟨hne, -, ⟨run, rfl, hr⟩, -⟩ := h
  cases run with
  | nil => exact absurd (by simpa using hr.symm) hne
  | cons c run =>
    cases ds with
    | nil => exact absurd rfl hne
    | cons d ds => exact ⟨c, run ++ rest, d, rfl, (List.cons.inj hr).1⟩

/-- An escape that is read is one of the grammar. -/
theorem ansiEscape_sound {opening input cs rest : Text}
    (h : ansiEscape opening input = .ok (cs, rest)) : AnsiEscape input cs rest := by
  unfold ansiEscape at h
  split at h
  · simp at h
  · next c tail =>
    split at h
    · next d hd =>
      simp only [Except.ok.injEq, Prod.mk.injEq] at h
      obtain ⟨rfl, rfl⟩ := h
      exact .letter _ (letterEscape?_eq_some_iff.1 hd)
    · next hl =>
      split at h
      · next limit hx =>
        obtain ⟨ds, d, hr, hd, rfl⟩ := numericEscape_eq_ok_iff.1 h
        exact .hexadecimal (hexEscapeLimit?_eq_some_iff.1 hx) hr hd
      · next hx =>
        split at h
        · obtain ⟨ds, d, hr, hd, rfl⟩ := numericEscape_eq_ok_iff.1 h
          exact .octal hr hd
        · next ho =>
          simp only [Except.ok.injEq, Prod.mk.injEq] at h
          obtain ⟨rfl, rfl⟩ := h
          exact .other _ (letterEscape?_eq_none_iff.1 hl) (hexEscapeLimit?_eq_none_iff.1 hx) ho

/-- Every escape of the grammar is read, whatever string it stands in. -/
theorem ansiEscape_complete (opening : Text) {input cs rest : Text}
    (h : AnsiEscape input cs rest) : ansiEscape opening input = .ok (cs, rest) := by
  cases h with
  | letter _ he => simp only [ansiEscape, letterEscape?_eq_some_iff.2 he]
  | hexadecimal he hr hd =>
    obtain ⟨hl, -⟩ := none_of_hexEscape he
    simp only [ansiEscape, hl, hexEscapeLimit?_eq_some_iff.2 he]
    exact numericEscape_eq_ok_iff.2 ⟨_, _, hr, hd, rfl⟩
  | octal hr hd =>
    obtain ⟨c, more, v, rfl, hv⟩ := exists_digit_of_digitRun hr
    obtain ⟨hl, hx⟩ := none_of_octalValue? hv
    simp only [ansiEscape, hl, hx, hv]
    exact numericEscape_eq_ok_iff.2 ⟨_, _, hr, hd, rfl⟩
  | other _ hl hx ho =>
    simp only [ansiEscape, letterEscape?_eq_none_iff.2 hl, hexEscapeLimit?_eq_none_iff.2 hx, ho]

/-! ## Quoted strings -/

/-- A quoted string ends at the next quote, and everything before it stands for itself. -/
theorem singleQuoted_eq_ok_iff {input rest : Text} {as : List Atom} :
    singleQuoted input = .ok (as, rest) ↔
      ∃ inside, '\'' ∉ inside ∧ input = inside ++ '\'' :: rest ∧ as = inside.map .char := by
  unfold singleQuoted
  constructor
  · intro h
    split at h
    · next inside after hs =>
      simp only [Except.ok.injEq, Prod.mk.injEq] at h
      obtain ⟨rfl, rfl⟩ := h
      obtain ⟨rfl, hn⟩ := splitFirst_eq_some_iff.1 hs
      exact ⟨inside, hn, rfl, rfl⟩
    · simp at h
  · rintro ⟨inside, hn, rfl, rfl⟩
    rw [splitFirst_eq_some_iff.2 ⟨rfl, hn⟩]

theorem isDoubleQuoteEscape_iff {c : Char} :
    isDoubleQuoteEscape c = true ↔ c ∈ ['"', '\\', '$', '\x60'] := by
  simp [isDoubleQuoteEscape, or_assoc]

/-- A string between double quotes that is scanned is derived by the grammar. -/
theorem doubleQuoted_sound {opening input rest : Text} {as : List Atom}
    (h : doubleQuoted opening input = .ok (as, rest)) : DoubleQuoted input as rest := by
  -- one rule of the grammar for each case in which the scan goes on
  fun_induction doubleQuoted opening input generalizing as with
  | case1 => simp at h
  | case2 tail =>
    simp only [Except.ok.injEq, Prod.mk.injEq] at h
    obtain ⟨rfl, rfl⟩ := h
    exact .close _
  | case3 tail ih => exact .continuation (.lineFeed _) (ih h)
  | case4 tail ih => exact .continuation (.carriageReturn _) (ih h)
  | case5 c tail _ _ hc ih =>
    obtain ⟨cs, hs, rfl⟩ := Scan.prepend_eq_ok.1 h
    exact .escape (isDoubleQuoteEscape_iff.1 hc) (ih hs)
  | case6 c tail hlf hcr hc ih =>
    obtain ⟨cs, hs, rfl⟩ := Scan.prepend_eq_ok.1 h
    refine .backslash (fun hm => hc (isDoubleQuoteEscape_iff.2 hm)) (fun next hk => ?_) (ih hs)
    cases hk with
    | lineFeed => exact hlf rfl
    | carriageReturn => exact hcr _ rfl rfl
  | case7 => simp at h
  | case8 tail a after hd ih =>
    obtain ⟨cs, hs, rfl⟩ := Scan.prepend_eq_ok.1 h
    exact .dollar (dollar_sound hd) (ih hs)
  | case9 => simp at h
  | case10 c tail h1 h2 h3 h4 h5 h6 ih =>
    obtain ⟨cs, hs, rfl⟩ := Scan.prepend_eq_ok.1 h
    have hb : c ≠ '\\' := fun he => by
      cases tail with
      | nil => exact h5 he rfl
      | cons d tail => exact h4 d tail he rfl
    exact .plain (by simp [hb, show c ≠ '"' from h1, show c ≠ '$' from h6]) (ih hs)

/-- Where no continuation begins, the backslash stands before no line break. -/
theorem no_lineBreak_of_not_continuation {c : Char} {input : Text}
    (h : ∀ next, ¬ Continuation ('\\' :: c :: input) next) :
    c ≠ '\n' ∧ ∀ rest, c = '\r' → input ≠ '\n' :: rest := by
  constructor
  · rintro rfl
    exact h _ (.lineFeed input)
  · rintro rest rfl rfl
    exact h _ (.carriageReturn rest)

/-- Every string that the grammar derives between double quotes is scanned. -/
theorem doubleQuoted_complete (opening : Text) {input rest : Text} {as : List Atom}
    (h : DoubleQuoted input as rest) : doubleQuoted opening input = .ok (as, rest) := by
  -- by induction on the derivation: one case of the scan for each rule
  induction h with
  | close => rw [doubleQuoted]
  | continuation hk _ ih => cases hk <;> rw [doubleQuoted, ih]
  | escape hc _ ih =>
    have he := isDoubleQuoteEscape_iff.2 hc
    rw [doubleQuoted, if_pos he, ih]
    · rfl
    · rintro rfl
      exact absurd he (by decide)
    · rintro _ rfl
      exact absurd he (by decide)
  | backslash hc hk _ ih =>
    obtain ⟨hlf, hcr⟩ := no_lineBreak_of_not_continuation hk
    rw [doubleQuoted, if_neg (fun he => hc (isDoubleQuoteEscape_iff.1 he)), ih]
    · rfl
    · exact hlf
    · exact hcr
  | dollar hd _ ih =>
    rw [doubleQuoted]
    split
    · next a after he =>
      rw [dollar_complete hd, Except.ok.injEq, Prod.mk.injEq] at he
      obtain ⟨rfl, rfl⟩ := he
      rw [ih]
      rfl
    · next e he =>
      rw [dollar_complete hd] at he
      exact absurd he (by simp)
  | plain hc _ ih =>
    simp only [List.mem_cons, List.not_mem_nil, or_false, not_or] at hc
    obtain ⟨hq, hb, hd⟩ := hc
    rw [doubleQuoted, ih]
    · rfl
    all_goals simp [hq, hb, hd]

theorem ansiQuoted_escape {opening input cs next : Text}
    (h : ansiEscape opening input = .ok (cs, next)) :
    ansiQuoted opening ('\\' :: input) = (ansiQuoted opening next).prepend (cs.map .char) := by
  rw [ansiQuoted]
  split
  · next cs' next' hs =>
    rw [h, Except.ok.injEq, Prod.mk.injEq] at hs
    rw [hs.1, hs.2]
  · next e hs => exact absurd (hs.symm.trans h) (by simp)

theorem ansiQuoted_faultyEscape {opening input : Text} {e : Fault}
    (h : ansiEscape opening input = .error e) : ansiQuoted opening ('\\' :: input) = .error e := by
  rw [ansiQuoted]
  split
  · next cs next hs => exact absurd (hs.symm.trans h) (by simp)
  · next e' hs => rw [Except.error.inj (hs.symm.trans h)]

theorem ansiQuoted_plain {c : Char} (hc : c ∉ ['\'', '\\']) (opening input : Text) :
    ansiQuoted opening (c :: input) = (ansiQuoted opening input).prepend [.char c] := by
  simp only [List.mem_cons, List.not_mem_nil, or_false, not_or] at hc
  obtain ⟨hq, hb⟩ := hc
  rw [ansiQuoted]
  all_goals simp [hq, hb]

/-- A `$'...'` string that is scanned is derived by the grammar. -/
theorem ansiQuoted_sound {opening input rest : Text} {as : List Atom}
    (h : ansiQuoted opening input = .ok (as, rest)) : AnsiQuoted input as rest := by
  fun_induction ansiQuoted opening input generalizing as with
  | case1 => simp at h
  | case2 tail =>
    simp only [Except.ok.injEq, Prod.mk.injEq] at h
    obtain ⟨rfl, rfl⟩ := h
    exact .close _
  | case3 tail cs after he ih =>
    obtain ⟨ds, hs, rfl⟩ := Scan.prepend_eq_ok.1 h
    exact .escape (ansiEscape_sound he) (ih hs)
  | case4 => simp at h
  | case5 c tail hq hb ih =>
    obtain ⟨ds, hs, rfl⟩ := Scan.prepend_eq_ok.1 h
    exact .plain (by simp [show c ≠ '\'' from hq, show c ≠ '\\' from hb]) (ih hs)

/-- Every `$'...'` string that the grammar derives is scanned. -/
theorem ansiQuoted_complete (opening : Text) {input rest : Text} {as : List Atom}
    (h : AnsiQuoted input as rest) : ansiQuoted opening input = .ok (as, rest) := by
  induction h with
  | close => rw [ansiQuoted]
  | escape he _ ih =>
    rw [ansiQuoted_escape (ansiEscape_complete opening he), ih]
    rfl
  | plain hc _ ih =>
    rw [ansiQuoted_plain hc, ih]
    rfl

end Shell
end CurlScribe
