import CurlScribe.Proofs.Text.Runs
import CurlScribe.Shell.Fragment
import CurlScribe.Target.GoLiteral
import CurlScribe.Target.PythonLiteral
import CurlScribe.Target.RustLiteral

/-!
# Reading string literals

How Go, Python and Rust read the string literals that programs are written with. The readers are
those of the languages, not inverses of the quoting functions: they know escapes that no quoting
function uses, and they refuse what the languages refuse. What a language offers beyond this, such
as escapes for bytes, is refused as well.

The escapes that quoting needs are `basic` for each language. A literal is read back by every reader
that knows these, the one of the language among them.
-/

namespace CurlScribe

/-! ## Escapes -/

/-- The escapes of a language: letters that stand for a character, letters that a fixed number of
hexadecimal digits follow, and the letter that digits between braces follow. -/
structure Escapes where
  letters : List (Char × Char)
  widths : List (Char × Nat)
  braced : Option Char

namespace Escapes

/-- The character whose number the hexadecimal digits spell. -/
def numbered? (digits : Text) : Option Char :=
  (digits.mapM Text.hexValue?).bind fun ds => Shell.scalar? (Shell.ofDigits 16 ds)

/-- The character for exactly `n` digits. -/
def readFixed? (n : Nat) (input : Text) : Option (Char × Text) :=
  if (input.take n).length = n then (numbered? (input.take n)).map (·, input.drop n) else none

/-- The character for one to six digits between braces. -/
def readBraced? : Text → Option (Char × Text)
  | '\x7b' :: inside =>
    match Text.splitFirst (· == '\x7d') inside with
    | some (digits, after) =>
      if 0 < digits.length ∧ digits.length ≤ 6 then (numbered? digits).map (·, after) else none
    | none => none
  | _ => none

/-- The character for what follows a backslash, and the input after that. -/
def read? (E : Escapes) : Text → Option (Char × Text)
  | [] => none
  | c :: rest =>
    match E.letters.lookup c, E.widths.lookup c with
    | some d, _ => some (d, rest)
    | none, some n => readFixed? n rest
    | none, none => if E.braced = some c then readBraced? rest else none

theorem length_readFixed?_le {n : Nat} {input rest : Text} {c : Char}
    (h : readFixed? n input = some (c, rest)) : rest.length ≤ input.length := by
  unfold readFixed? at h
  split at h
  · obtain ⟨d, -, he⟩ := Option.map_eq_some_iff.1 h
    obtain ⟨-, rfl⟩ := Prod.mk.inj he
    rw [List.length_drop]
    omega
  · exact absurd h (by simp)

theorem length_readBraced?_le {input rest : Text} {c : Char}
    (h : readBraced? input = some (c, rest)) : rest.length ≤ input.length := by
  unfold readBraced? at h
  split at h
  · split at h
    · next digits after hs =>
      have hlt := Text.length_splitFirst_lt hs
      split at h
      · obtain ⟨d, -, he⟩ := Option.map_eq_some_iff.1 h
        obtain ⟨-, rfl⟩ := Prod.mk.inj he
        simp only [List.length_cons]
        omega
      · exact absurd h (by simp)
    · exact absurd h (by simp)
  · exact absurd h (by simp)

/-- An escape takes up characters. -/
theorem length_read?_lt {E : Escapes} {t rest : Text} {c : Char} (h : E.read? t = some (c, rest)) :
    rest.length < t.length := by
  unfold read? at h
  split at h
  · exact absurd h (by simp)
  · next e input =>
    rw [List.length_cons]
    split at h
    · obtain ⟨-, rfl⟩ := Prod.mk.inj (Option.some.inj h)
      omega
    · have := length_readFixed?_le h
      omega
    · split at h
      · have := length_readBraced?_le h
        omega
      · exact absurd h (by simp)

/-- Each escape of `E` is one of `F`, and stands for the same there. -/
structure IsPartOf (E F : Escapes) : Prop where
  letters : ∀ p ∈ E.letters, F.letters.lookup p.1 = some p.2
  widths : ∀ p ∈ E.widths, F.letters.lookup p.1 = none ∧ F.widths.lookup p.1 = some p.2
  braced : ∀ c ∈ E.braced.toList,
    F.letters.lookup c = none ∧ F.widths.lookup c = none ∧ F.braced = some c

instance (E F : Escapes) : Decidable (E.IsPartOf F) :=
  have := List.decidableBAll (fun p => F.letters.lookup p.1 = some p.2) E.letters
  have := List.decidableBAll
    (fun p => F.letters.lookup p.1 = none ∧ F.widths.lookup p.1 = some p.2) E.widths
  have := List.decidableBAll
    (fun c => F.letters.lookup c = none ∧ F.widths.lookup c = none ∧ F.braced = some c)
    E.braced.toList
  decidable_of_iff (_ ∧ _ ∧ _)
    ⟨fun ⟨hl, hw, hb⟩ => ⟨hl, hw, hb⟩, fun ⟨hl, hw, hb⟩ => ⟨hl, hw, hb⟩⟩

/-- What may stand behind a backslash for a character. -/
inductive Spells (E : Escapes) (c : Char) : Text → Prop
  | letter {e : Char} (hletter : E.letters.lookup e = some c) : E.Spells c [e]
  | fixed {e : Char} {n : Nat} {digits : Text} (hletter : E.letters.lookup e = none)
      (hwidth : E.widths.lookup e = some n) (hlength : digits.length = n)
      (hc : numbered? digits = some c) : E.Spells c (e :: digits)
  | braced {e : Char} {digits : Text} (hletter : E.letters.lookup e = none)
      (hwidth : E.widths.lookup e = none) (hbraced : E.braced = some e)
      (hlength : 0 < digits.length ∧ digits.length ≤ 6) (hc : numbered? digits = some c) :
      E.Spells c (e :: '\x7b' :: (digits ++ ['\x7d']))

/-- A number is read of hexadecimal digits only. -/
theorem isSome_hexValue?_of_numbered? {digits : Text} {c : Char}
    (h : numbered? digits = some c) : ∀ x ∈ digits, (Text.hexValue? x).isSome = true := by
  obtain ⟨values, hvalues, -⟩ := Option.bind_eq_some_iff.1 h
  clear h
  induction digits generalizing values with
  | nil => simp
  | cons x digits ih =>
    rw [List.mapM_cons] at hvalues
    obtain ⟨value, hvalue, hmore⟩ := Option.bind_eq_some_iff.1 hvalues
    obtain ⟨more, hmore, -⟩ := Option.bind_eq_some_iff.1 hmore
    refine List.forall_mem_cons.2 ⟨?_, ih more hmore⟩
    rw [hvalue]
    rfl

/-- As many digits as an escape takes are read in front of any rest. -/
theorem readFixed?_append {n : Nat} {digits : Text} {c : Char} (hlength : digits.length = n)
    (hc : numbered? digits = some c) (rest : Text) :
    readFixed? n (digits ++ rest) = some (c, rest) := by
  have htake : (digits ++ rest).take n = digits := List.take_left' hlength
  have hdrop : (digits ++ rest).drop n = rest := List.drop_left' hlength
  rw [readFixed?, htake, hdrop, if_pos hlength, hc]
  rfl

/-- Digits in braces are read in front of any rest. -/
theorem readBraced?_append {digits : Text} {c : Char}
    (hlength : 0 < digits.length ∧ digits.length ≤ 6) (hc : numbered? digits = some c)
    (rest : Text) : readBraced? ('\x7b' :: (digits ++ '\x7d' :: rest)) = some (c, rest) := by
  have hbrace : '\x7d' ∉ digits := by
    intro hmem
    exact absurd (isSome_hexValue?_of_numbered? hc _ hmem) (by decide)
  have hsplit : Text.splitFirst (· == '\x7d') (digits ++ '\x7d' :: rest) = some (digits, rest) :=
    Text.splitFirst_eq_some_iff.2 ⟨rfl, hbrace⟩
  unfold readBraced?
  simp only [hsplit]
  rw [if_pos hlength, hc]
  rfl

/-- A spelling is read as the character that it is for, whatever follows it. -/
theorem Spells.read? {E : Escapes} {c : Char} {t : Text} (h : E.Spells c t) (rest : Text) :
    E.read? (t ++ rest) = some (c, rest) := by
  cases h with
  | @letter e hletter =>
    show E.read? (e :: rest) = _
    rw [Escapes.read?, hletter]
  | @fixed e n digits hletter hwidth hlength hc =>
    show E.read? (e :: (digits ++ rest)) = _
    rw [Escapes.read?, hletter, hwidth]
    exact readFixed?_append hlength hc rest
  | @braced e digits hletter hwidth hbraced hlength hc =>
    have he : E.read? (e :: '\x7b' :: (digits ++ '\x7d' :: rest)) = some (c, rest) := by
      rw [Escapes.read?, hletter, hwidth]
      show (if E.braced = some e then _ else _) = _
      rw [if_pos hbraced]
      exact readBraced?_append hlength hc rest
    simpa using he

/-- What is looked up in a table is one of its entries. -/
theorem mem_of_lookup {α : Type} {entries : List (Char × α)} {c : Char} {a : α}
    (h : entries.lookup c = some a) : (c, a) ∈ entries := by
  obtain ⟨front, back, rfl, -⟩ := List.lookup_eq_some_iff.1 h
  exact List.mem_append_right front List.mem_cons_self

/-- What spells a character with some escapes spells it with more of them. -/
theorem IsPartOf.spells {E F : Escapes} (h : E.IsPartOf F) {c : Char} {t : Text}
    (ht : E.Spells c t) : F.Spells c t := by
  cases ht with
  | letter hletter => exact .letter (h.letters _ (mem_of_lookup hletter))
  | fixed _ hwidth hlength hc =>
    obtain ⟨hletter, hwidth⟩ := h.widths _ (mem_of_lookup hwidth)
    exact .fixed hletter hwidth hlength hc
  | braced _ _ hbraced hlength hc =>
    obtain ⟨hletter, hwidth, hbraced⟩ := h.braced _ (Option.mem_toList.2 hbraced)
    exact .braced hletter hwidth hbraced hlength hc

end Escapes

/-! ## Quoted literals -/

/-- How a language writes literals between quotes: the escapes, and the characters that may stand
without one. -/
structure Quoting where
  escapes : Escapes
  isPlain : Char → Bool

namespace Quoting

/-- The value of a literal that ends with the quote `d`, and the input after it. The opening quote
has been read. -/
def read? (Q : Quoting) (d : Char) : Text → Option (Text × Text)
  | [] => none
  | c :: rest =>
    if c = d then some ([], rest)
    else if c = '\\' then
      match _h : Q.escapes.read? rest with
      | none => none
      | some (e, after) => (read? Q d after).map fun (value, rest) => (e :: value, rest)
    else if Q.isPlain c then (read? Q d rest).map fun (value, rest) => (c :: value, rest)
    else none
termination_by input => input.length
decreasing_by
  · have := Escapes.length_read?_lt _h
    simp only [List.length_cons]
    omega
  · simp

variable {Q : Quoting} {d c : Char}

/-- A quote ends the literal. -/
theorem read?_close (rest : Text) : Q.read? d (d :: rest) = some ([], rest) := by
  rw [read?, if_pos rfl]

/-- A plain character stands for itself. -/
theorem read?_plain (hd : c ≠ d) (hb : c ≠ '\\') (hp : Q.isPlain c = true) (rest : Text) :
    Q.read? d (c :: rest) = (Q.read? d rest).map fun (value, rest) => (c :: value, rest) := by
  rw [read?, if_neg hd, if_neg hb, if_pos hp]

/-- An escape stands for what it is read as. -/
theorem read?_escape (hd : '\\' ≠ d) {t after : Text} (he : Q.escapes.read? t = some (c, after)) :
    Q.read? d ('\\' :: t) =
      (Q.read? d after).map fun (value, rest) => (c :: value, rest) := by
  rw [read?, if_neg hd, if_pos rfl]
  split
  · next hn => exact absurd (hn.symm.trans he) (by simp)
  · next e after' hs =>
    obtain ⟨rfl, rfl⟩ := Prod.mk.inj (Option.some.inj (hs.symm.trans he))
    rfl

/-- What may stand between two quotes `d` for a character: an escape, or the character itself. -/
inductive Spells (Q : Quoting) (d c : Char) : Text → Prop
  | escaped {t : Text} (ht : Q.escapes.Spells c t) : Q.Spells d c ('\\' :: t)
  | plain (hd : c ≠ d) (hb : c ≠ '\\') (hp : Q.isPlain c = true) : Q.Spells d c [c]

theorem Spells.read? (hd : '\\' ≠ d) {t : Text} (h : Q.Spells d c t) (rest : Text) :
    Q.read? d (t ++ rest) = (Q.read? d rest).map fun (value, rest) => (c :: value, rest) := by
  cases h with
  | escaped ht => exact read?_escape hd (ht.read? rest)
  | plain hc hb hp => exact read?_plain hc hb hp rest

/-- A spelling does not begin with the quote. -/
theorem Spells.eq_cons (hd : '\\' ≠ d) {t : Text} (h : Q.Spells d c t) :
    ∃ e more, t = e :: more ∧ e ≠ d := by
  cases h with
  | escaped => exact ⟨_, _, rfl, hd⟩
  | plain hc => exact ⟨_, _, rfl, hc⟩

/-- A text is read back if each of its characters is spelled. -/
theorem read?_flatMap (hd : '\\' ≠ d) {spell : Char → Text} (h : ∀ c, Q.Spells d c (spell c))
    (t rest : Text) : Q.read? d (t.flatMap spell ++ d :: rest) = some (t, rest) := by
  induction t with
  | nil => exact read?_close rest
  | cons c t ih =>
    rw [List.flatMap_cons, List.append_assoc, (h c).read? hd, ih]
    rfl

/-- A reader that knows the escapes of another, and lets the same characters stand. -/
structure IsPartOf (Q R : Quoting) : Prop where
  escapes : Q.escapes.IsPartOf R.escapes
  isPlain : ∀ c, Q.isPlain c = true → R.isPlain c = true

/-- A reader that knows the escapes of another is more than it if the other refuses the characters
that it refuses itself. -/
theorem isPartOf_of_refused {R : Quoting} (hescapes : Q.escapes.IsPartOf R.escapes)
    (refused : List Char) (hR : ∀ c, R.isPlain c = false → c ∈ refused)
    (hQ : refused.any Q.isPlain = false) : Q.IsPartOf R where
  escapes := hescapes
  isPlain c hplain := by
    by_contra hc
    exact List.any_eq_false.1 hQ c (hR c (Bool.eq_false_iff.2 hc)) hplain

/-- What spells a character for one reader spells it for one that knows more. -/
theorem IsPartOf.spells {R : Quoting} (h : Q.IsPartOf R) {t : Text} (ht : Q.Spells d c t) :
    R.Spells d c t := by
  cases ht with
  | escaped ht => exact .escaped (h.escapes.spells ht)
  | plain hd hb hp => exact .plain hd hb (h.isPlain c hp)

theorem length_read?_lt {t value rest : Text} (h : Q.read? d t = some (value, rest)) :
    rest.length < t.length := by
  fun_induction Q.read? d t generalizing value with
  | case1 => exact absurd h (by simp)
  | case2 rest' =>
    obtain ⟨-, rfl⟩ := Prod.mk.inj (Option.some.inj h)
    simp
  | case3 => exact absurd h (by simp)
  | case4 rest' e after he _ ih =>
    obtain ⟨⟨v, r⟩, hr, heq⟩ := Option.map_eq_some_iff.1 h
    obtain ⟨-, rfl⟩ := Prod.mk.inj heq
    have hlt := Escapes.length_read?_lt he
    have := ih hr
    simp only [List.length_cons]
    omega
  | case5 c rest' _ _ _ ih =>
    obtain ⟨⟨v, r⟩, hr, heq⟩ := Option.map_eq_some_iff.1 h
    obtain ⟨-, rfl⟩ := Prod.mk.inj heq
    have := ih hr
    simp only [List.length_cons]
    omega
  | case6 => exact absurd h (by simp)

end Quoting

/-! ## Control characters in hexadecimal -/

/-- Control characters are among the first 160. -/
theorem toNat_lt_of_isControl {c : Char} (h : Text.isControl c = true) : c.toNat < 0xA0 := by
  simp only [Text.isControl, Bool.or_eq_true, Bool.and_eq_true, decide_eq_true_eq] at h
  omega

/-- A small number is read back from the digits that are written for it. -/
theorem numbered?_hex : ∀ n < 0xA0,
    (Escapes.numbered? (Text.hex 1 n) = some (Char.ofNat n) ∧
      0 < (Text.hex 1 n).length ∧ (Text.hex 1 n).length ≤ 6) ∧
    (Escapes.numbered? (Text.hex 2 n) = some (Char.ofNat n) ∧ (Text.hex 2 n).length = 2) ∧
    (Escapes.numbered? (Text.hex 4 n) = some (Char.ofNat n) ∧ (Text.hex 4 n).length = 4) := by
  decide +kernel

/-- A control character is read back from its number in hexadecimal, with and without zeros in
front. -/
theorem numbered?_hex_of_isControl {c : Char} (h : Text.isControl c = true) :
    (Escapes.numbered? (Text.hex 1 c.toNat) = some c ∧
      0 < (Text.hex 1 c.toNat).length ∧ (Text.hex 1 c.toNat).length ≤ 6) ∧
    (Escapes.numbered? (Text.hex 2 c.toNat) = some c ∧ (Text.hex 2 c.toNat).length = 2) ∧
    (Escapes.numbered? (Text.hex 4 c.toNat) = some c ∧ (Text.hex 4 c.toNat).length = 4) := by
  have hn := numbered?_hex c.toNat (toNat_lt_of_isControl h)
  rw [Char.ofNat_toNat] at hn
  exact hn

/-! ## Go -/

namespace GoLiteral

def quoting : Quoting where
  escapes := {
    letters := [('a', '\x07'), ('b', '\x08'), ('f', '\x0c'), ('n', '\n'), ('r', '\r'),
      ('t', '\t'), ('v', '\x0b'), ('\\', '\\'), ('"', '"')]
    widths := [('u', 4), ('U', 8)]
    braced := none }
  isPlain c := c != '\n' && c != byteOrderMark && c != '\x00'

/-- The escapes that quoting needs. -/
def basic : Quoting where
  escapes := {
    letters := [('"', '"'), ('\\', '\\'), ('n', '\n'), ('r', '\r'), ('t', '\t')]
    widths := [('u', 4)]
    braced := none }
  isPlain c := c != byteOrderMark && !Text.isControl c

theorem isPartOf_quoting : basic.IsPartOf quoting :=
  Quoting.isPartOf_of_refused (by decide) ['\n', byteOrderMark, '\x00']
    (fun c => by grind [quoting]) (by decide)

/-- The value of a literal between back quotes, the first of which has been read. Carriage returns
are not part of it. -/
def readRaw? (input : Text) : Option (Text × Text) :=
  match Text.splitFirst (· == '\x60') input with
  | some (inside, rest) =>
    if inside.all fun c => c != byteOrderMark && c != '\x00' then
      some (inside.filter (· != '\r'), rest)
    else none
  | none => none

/-- The value of the literal that the input begins with, and the input after it. -/
def read? : Text → Option (Text × Text)
  | '"' :: rest => quoting.read? '"' rest
  | '\x60' :: rest => readRaw? rest
  | _ => none

/-- The same for a reader with other escapes between double quotes. -/
def readBy? (Q : Quoting) : Text → Option (Text × Text)
  | '"' :: rest => Q.read? '"' rest
  | '\x60' :: rest => readRaw? rest
  | _ => none

theorem readBy?_quoting (t : Text) : readBy? quoting t = read? t := rfl

theorem length_read?_lt {t value rest : Text} (h : read? t = some (value, rest)) :
    rest.length < t.length := by
  unfold read? at h
  split at h
  · have := Quoting.length_read?_lt h
    simp only [List.length_cons]
    omega
  · unfold readRaw? at h
    split at h
    · next inside after hs =>
      have hlt := Text.length_splitFirst_lt hs
      split at h
      · obtain ⟨-, rfl⟩ := Prod.mk.inj (Option.some.inj h)
        simp only [List.length_cons]
        omega
      · exact absurd h (by simp)
    · exact absurd h (by simp)
  · exact absurd h (by simp)

theorem spells_escape (c : Char) : basic.Spells '"' c (escape c) := by
  have hletter {e : Char} (h : basic.escapes.letters.lookup e = some c) :
      basic.Spells '"' c ['\\', e] := .escaped (.letter h)
  -- characters that a letter stands for, then those that are numbered, then all others
  unfold escape
  split
  · next h => subst h; exact hletter (by decide)
  split
  · next h => subst h; exact hletter (by decide)
  split
  · next h => subst h; exact hletter (by decide)
  split
  · next h => subst h; exact hletter (by decide)
  split
  · next h => subst h; exact hletter (by decide)
  split
  · next hc =>
    -- the byte order mark is the only character above the control characters that is numbered
    obtain ⟨hnumber, hlength⟩ : Escapes.numbered? (Text.hex 4 c.toNat) = some c ∧
        (Text.hex 4 c.toNat).length = 4 := by
      rcases Bool.or_eq_true_iff.1 hc with hmark | hcontrol
      · obtain rfl : c = byteOrderMark := by simpa using hmark
        decide
      · exact (numbered?_hex_of_isControl hcontrol).2.2
    exact .escaped (.fixed (by decide) (by decide) hlength hnumber)
  · next hquote hback _ _ _ hc => exact .plain hquote hback (by simpa [basic] using hc)

/-- The two forms of a literal. The raw one is for texts that hold no character it cannot hold. -/
theorem quote_cases (t : Text) :
    ((∀ c ∈ t, needsEscape c = false) ∧ quote t = ['\x60'] ++ t ++ ['\x60']) ∨
      quote t = '"' :: (t.flatMap escape ++ ['"']) := by
  unfold quote
  split
  · next h =>
    have hany : t.any needsEscape = false := by
      simpa using (Bool.and_eq_true_iff.1 h).2
    refine .inl ⟨?_, rfl⟩
    intro c hc
    simpa using List.any_eq_false.1 hany c hc
  · exact .inr rfl

/-- A literal is read back whatever follows it. -/
theorem readBy?_quote {Q : Quoting} (hQ : basic.IsPartOf Q) (t rest : Text) :
    readBy? Q (quote t ++ rest) = some (t, rest) := by
  rcases quote_cases t with ⟨hraw, hquote⟩ | hquote
  · have hne {c d : Char} (hc : c ∈ t) (hd : needsEscape d = true) : c ≠ d := by
      rintro rfl
      exact absurd (hraw c hc) (by simp [hd])
    -- the first back quote is the one behind the text
    have hsplit : Text.splitFirst (· == '\x60') (t ++ '\x60' :: rest) = some (t, rest) := by
      refine Text.splitFirst_eq_some_iff.2 ⟨rfl, ?_⟩
      intro hm
      exact hne hm (by decide) rfl
    have hall : (t.all fun c => c != byteOrderMark && c != '\x00') = true := by
      rw [List.all_eq_true]
      intro c hc
      simp [hne hc (by decide : needsEscape byteOrderMark = true),
        hne hc (by decide : needsEscape '\x00' = true)]
    -- no carriage return is there to be left out
    have hfilter : t.filter (· != '\r') = t := by
      rw [List.filter_eq_self]
      intro c hc
      simp [hne hc (by decide : needsEscape '\r' = true)]
    rw [hquote, List.append_assoc, List.append_assoc]
    show readRaw? (t ++ '\x60' :: rest) = _
    rw [readRaw?, hsplit]
    simp only [hall, if_true, hfilter]
  · rw [hquote]
    show Q.read? '"' ((t.flatMap escape ++ ['"']) ++ rest) = _
    rw [List.append_assoc]
    exact Quoting.read?_flatMap (by decide) (fun c => hQ.spells (spells_escape c)) t rest

theorem read?_quote (t rest : Text) : read? (quote t ++ rest) = some (t, rest) := by
  rw [← readBy?_quoting]
  exact readBy?_quote isPartOf_quoting t rest

end GoLiteral

/-! ## Python -/

namespace PythonLiteral

def quoting : Quoting where
  escapes := {
    letters := [('\\', '\\'), ('\'', '\''), ('"', '"'), ('a', '\x07'), ('b', '\x08'), ('f', '\x0c'),
      ('n', '\n'), ('r', '\r'), ('t', '\t'), ('v', '\x0b')]
    widths := [('x', 2), ('u', 4), ('U', 8)]
    braced := none }
  isPlain c := c != '\n' && c != '\r' && c != '\x00'

/-- The escapes that quoting needs. -/
def basic : Quoting where
  escapes := {
    letters := [('\\', '\\'), ('\'', '\''), ('"', '"'), ('n', '\n'), ('r', '\r'), ('t', '\t')]
    widths := [('x', 2)]
    braced := none }
  isPlain c := !Text.isControl c

theorem isPartOf_quoting : basic.IsPartOf quoting :=
  Quoting.isPartOf_of_refused (by decide) ['\n', '\r', '\x00']
    (fun c => by grind [quoting]) (by decide)

/-- A quote of either kind. -/
def isQuote (c : Char) : Bool := c == '\'' || c == '"'

/-- The value of the literal that the input begins with, and the input after it. Three quotes begin
a literal of another form. -/
def read? : Text → Option (Text × Text)
  | [] => none
  | d :: rest =>
    if isQuote d && rest.take 2 != [d, d] then quoting.read? d rest else none

/-- The same for a reader with other escapes. -/
def readBy? (Q : Quoting) : Text → Option (Text × Text)
  | [] => none
  | d :: rest => if isQuote d && rest.take 2 != [d, d] then Q.read? d rest else none

theorem readBy?_quoting (t : Text) : readBy? quoting t = read? t := rfl

theorem length_read?_lt {t value rest : Text} (h : read? t = some (value, rest)) :
    rest.length < t.length := by
  unfold read? at h
  split at h
  · exact absurd h (by simp)
  · split at h
    · have := Quoting.length_read?_lt h
      simp only [List.length_cons]
      omega
    · exact absurd h (by simp)

/-- A literal is put in quotes of one of both kinds. -/
theorem isQuote_delimiter (t : Text) : isQuote (delimiter t) = true := by
  unfold delimiter
  split <;> rfl

theorem backslash_ne {d : Char} (hd : isQuote d = true) : '\\' ≠ d := by
  rintro rfl
  exact absurd hd (by decide)

theorem spells_escape {d : Char} (hd : isQuote d = true) (c : Char) :
    basic.Spells d c (escape d c) := by
  have hletter {e : Char} (h : basic.escapes.letters.lookup e = some c) :
      basic.Spells d c ['\\', e] := .escaped (.letter h)
  unfold escape
  split
  · next h => subst h; exact hletter (by decide)
  split
  · next h => subst h; exact hletter (by decide)
  split
  · next h => subst h; exact hletter (by decide)
  split
  · next h => subst h; exact hletter (by decide)
  split
  · next h =>
    -- the quote itself stands behind the backslash, whichever of the two it is
    subst h
    rcases Bool.or_eq_true_iff.1 hd with hq | hq
    · rw [beq_iff_eq.1 hq] at hletter ⊢
      exact hletter (by decide)
    · rw [beq_iff_eq.1 hq] at hletter ⊢
      exact hletter (by decide)
  split
  · next hc =>
    obtain ⟨hnumber, hlength⟩ := (numbered?_hex_of_isControl hc).2.1
    exact .escaped (.fixed (by decide) (by decide) hlength hnumber)
  · next hback _ _ _ hquote hc => exact .plain hquote hback (by simpa [basic] using hc)

/-- A literal is read back if no quote follows it, which might make it begin with three quotes. -/
theorem readBy?_quote {Q : Quoting} (hQ : basic.IsPartOf Q) (t : Text) {rest : Text}
    (h : ∀ c ∈ rest.head?, isQuote c = false) : readBy? Q (quote t ++ rest) = some (t, rest) := by
  have hd := isQuote_delimiter t
  have hbody := Quoting.read?_flatMap (backslash_ne hd) (fun c => hQ.spells (spells_escape hd c))
    t rest
  have hthree : ((t.flatMap (escape (delimiter t)) ++ delimiter t :: rest).take 2 !=
      [delimiter t, delimiter t]) = true := by
    rw [bne_iff_ne]
    generalize delimiter t = d at hd
    intro htake
    cases t with
    | nil =>
      cases rest with
      | nil => exact absurd (congrArg List.length htake) (by simp)
      | cons e rest =>
        have he : e = d := by simpa using htake
        exact absurd hd (by rw [← he, h e rfl]; simp)
    | cons c t =>
      obtain ⟨e, more, hescape, he⟩ := (spells_escape hd c).eq_cons (backslash_ne hd)
      rw [List.flatMap_cons, hescape] at htake
      exact he (List.cons.inj htake).1
  show readBy? Q (delimiter t :: ((t.flatMap (escape (delimiter t)) ++ [delimiter t]) ++ rest)) = _
  rw [List.append_assoc, List.singleton_append, readBy?, hd, hthree]
  exact hbody

theorem read?_quote (t : Text) {rest : Text} (h : ∀ c ∈ rest.head?, isQuote c = false) :
    read? (quote t ++ rest) = some (t, rest) := by
  rw [← readBy?_quoting]
  exact readBy?_quote isPartOf_quoting t h

end PythonLiteral

/-! ## Rust -/

namespace RustLiteral

def quoting : Quoting where
  escapes := {
    letters := [('n', '\n'), ('r', '\r'), ('t', '\t'), ('\\', '\\'), ('0', '\x00'), ('\'', '\''),
      ('"', '"')]
    widths := []
    braced := some 'u' }
  isPlain c := c != '\r'

/-- The escapes that quoting needs. -/
def basic : Quoting where
  escapes := {
    letters := [('"', '"'), ('\\', '\\'), ('n', '\n'), ('r', '\r'), ('t', '\t')]
    widths := []
    braced := some 'u' }
  isPlain c := !Text.isControl c

theorem isPartOf_quoting : basic.IsPartOf quoting :=
  Quoting.isPartOf_of_refused (by decide) ['\r']
    (fun c => by grind [quoting]) (by decide)

/-- The value of a raw literal whose opening has been read: it ends where a quote and a number sign
stand for the first time. -/
def readRaw? (input : Text) : Option (Text × Text) :=
  match Text.splitAround ['"', '#'] input with
  | some (inside, rest) => if inside.contains '\r' then none else some (inside, rest)
  | none => none

/-- The value of the literal that the input begins with, and the input after it. -/
def read? : Text → Option (Text × Text)
  | '"' :: rest => quoting.read? '"' rest
  | 'r' :: '#' :: '"' :: rest => readRaw? rest
  | _ => none

/-- The same for a reader with other escapes between double quotes. -/
def readBy? (Q : Quoting) : Text → Option (Text × Text)
  | '"' :: rest => Q.read? '"' rest
  | 'r' :: '#' :: '"' :: rest => readRaw? rest
  | _ => none

theorem readBy?_quoting (t : Text) : readBy? quoting t = read? t := rfl

theorem length_read?_lt {t value rest : Text} (h : read? t = some (value, rest)) :
    rest.length < t.length := by
  unfold read? at h
  split at h
  · have := Quoting.length_read?_lt h
    simp only [List.length_cons]
    omega
  · next input =>
    unfold readRaw? at h
    split at h
    · next inside after hs =>
      have ht := Text.splitAround_eq_some hs
      split at h
      · exact absurd h (by simp)
      · obtain ⟨-, rfl⟩ := Prod.mk.inj (Option.some.inj h)
        rw [ht]
        simp only [List.length_cons, List.length_append]
        omega
    · exact absurd h (by simp)
  · exact absurd h (by simp)

theorem spells_escape (c : Char) : basic.Spells '"' c (escape c) := by
  have hletter {e : Char} (h : basic.escapes.letters.lookup e = some c) :
      basic.Spells '"' c ['\\', e] := .escaped (.letter h)
  unfold escape
  split
  · next h => subst h; exact hletter (by decide)
  split
  · next h => subst h; exact hletter (by decide)
  split
  · next h => subst h; exact hletter (by decide)
  split
  · next h => subst h; exact hletter (by decide)
  split
  · next h => subst h; exact hletter (by decide)
  split
  · next hc =>
    obtain ⟨hnumber, hlength⟩ := (numbered?_hex_of_isControl hc).1
    exact .escaped (.braced (by decide) (by decide) rfl hlength hnumber)
  · next hquote hback _ _ _ hc => exact .plain hquote hback (by simpa [basic] using hc)

/-- The two forms of a literal. The raw one is for texts in which it would not end early, and which
hold no control characters but line ends and tabs. -/
theorem quote_cases (t : Text) :
    (¬['"', '#'] <:+: t ∧ (∀ c ∈ t, needsEscape c = false) ∧
        quote t = ['r', '#', '"'] ++ t ++ ['"', '#']) ∨
      quote t = '"' :: (t.flatMap escape ++ ['"']) := by
  unfold quote
  split
  · next h =>
    obtain ⟨hhash, hany⟩ := Bool.and_eq_true_iff.1 (Bool.and_eq_true_iff.1 h).2
    refine .inl ⟨?_, ?_, rfl⟩
    · rw [← Text.hasInfix_eq_true_iff]
      simpa using hhash
    · intro c hc
      simpa using List.any_eq_false.1 (by simpa using hany : t.any needsEscape = false) c hc
  · exact .inr rfl

/-- A literal is read back whatever follows it. -/
theorem readBy?_quote {Q : Quoting} (hQ : basic.IsPartOf Q) (t rest : Text) :
    readBy? Q (quote t ++ rest) = some (t, rest) := by
  rcases quote_cases t with ⟨hend, hraw, hquote⟩ | hquote
  · have hreturn : ¬ t.contains '\r' = true := by
      intro hc
      exact absurd (hraw '\r' (by simpa using hc)) (by decide)
    -- a quote at the end of the text and the one behind it are no end
    have hsplit : Text.splitAround ['"', '#'] (t ++ '"' :: '#' :: rest) = some (t, rest) :=
      Text.splitAround_pair (by decide) hend rest
    rw [hquote, List.append_assoc, List.append_assoc]
    show readRaw? (t ++ '"' :: '#' :: rest) = _
    rw [readRaw?, hsplit]
    exact if_neg hreturn
  · rw [hquote]
    show Q.read? '"' ((t.flatMap escape ++ ['"']) ++ rest) = _
    rw [List.append_assoc]
    exact Quoting.read?_flatMap (by decide) (fun c => hQ.spells (spells_escape c)) t rest

theorem read?_quote (t rest : Text) : read? (quote t ++ rest) = some (t, rest) := by
  rw [← readBy?_quoting]
  exact readBy?_quote isPartOf_quoting t rest

end RustLiteral
end CurlScribe
