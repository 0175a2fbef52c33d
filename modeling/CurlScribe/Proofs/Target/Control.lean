import CurlScribe.Proofs.Target.Phrase

/-!
# Control characters in generated code

Literals hold no control character but line ends and tabs, and those only where the form of the
literal takes text as it is: what spells a character elsewhere is made of characters that need no
escapes themselves. The fixed text that lexes holds no others either. In Python not even these stand
in a literal, so that a line of code is a line of the source.
-/

namespace CurlScribe

/-- A control character that a source may contain. -/
def Text.isLayout (c : Char) : Bool := c == '\n' || c == '\t'

/-- A text whose control characters are line ends and tabs. -/
def Text.IsTidy (t : Text) : Prop := ∀ c ∈ t, Text.isControl c = true → Text.isLayout c = true

/-- A text without control characters. -/
def Text.IsVisible (t : Text) : Prop := ∀ c ∈ t, Text.isControl c = false

instance (t : Text) : Decidable (Text.IsVisible t) :=
  List.decidableBAll (fun c => Text.isControl c = false) t

namespace Text

theorem IsVisible.isTidy {t : Text} (h : t.IsVisible) : t.IsTidy :=
  fun c hc hcontrol => absurd (h c hc) (by simp [hcontrol])

theorem isTidy_append {s t : Text} : IsTidy (s ++ t) ↔ s.IsTidy ∧ t.IsTidy :=
  List.forall_mem_append

theorem isVisible_append {s t : Text} : IsVisible (s ++ t) ↔ s.IsVisible ∧ t.IsVisible :=
  List.forall_mem_append

theorem isVisible_cons {c : Char} {t : Text} :
    IsVisible (c :: t) ↔ isControl c = false ∧ t.IsVisible := List.forall_mem_cons

/-- A visible text with an end behind it is a line. -/
theorem lines_append {t : Text} (h : t.IsVisible) (rest : Text) :
    lines (t ++ '\n' :: rest) = t :: lines rest := by
  induction t with
  | nil => rfl
  | cons c t ih =>
    obtain ⟨hc, ht⟩ := isVisible_cons.1 h
    have hfeed : c ≠ '\n' := by
      rintro rfl
      exact absurd hc (by decide)
    have hreturn : c ≠ '\r' := by
      rintro rfl
      exact absurd hc (by decide)
    rw [List.cons_append, lines, ih ht]
    · exact hfeed
    · intro _ hc
      exact absurd hc hreturn

/-- The characters of ASCII from the space to the tilde are visible. -/
theorem isControl_eq_false {c : Char} (h : 0x20 ≤ c.toNat ∧ c.toNat < 0x7F) :
    isControl c = false := by
  simp only [isControl, Bool.or_eq_false_iff, Bool.and_eq_false_imp, decide_eq_false_iff_not,
    decide_eq_true_eq]
  omega

/-- Letters, digits and the underscore are visible. -/
theorem isControl_of_isNameChar {c : Char} (h : isNameChar c = true) : isControl c = false := by
  have hupper (hc : c.isUpper = true) : 65 ≤ c.toNat ∧ c.toNat ≤ 90 := of_decide_eq_true hc
  have hlower (hc : c.isLower = true) : 97 ≤ c.toNat ∧ c.toNat ≤ 122 := by
    obtain ⟨hl, hu⟩ := Bool.and_eq_true_iff.1 hc
    exact ⟨of_decide_eq_true hl, of_decide_eq_true hu⟩
  apply isControl_eq_false
  rcases Bool.or_eq_true_iff.1 h with h | h
  · rcases Bool.or_eq_true_iff.1 h with h | h
    · rcases Bool.or_eq_true_iff.1 h with h | h
      · have := hupper h
        omega
      · have := hlower h
        omega
    · have := toNat_of_isDigit h
      omega
  · obtain rfl := beq_iff_eq.1 h
    decide

/-- Hexadecimal digits are visible characters of ASCII. -/
theorem toNat_of_hexValue? {c : Char} (h : (hexValue? c).isSome = true) :
    0x20 ≤ c.toNat ∧ c.toNat < 0x7F := by
  obtain ⟨d, hd⟩ := Option.isSome_iff_exists.1 h
  have hrange := hexValue?_cases hd
  omega

end Text

/-! ## Literals -/

/-- The characters that escapes may use besides digits. -/
def Escapes.marks (E : Escapes) : Text :=
  '\x7b' :: '\x7d' :: (E.letters.map Prod.fst ++ E.widths.map Prod.fst ++ E.braced.toList)

/-- What spells a character is made of digits and of these. -/
theorem Escapes.Spells.forall_mem {E : Escapes} {c : Char} {t : Text} (h : E.Spells c t)
    {p : Char → Bool} (hmarks : ∀ x ∈ E.marks, p x = true)
    (hdigits : ∀ x, (Text.hexValue? x).isSome = true → p x = true) : ∀ x ∈ t, p x = true := by
  have hspelled {digits : Text} (hc : numbered? digits = some c) : ∀ x ∈ digits, p x = true :=
    fun x hx => hdigits x (isSome_hexValue?_of_numbered? hc x hx)
  cases h with
  | letter hletter =>
    have hmem := List.mem_map_of_mem (f := Prod.fst) (mem_of_lookup hletter)
    exact List.forall_mem_cons.2 ⟨hmarks _ (by simp [marks, hmem]), by simp⟩
  | fixed _ hwidth _ hc =>
    have hmem := List.mem_map_of_mem (f := Prod.fst) (mem_of_lookup hwidth)
    exact List.forall_mem_cons.2 ⟨hmarks _ (by simp [marks, hmem]), hspelled hc⟩
  | braced _ _ hbraced _ hc =>
    refine List.forall_mem_cons.2 ⟨hmarks _ (by simp [marks, hbraced]), ?_⟩
    refine List.forall_mem_cons.2 ⟨hmarks _ (by simp [marks]), ?_⟩
    refine List.forall_mem_append.2 ⟨hspelled hc, ?_⟩
    exact List.forall_mem_cons.2 ⟨hmarks _ (by simp [marks]), by simp⟩

namespace Quoting

/-- Is what escapes are made of among the characters that may stand without an escape? -/
structure IsClosed (Q : Quoting) : Prop where
  marks : ∀ x ∈ '\\' :: Q.escapes.marks, Q.isPlain x = true
  digits : ∀ x, (Text.hexValue? x).isSome = true → Q.isPlain x = true

theorem Spells.forall_isPlain {Q : Quoting} (hQ : Q.IsClosed) {d c : Char} {t : Text}
    (h : Q.Spells d c t) : ∀ x ∈ t, Q.isPlain x = true := by
  obtain ⟨hback, hmarks⟩ := List.forall_mem_cons.1 hQ.marks
  cases h with
  | escaped ht => exact List.forall_mem_cons.2 ⟨hback, ht.forall_mem hmarks hQ.digits⟩
  | plain _ _ hp => exact List.forall_mem_cons.2 ⟨hp, by simp⟩

/-- What stands between the quotes needs no escapes itself. -/
theorem forall_isPlain_flatMap {Q : Quoting} (hQ : Q.IsClosed) {d : Char} {spell : Char → Text}
    (h : ∀ c, Q.Spells d c (spell c)) (t : Text) : ∀ x ∈ t.flatMap spell, Q.isPlain x = true := by
  intro x hx
  obtain ⟨c, -, hx⟩ := List.mem_flatMap.1 hx
  exact (h c).forall_isPlain hQ x hx

end Quoting

theorem isVisible_singleton {c : Char} (h : ¬Text.isControl c = true) : Text.IsVisible [c] :=
  Text.isVisible_cons.2 ⟨Bool.eq_false_iff.2 h, by simp [Text.IsVisible]⟩

/-- A visible text between two quotes. -/
theorem isVisible_between {d : Char} (hd : Text.isControl d = false) {t : Text}
    (h : t.IsVisible) : Text.IsVisible (d :: (t ++ [d])) :=
  Text.isVisible_cons.2 ⟨hd, Text.isVisible_append.2 ⟨h, isVisible_singleton (by simp [hd])⟩⟩

/-- A tidy text between texts that are visible. -/
theorem isTidy_between {a b : Text} (ha : a.IsVisible) (hb : b.IsVisible) {t : Text}
    (h : t.IsTidy) : Text.IsTidy (a ++ t ++ b) :=
  Text.isTidy_append.2 ⟨Text.isTidy_append.2 ⟨ha.isTidy, h⟩, hb.isTidy⟩

namespace GoLiteral

theorem isClosed_basic : basic.IsClosed where
  marks := List.all_eq_true.1 (by decide)
  digits c h := by
    have hrange := Text.toNat_of_hexValue? h
    have hmark : c ≠ byteOrderMark := by
      rintro rfl
      exact absurd h (by decide)
    simp [basic, hmark, Text.isControl_eq_false hrange]

/-- Between double quotes there are visible characters only, and no byte order mark. -/
theorem forall_isPlain_escape (t : Text) : ∀ c ∈ t.flatMap escape, basic.isPlain c = true :=
  Quoting.forall_isPlain_flatMap isClosed_basic spells_escape t

theorem isTidy_quote (t : Text) : Text.IsTidy (quote t) := by
  rcases quote_cases t with ⟨hraw, hquote⟩ | hquote
  · have hinside : Text.IsTidy t := by
      intro c hc hcontrol
      have hneeds := hraw c hc
      simp [needsEscape, hcontrol] at hneeds
      simpa [Text.isLayout, Classical.or_iff_not_imp_left] using hneeds.2
    have hback : Text.IsVisible ['\x60'] := by decide
    rw [hquote]
    exact isTidy_between hback hback hinside
  · have hinside : Text.IsVisible (t.flatMap escape) := by
      intro c hc
      simpa using (Bool.and_eq_true_iff.1 (forall_isPlain_escape t c hc)).2
    rw [hquote]
    exact (isVisible_between (by decide) hinside).isTidy

end GoLiteral

namespace PythonLiteral

theorem isClosed_basic : basic.IsClosed where
  marks := List.all_eq_true.1 (by decide)
  digits c h := by simp [basic, Text.isControl_eq_false (Text.toNat_of_hexValue? h)]

theorem isVisible_quote (t : Text) : Text.IsVisible (quote t) := by
  have hquote := isQuote_delimiter t
  have hd : Text.isControl (delimiter t) = false := by
    unfold delimiter
    split
    · decide
    · decide
  have hinside : Text.IsVisible (t.flatMap (escape (delimiter t))) := by
    intro c hc
    have hplain := Quoting.forall_isPlain_flatMap isClosed_basic (spells_escape hquote) t c hc
    simpa [basic] using hplain
  exact isVisible_between hd hinside

end PythonLiteral

namespace RustLiteral

theorem isClosed_basic : basic.IsClosed where
  marks := List.all_eq_true.1 (by decide)
  digits c h := by simp [basic, Text.isControl_eq_false (Text.toNat_of_hexValue? h)]

theorem isTidy_quote (t : Text) : Text.IsTidy (quote t) := by
  rcases quote_cases t with ⟨-, hraw, hquote⟩ | hquote
  · have hinside : Text.IsTidy t := by
      intro c hc hcontrol
      have hneeds := hraw c hc
      simpa [needsEscape, hcontrol, Text.isLayout, Classical.or_iff_not_imp_left] using hneeds
    have hopen : Text.IsVisible ['r', '#', '"'] := by decide
    have hclose : Text.IsVisible ['"', '#'] := by decide
    rw [hquote]
    exact isTidy_between hopen hclose hinside
  · have hinside : Text.IsVisible (t.flatMap escape) := by
      intro c hc
      have hplain := Quoting.forall_isPlain_flatMap isClosed_basic spells_escape t c hc
      simpa [basic] using hplain
    rw [hquote]
    exact (isVisible_between (by decide) hinside).isTidy

end RustLiteral

/-! ## Code -/

namespace Target

theorem isLayout_of_mark? {c : Char} (h : (mark? c).isSome = true)
    (hc : Text.isControl c = true) : Text.isLayout c = true := by
  unfold mark? at h
  split at h
  · next hl =>
    have hmem : c ∈ [' ', '\n', '\t'] := List.contains_iff_mem.1 hl
    simp only [List.mem_cons, List.not_mem_nil, or_false] at hmem
    rcases hmem with rfl | rfl | rfl
    · exact absurd hc (by decide)
    · rfl
    · rfl
  · split at h
    · next hp =>
      have hall : Text.IsVisible "()[]\x7b\x7d<>.,:;=+-&!?".toList := by decide
      exact absurd hc (by simp [hall c (List.contains_iff_mem.1 hp)])
    · exact absurd h (by simp)

/-- A control character that may stand where it stands is a line end or a tab. -/
theorem isLayout_of_next {place next : Place} {c : Char}
    (h : place.next (.char c) = some next) (hc : Text.isControl c = true) :
    Text.isLayout c = true := by
  rcases next_char h with ⟨-, ⟨-, hs⟩ | ⟨-, hn⟩⟩ | ⟨-, hm⟩
  · have hvisible := Text.isControl_of_isNameChar (Text.isNameChar_of_isNameStart hs)
    exact absurd hc (by simp [hvisible])
  · exact absurd hc (by simp [Text.isControl_of_isNameChar hn])
  · exact isLayout_of_mark? hm hc

/-- The text of symbols that may stand where they stand is tidy if quoted texts are. -/
theorem isTidy_of_scan {quote : Text → Text} (hquote : ∀ t, Text.IsTidy (quote t))
    {symbols : List Symbol} {place last : Place} (h : scan place symbols = some last) :
    Text.IsTidy (symbols.flatMap (Symbol.text quote)) := by
  -- on the symbols, each judged at its own place
  induction symbols generalizing place with
  | nil => simp [Text.IsTidy]
  | cons symbol symbols ih =>
    rw [scan, List.foldlM_cons] at h
    obtain ⟨middle, hnext, hrest⟩ := Option.bind_eq_some_iff.1 h
    rw [List.flatMap_cons, Text.isTidy_append]
    refine ⟨?_, ih hrest⟩
    cases symbol with
    | hole t => exact hquote t
    | char c =>
      intro d hd hcontrol
      obtain rfl := List.mem_singleton.1 hd
      exact isLayout_of_next hnext hcontrol

end Target

namespace Code

/-- The text of a line is tidy if quoted texts are. -/
theorem IsLine.isTidy {quote : Text → Text} (hquote : ∀ t, Text.IsTidy (quote t)) {code : Code}
    (h : code.IsLine) : Text.IsTidy (code.text quote) := by
  rw [text_eq]
  exact Target.isTidy_of_scan hquote h

end Code
end CurlScribe
