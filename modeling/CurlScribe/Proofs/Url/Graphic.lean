import Mathlib.Tactic.SplitIfs
import CurlScribe.Proofs.Encoding.Percent
import CurlScribe.Proofs.Outcome
import CurlScribe.Url.Parse

/-!
# The characters of written URLs

Whatever text a URL is read from, its host and its query consist of visible ASCII characters, and so
does its path; only a path without segments, which goes with no host, may contain spaces. No part
of a URL can therefore end a line of a message. A path holds no question mark either, so that it is
told from the query behind it.
-/

namespace CurlScribe

/-- A visible ASCII character. -/
def Text.isGraphic (c : Char) : Bool := 0x20 < c.toNat && c.toNat < 0x7F

/-- A text of visible ASCII characters. -/
def Text.IsGraphic (t : Text) : Prop := ∀ c ∈ t, Text.isGraphic c = true

instance (t : Text) : Decidable (Text.IsGraphic t) :=
  List.decidableBAll (fun c => Text.isGraphic c = true) t

/-! ## Texts -/

namespace Text

/-- The visible characters of ASCII are those between the space and the last control character. -/
theorem isGraphic_iff {c : Char} : isGraphic c = true ↔ 0x20 < c.toNat ∧ c.toNat < 0x7F := by
  simp [isGraphic]

/-- An ASCII character is visible if it is neither a control character nor the space. -/
theorem isGraphic_of_isAscii {c : Char} (ha : isAscii c = true)
    (hcontrol : isAsciiControl c = false) (hspace : c ≠ ' ') : isGraphic c = true := by
  have hne : c.toNat ≠ 0x20 := fun h => hspace (Char.toNat_inj.1 h)
  simp only [isAscii, decide_eq_true_eq] at ha
  simp only [isAsciiControl, Bool.or_eq_false_iff, decide_eq_false_iff_not,
    beq_eq_false_iff_ne] at hcontrol
  rw [isGraphic_iff]
  omega

theorem isGraphic_nil : IsGraphic [] := nofun

theorem isGraphic_cons {c : Char} {t : Text} :
    IsGraphic (c :: t) ↔ isGraphic c = true ∧ t.IsGraphic := List.forall_mem_cons

theorem isGraphic_append {s t : Text} : IsGraphic (s ++ t) ↔ s.IsGraphic ∧ t.IsGraphic :=
  List.forall_mem_append

/-- A joined text has the characters of its pieces and of the separator. -/
theorem forall_mem_join {P : Char → Prop} {sep : Text} (hsep : ∀ c ∈ sep, P c)
    {pieces : List Text} (h : ∀ t ∈ pieces, ∀ c ∈ t, P c) : ∀ c ∈ join sep pieces, P c := by
  unfold join
  induction pieces with
  | nil => exact List.forall_mem_nil _
  | cons t rest ih =>
    obtain ⟨ht, hrest⟩ := List.forall_mem_cons.1 h
    cases rest with
    | nil => simpa using ht
    | cons u rest =>
      rw [List.intercalate_cons_cons]
      exact List.forall_mem_append.2 ⟨List.forall_mem_append.2 ⟨ht, hsep⟩, ih hrest⟩

/-- Visible texts are joined by visible ones. -/
theorem isGraphic_join {sep : Text} (hsep : sep.IsGraphic) {pieces : List Text}
    (h : ∀ t ∈ pieces, IsGraphic t) : IsGraphic (join sep pieces) := forall_mem_join hsep h

theorem isGraphic_digitChar (n : Nat) : isGraphic n.digitChar = true := by
  by_cases h : n < 16
  · have hall : ∀ n < 16, isGraphic (Nat.digitChar n) = true := by decide
    exact hall n h
  · rw [Nat.digitChar_eq_star.2 (by omega)]
    rfl

/-- The digits of a number are visible in every base. -/
theorem isGraphic_toDigits {b : Nat} (hb : 1 < b) (n : Nat) : IsGraphic (Nat.toDigits b n) := by
  induction n using Nat.strongRecOn with
  | _ n ih =>
    by_cases hn : n < b
    · rw [Nat.toDigits_of_lt_base hn, isGraphic_cons]
      exact ⟨isGraphic_digitChar n, isGraphic_nil⟩
    · rw [Nat.toDigits_of_base_le hb (by omega), isGraphic_append, isGraphic_cons]
      exact ⟨ih _ (Nat.div_lt_self (by omega) hb), isGraphic_digitChar _, isGraphic_nil⟩

theorem isGraphic_toUpper {c : Char} (h : isGraphic c = true) : isGraphic c.toUpper = true := by
  have hall : ∀ n < 0x7F, 0x20 < n → isGraphic (Char.ofNat n).toUpper = true := by decide
  obtain ⟨hlo, hhi⟩ := isGraphic_iff.1 h
  simpa using hall c.toNat hhi hlo

theorem isGraphic_ofNat (n : Nat) : IsGraphic (ofNat n) := isGraphic_toDigits (by decide) n

/-- A number in hexadecimal is visible, with zeros in front. -/
theorem isGraphic_hex (width n : Nat) : IsGraphic (hex width n) := by
  unfold hex
  rw [isGraphic_append]
  refine ⟨fun c hc => ?_, isGraphic_toDigits (by decide) n⟩
  rw [List.eq_of_mem_replicate hc]
  rfl

end Text

/-! ## Percent coding -/

namespace Percent

theorem isGraphic_escapeByte (b : UInt8) : Text.IsGraphic (escapeByte b) := by
  refine Text.isGraphic_cons.2 ⟨rfl, fun c hc => ?_⟩
  obtain ⟨d, hd, rfl⟩ := List.mem_map.1 hc
  exact Text.isGraphic_toUpper (Text.isGraphic_hex 2 b.toNat d hd)

/-- No escape begins a query. -/
theorem question_not_mem_escapeByte (b : UInt8) : '?' ∉ escapeByte b := by
  have hescapes : ∀ n < 256, '?' ∉ '%' :: (Text.hex 2 n).map Char.toUpper := by decide +kernel
  exact hescapes b.toNat b.toNat_lt

/-- An encoded text is visible if the characters of it that are kept are. -/
theorem isGraphic_encode {keep : Char → Bool} {t : Text}
    (h : ∀ c ∈ t, Text.isAscii c = true → keep c = true → Text.isGraphic c = true) :
    Text.IsGraphic (encode keep t) := by
  intro c hc
  obtain ⟨b, hb⟩ | ⟨ht, ha, hk⟩ := exists_of_mem_encode hc
  · exact isGraphic_escapeByte b c hb
  · exact h c ht ha hk

end Percent

/-! ## Hosts -/

namespace Punycode

/-- The digits of encoded labels are letters and digits of ASCII. -/
theorem isGraphic_digit : ∀ n < 36, Text.isGraphic (digit n) = true := by decide

/-- A number is written in such digits only. -/
theorem isGraphic_digitsFrom (bias place n : Nat) : Text.IsGraphic (digitsFrom bias place n) := by
  fun_induction digitsFrom bias place n with
  | case1 place n t h =>
    have := threshold_bounds bias place
    exact Text.isGraphic_cons.2 ⟨isGraphic_digit n (by omega), Text.isGraphic_nil⟩
  | case2 place n t h ih =>
    have := threshold_bounds bias place
    have hmod : (n - t) % (36 - t) < 36 - t := Nat.mod_lt _ (by omega)
    exact Text.isGraphic_cons.2 ⟨isGraphic_digit _ (by omega), ih⟩

/-- One character that is passed adds visible digits, or none. -/
theorem Writer.isGraphic_pass {code : Nat} {w : Writer} (h : w.digits.IsGraphic) (c : Char) :
    (w.pass code c).digits.IsGraphic := by
  unfold Writer.pass
  split_ifs
  · exact h
  · exact Text.isGraphic_append.2 ⟨h, isGraphic_digitsFrom _ _ _⟩
  · exact h

/-- So does a row of them. -/
theorem Writer.isGraphic_passAll {code : Nat} (label : Text) {w : Writer}
    (h : w.digits.IsGraphic) : (label.foldl (pass code) w).digits.IsGraphic := by
  induction label generalizing w with
  | nil => exact h
  | cons c label ih => exact ih (isGraphic_pass h c)

/-- What is written for all code points of a label is visible. -/
theorem Writer.isGraphic_writeAll {label : Text} {codes : List Nat} {w : Writer} {next : Nat}
    (h : w.digits.IsGraphic) : (w.writeAll label next codes).digits.IsGraphic := by
  induction codes generalizing w next with
  | nil => exact h
  | cons code rest ih =>
    apply ih
    exact isGraphic_passAll label h

/-- A coded label is visible if its ASCII characters are. -/
theorem isGraphic_encode {label : Text}
    (h : ∀ c ∈ label, Text.isAscii c = true → Text.isGraphic c = true) :
    Text.IsGraphic (encode label) := by
  have hascii : Text.IsGraphic (label.filter Text.isAscii) := by
    intro c hc
    obtain ⟨hmem, ha⟩ := List.mem_filter.1 hc
    exact h c hmem ha
  unfold encode
  rw [Text.isGraphic_append]
  refine ⟨?_, Writer.isGraphic_writeAll Text.isGraphic_nil⟩
  split_ifs
  · exact Text.isGraphic_nil
  · exact Text.isGraphic_append.2 ⟨hascii, by decide⟩

end Punycode

namespace Domain

/-- An ASCII character that may stand in a domain is visible. -/
theorem isGraphic_of_not_isForbidden {c : Char} (ha : Text.isAscii c = true)
    (h : isForbidden c = false) : Text.isGraphic c = true := by
  simp only [Text.isAscii, decide_eq_true_eq] at ha
  simp only [isForbidden, Bool.or_eq_false_iff, decide_eq_false_iff_not, beq_eq_false_iff_ne] at h
  rw [Text.isGraphic_iff]
  omega

/-- A label without forbidden characters is visible ASCII once it is encoded. -/
theorem isGraphic_asciiLabel {label : Text} (h : label.any isForbidden = false) :
    Text.IsGraphic (asciiLabel label) := by
  have hc : ∀ c ∈ label, Text.isAscii c = true → Text.isGraphic c = true := fun c hc ha =>
    isGraphic_of_not_isForbidden ha (by simpa using List.any_eq_false.1 h c hc)
  -- a label is either ASCII itself, or coded from its ASCII characters and digits
  unfold asciiLabel
  split_ifs with hall
  · exact fun c hmem => hc c hmem (List.all_eq_true.1 hall c hmem)
  · exact Text.isGraphic_append.2 ⟨by decide, Punycode.isGraphic_encode hc⟩

/-- A name that is encoded is visible: of all labels none is forbidden. -/
theorem isGraphic_toAscii? {t name : Text} (h : toAscii? t = some name) : name.IsGraphic := by
  unfold toAscii? at h
  split at h
  · cases h
  next labels _ =>
    split at h
    next hfit =>
      obtain rfl := Option.some.inj h
      rw [labelsFit, Bool.and_eq_true, Bool.not_eq_true'] at hfit
      refine Text.isGraphic_join (by decide) fun l hl => ?_
      obtain ⟨label, hlabel, rfl⟩ := List.mem_map.1 hl
      exact isGraphic_asciiLabel (by simpa using List.any_eq_false.1 hfit.1 label hlabel)
    · cases h

end Domain

namespace Ipv4

theorem isGraphic_text (address : Nat) : Text.IsGraphic (text address) := by
  refine Text.isGraphic_join (by decide) fun t ht => ?_
  obtain ⟨unit, -, rfl⟩ := List.mem_map.1 ht
  exact Text.isGraphic_ofNat _

end Ipv4

namespace Ipv6

theorem isGraphic_piecesText (pieces : List Nat) : Text.IsGraphic (piecesText pieces) := by
  refine Text.isGraphic_join (by decide) fun t ht => ?_
  obtain ⟨n, -, rfl⟩ := List.mem_map.1 ht
  exact Text.isGraphic_hex 1 n

theorem isGraphic_text (pieces : List Nat) : Text.IsGraphic (text pieces) := by
  simp only [text, Text.isGraphic_cons, Text.isGraphic_append]
  refine ⟨rfl, ?_, rfl, Text.isGraphic_nil⟩
  split_ifs
  · exact isGraphic_piecesText pieces
  · simp only [Text.isGraphic_append]
    exact ⟨⟨isGraphic_piecesText _, by decide⟩, isGraphic_piecesText _⟩

end Ipv6

namespace Url

namespace Host

/-- An address in brackets is written anew, in digits and colons. -/
theorem isGraphic_ofBrackets {t : Text} {host : Host} (h : ofBrackets t = .ok host) :
    host.text.IsGraphic := by
  unfold ofBrackets at h
  split at h
  · split at h
    next pieces _ =>
      obtain rfl := Except.ok.inj h
      exact Ipv6.isGraphic_text pieces
    · cases h
  · cases h

/-- A host that is looked into is an address or a domain in ASCII. -/
theorem isGraphic_ofText {t : Text} {host : Host} (h : ofText t = .ok host) :
    host.text.IsGraphic := by
  unfold ofText at h
  split at h
  · exact isGraphic_ofBrackets h
  · split at h
    · cases h
    · cases h
    next name _ hname =>
      split at h
      · split at h
        next address _ =>
          obtain rfl := Except.ok.inj h
          exact Ipv4.isGraphic_text address
        · cases h
      · obtain rfl := Except.ok.inj h
        exact Domain.isGraphic_toAscii? hname

/-- A host that is not looked into has no space, and its other characters are encoded. -/
theorem isGraphic_ofOpaque {t : Text} {host : Host} (h : ofOpaque t = .ok host) :
    host.text.IsGraphic := by
  unfold ofOpaque at h
  split at h
  · exact isGraphic_ofBrackets h
  · split at h
    · cases h
    next hforbidden =>
      obtain rfl := Except.ok.inj h
      refine Percent.isGraphic_encode fun c hc ha hk => ?_
      -- the encoding keeps spaces, but they are among the characters that are refused before it
      have hspace : c ≠ ' ' := by
        rintro rfl
        exact hforbidden (List.any_eq_true.2 ⟨' ', hc, by decide⟩)
      exact Text.isGraphic_of_isAscii ha (by simpa [keptOpaque] using hk) hspace

end Host

/-! ## Paths -/

/-- A character that stands for itself in a path is visible. -/
theorem isGraphic_of_keptInPath {c : Char} (ha : Text.isAscii c = true)
    (h : keptInPath c = true) : Text.isGraphic c = true := by
  rw [keptInPath, Bool.and_eq_true, Bool.not_eq_true'] at h
  refine Text.isGraphic_of_isAscii ha h.1 ?_
  rintro rfl
  exact absurd h.2 (by decide)

/-- A character that segments are written in: a visible one, and not the one that begins a query. -/
def IsPathChar (c : Char) : Prop := Text.isGraphic c = true ∧ c ≠ '?'

instance : DecidablePred IsPathChar :=
  fun c => inferInstanceAs (Decidable (Text.isGraphic c = true ∧ c ≠ '?'))

theorem isPathChar_slash : IsPathChar '/' := by decide

/-- Escapes consist of characters of paths. -/
theorem isPathChar_escapeByte (b : UInt8) : ∀ c ∈ Percent.escapeByte b, IsPathChar c := by
  intro c hc
  refine ⟨Percent.isGraphic_escapeByte b c hc, ?_⟩
  rintro rfl
  exact Percent.question_not_mem_escapeByte b hc

/-- What is kept in a path belongs there, and all else is escaped. -/
theorem isPathChar_of_mem_encode {t : Text} {c : Char} (h : c ∈ Percent.encode keptInPath t) :
    IsPathChar c := by
  obtain ⟨b, hb⟩ | ⟨-, ha, hk⟩ := Percent.exists_of_mem_encode h
  · exact isPathChar_escapeByte b c hb
  · refine ⟨isGraphic_of_keptInPath ha hk, ?_⟩
    rintro rfl
    exact absurd hk (by decide)

namespace Segments

/-- Segments of path characters. -/
def IsWritten (s : Segments) : Prop := ∀ t ∈ s.reversed, ∀ c ∈ t, IsPathChar c

variable {s : Segments}

theorem IsWritten.push (h : s.IsWritten) (t : Text) : (s.push t).IsWritten :=
  List.forall_mem_cons.2 ⟨fun _ hc => isPathChar_of_mem_encode hc, h⟩

/-- A segment that is taken back leaves what was written before it. -/
theorem IsWritten.takeBack (h : s.IsWritten) : s.takeBack.IsWritten := by
  unfold Segments.takeBack
  split
  · exact h
  next last rest hrest =>
    split
    · exact h
    · intro t ht
      exact h t (by rw [hrest]; exact List.mem_cons_of_mem _ ht)

theorem IsWritten.pushFirst (h : s.IsWritten) (t : Text) : (s.pushFirst t).IsWritten := by
  unfold Segments.pushFirst
  split
  next drive rest _ => exact (h.push drive).push rest
  · dsimp only
    split
    · exact h.push _
    · exact h.push _

/-- One more segment is written in characters of paths, or takes another back. -/
theorem IsWritten.add (h : s.IsWritten) (isFile : Bool) (t : Text) :
    (s.add isFile t).IsWritten := by
  unfold Segments.add
  split
  · exact h.pushFirst t
  · exact h.push _

/-- Every way to add a segment goes through `push`, which encodes it. -/
theorem IsWritten.addAll {isFile : Bool} {ts : List Text} (h : s.IsWritten) :
    (s.addAll isFile ts).IsWritten := by
  fun_induction Segments.addAll isFile s ts with
  | case1 => exact h
  | case2 => exact h.takeBack.push []
  | case3 => exact h.push []
  | case4 => exact h.add isFile _
  | case5 _ _ _ _ _ ih => exact ih h.takeBack
  | case6 _ _ _ _ _ _ ih => exact ih h
  | case7 _ _ _ _ _ _ ih => exact ih (h.add isFile _)

/-- The segments of every path are written in characters of paths. -/
theorem isWritten_ofText (isFile : Bool) (isSlash : Char → Bool) (t : Text) :
    (ofText isFile isSlash t).IsWritten := by
  have hempty : empty.IsWritten := by simp [IsWritten, empty]
  exact hempty.addAll

theorem IsWritten.text (h : s.IsWritten) : ∀ c ∈ s.text, IsPathChar c :=
  Text.forall_mem_join (List.forall_mem_singleton.2 isPathChar_slash) fun t ht =>
    h t (List.mem_reverse.1 ht)

end Segments

/-- The path of a URL is written in characters of paths, whatever it was given as. -/
theorem isPathChar_pathText (kind : SchemeKind) (t : Text) :
    ∀ c ∈ pathText kind t, IsPathChar c := by
  unfold pathText
  split
  · split
    · exact List.forall_mem_singleton.2 isPathChar_slash
    · exact List.forall_mem_nil _
  · exact List.forall_mem_cons.2 ⟨isPathChar_slash, (Segments.isWritten_ofText _ _ _).text⟩

/-! ## Queries -/

/-- A character that stands for itself in a query is visible. -/
theorem isGraphic_of_keptInQuery {isSpecial : Bool} {c : Char} (ha : Text.isAscii c = true)
    (h : keptInQuery isSpecial c = true) : Text.isGraphic c = true := by
  simp only [keptInQuery, Bool.and_eq_true, Bool.not_eq_true'] at h
  refine Text.isGraphic_of_isAscii ha h.1.1 ?_
  rintro rfl
  exact absurd h.1.2 (by decide)

/-- The query of a URL is visible. -/
theorem isGraphic_queryText {kind : SchemeKind} {query : Option Text} {q : Text}
    (h : queryText kind query = some q) : q.IsGraphic := by
  obtain ⟨t, -, rfl⟩ := Option.map_eq_some_iff.1 h
  exact Percent.isGraphic_encode fun _ _ ha hk => isGraphic_of_keptInQuery ha hk

/-- The path text of a URL ends before its query. -/
theorem question_not_mem_splitTail (t : Text) : '?' ∉ (splitTail t).1 := by
  have hcut (t : Text) : '?' ∉ (cutBefore (· == '?') t).1 :=
    fun hc => absurd (List.all_eq_true.1 List.all_takeWhile _ hc) (by decide)
  have hshown := hcut (cutBefore (· == '#') t).1
  unfold splitTail
  dsimp only
  split
  next hpath => rwa [hpath] at hshown
  next hpath => rwa [hpath] at hshown

/-! ## Whole URLs -/

/-- What segments are written in may stand in the path of any URL. -/
theorem IsPathChar.of_url {c : Char} (h : IsPathChar c) (url : Url) :
    (Text.isGraphic c = true ∨ url.host = none ∧ c = ' ') ∧ c ≠ '?' :=
  ⟨.inl h.1, h.2⟩

/-- A URL whose parts are in visible characters. A path may contain spaces where there is no host,
but nowhere what begins a query. -/
structure IsGraphic (url : Url) : Prop where
  host : ∀ host, url.host = some host → host.text.IsGraphic
  path : ∀ c ∈ url.path, (Text.isGraphic c = true ∨ url.host = none ∧ c = ' ') ∧ c ≠ '?'
  query : ∀ query, url.query = some query → query.IsGraphic

/-- A host that is read is written in visible characters: as a name, as an address of numbers, or
as one in brackets. -/
theorem isGraphic_readHost {kind : SchemeKind} {t after : Text} {host : Host}
    (h : readHost kind t after = .ok (some host)) : host.text.IsGraphic := by
  unfold readHost at h
  split at h
  · split at h
    · split at h <;> cases h
    · obtain ⟨host, hhost, ⟨⟩⟩ := Except.map_eq_ok.1 h
      exact Host.isGraphic_ofOpaque hhost
  · split at h
    · cases h
    · obtain ⟨host, hhost, ⟨⟩⟩ := Except.map_eq_ok.1 h
      exact Host.isGraphic_ofText hhost

/-- A URL with an authority is written in visible characters. -/
theorem isGraphic_ofAuthority {kind : SchemeKind} {scheme t : Text} {url : Url}
    (h : ofAuthority kind scheme t = .ok url) : url.IsGraphic := by
  unfold ofAuthority at h
  obtain ⟨⟨hasUserinfo, rest⟩, -, h⟩ := Except.bind_eq_ok.1 h
  obtain ⟨found, hfound, h⟩ := Except.bind_eq_ok.1 h
  obtain ⟨⟨port, rest⟩, -, h⟩ := Except.bind_eq_ok.1 h
  dsimp only at h
  split at h
  · cases h
  · cases h
    refine ⟨fun host hhost => isGraphic_readHost (hfound.trans (congrArg _ hhost)),
      fun c hc => (isPathChar_pathText _ _ c hc).of_url _, fun _ => isGraphic_queryText⟩

/-! ### Files -/

/-- The host of a file is written in visible characters. -/
theorem isGraphic_fileHost {t : Text} {host : Host} (h : fileHost t = .ok (some host)) :
    host.text.IsGraphic := by
  unfold fileHost at h
  split at h
  · cases h
  · split at h
    · cases h
    next hhost =>
      split at h
      · cases h
      · cases h
        exact Host.isGraphic_ofText hhost

/-- A file under its path is written in visible characters, on a host or on none. -/
theorem isGraphic_fileOn {host : Option Host} {t : Text}
    (h : ∀ found, host = some found → found.text.IsGraphic) : (fileOn host t).IsGraphic where
  host found hfound := by
    simp only [fileOn] at hfound
    split at hfound
    · cases hfound
    · exact h found hfound
  path c hc := by
    have htext := (Segments.isWritten_ofText true (isSlash .file) (splitTail t).1).text
    rcases List.mem_cons.1 hc with rfl | hc
    · exact isPathChar_slash.of_url _
    · exact (htext c ((List.dropWhile_sublist (· == '/')).subset hc)).of_url _
  query _ hquery := isGraphic_queryText hquery

/-- A URL of a file is written in visible characters. -/
theorem isGraphic_ofFile {t : Text} {url : Url} (h : ofFile t = .ok url) : url.IsGraphic := by
  unfold ofFile at h
  split at h
  · cases h
    exact isGraphic_fileOn nofun
  · split at h
    · cases h
      exact isGraphic_fileOn nofun
    · unfold ofFileAuthority at h
      dsimp only at h
      split at h
      · cases h
        exact isGraphic_fileOn nofun
      · split at h
        · cases h
        · cases h
          exact isGraphic_fileOn nofun
        next hhost =>
          cases h
          refine isGraphic_fileOn ?_
          rintro _ ⟨⟩
          exact isGraphic_fileHost hhost

/-! ### All schemes -/

/-- Without an authority, what is behind the scheme is written in visible characters. -/
theorem isGraphic_ofPathOnly (scheme t : Text) : (ofPathOnly scheme t).IsGraphic := by
  have hquestion := question_not_mem_splitTail t
  unfold ofPathOnly
  dsimp only
  split
  next rest _ =>
    have hpath := List.forall_mem_cons.2 ⟨isPathChar_slash,
      (Segments.isWritten_ofText false (isSlash .other) rest).text⟩
    exact ⟨nofun, fun c hc => (hpath c hc).of_url _, fun _ => isGraphic_queryText⟩
  next path hpath =>
    -- the only path in which spaces stay, and there is no host
    refine ⟨nofun, fun c hc => ?_, fun _ => isGraphic_queryText⟩
    obtain ⟨b, hb⟩ | ⟨ht, ha, hk⟩ := Percent.exists_of_mem_encode hc
    · exact (isPathChar_escapeByte b c hb).of_url _
    · refine ⟨?_, fun hc => hquestion (hc ▸ ht)⟩
      by_cases hspace : c = ' '
      · exact .inr ⟨rfl, hspace⟩
      · exact .inl (Text.isGraphic_of_isAscii ha (by simpa [keptOpaque] using hk) hspace)

/-- Every URL that is read is written in visible characters. -/
theorem isGraphic_parse {t : Text} {url : Url} (h : parse t = .ok url) : url.IsGraphic := by
  unfold parse at h
  split at h
  · cases h
  · split at h
    · exact isGraphic_ofFile h
    · exact isGraphic_ofAuthority h
    · split at h
      · exact isGraphic_ofAuthority h
      · cases h
        exact isGraphic_ofPathOnly _ _

end Url
end CurlScribe
