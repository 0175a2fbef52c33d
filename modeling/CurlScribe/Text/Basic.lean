/-!
# Text

Text is a list of characters, so that what a command says can be taken apart by pattern matching.
This module holds the operations that the rest of the library needs on it: sizes in UTF-8 bytes,
comparison without regard to ASCII case, cutting at a character, and trimming.
-/

namespace CurlScribe

/-- Text as its characters in order. -/
abbrev Text := List Char

namespace Text

/-! ## Sizes -/

/-- Number of bytes of the UTF-8 form. -/
def byteSize : Text → Nat
  | [] => 0
  | c :: rest => c.utf8Size + byteSize rest

/-- The text after its first `n` bytes; a character that straddles the cut is dropped. -/
def dropBytes : Nat → Text → Text
  | 0, t => t
  | _ + 1, [] => []
  | n + 1, c :: rest => dropBytes (n + 1 - c.utf8Size) rest

/-! ## ASCII case -/

/-- ASCII letters in lower case, all else unchanged. -/
def lower (t : Text) : Text := t.map Char.toLower

/-- ASCII letters in upper case, all else unchanged. -/
def upper (t : Text) : Text := t.map Char.toUpper

/-- Equality up to the case of ASCII letters. -/
def sameIgnoringCase (s t : Text) : Bool := lower s == lower t

/-! ## Cutting -/

/-- The texts before and after the first character that satisfies `p`. -/
def splitFirst (p : Char → Bool) : Text → Option (Text × Text)
  | [] => none
  | c :: rest =>
    if p c then some ([], rest)
    else (splitFirst p rest).map fun (before, after) => (c :: before, after)

/-- The texts before and after the last character that satisfies `p`. -/
def splitLast (p : Char → Bool) : Text → Option (Text × Text)
  | [] => none
  | c :: rest =>
    match splitLast p rest with
    | some (before, after) => some (c :: before, after)
    | none => if p c then some ([], rest) else none

/-- The first piece and the remaining pieces of the text cut at every character that satisfies
`p`; there is always a first piece, possibly empty. -/
def cutAll (p : Char → Bool) : Text → Text × List Text
  | [] => ([], [])
  | c :: rest =>
    let (first, more) := cutAll p rest
    if p c then ([], first :: more) else (c :: first, more)

/-- All pieces of the text cut at every character that satisfies `p`. -/
def split (p : Char → Bool) (t : Text) : List Text :=
  let (first, more) := cutAll p t
  first :: more

/-- The lines of a text without their ends, which are line feeds or carriage returns with line
feeds. No line begins behind the last end. -/
def lines : Text → List Text
  | [] => []
  | '\n' :: rest => [] :: lines rest
  | '\r' :: '\n' :: rest => [] :: lines rest
  | c :: rest =>
    match lines rest with
    | [] => [[c]]
    | line :: more => (c :: line) :: more

/-- What follows `lead`, if the text begins with it. -/
def stripPrefix? : Text → Text → Option Text
  | [], t => some t
  | _ :: _, [] => none
  | p :: lead, c :: t => if p = c then stripPrefix? lead t else none

/-- Does `part` occur in the text? -/
def hasInfix (part : Text) : Text → Bool
  | [] => part.isEmpty
  | c :: rest => part.isPrefixOf (c :: rest) || hasInfix part rest

/-- The texts before and after the first occurrence of `sep`. -/
def splitAround (sep : Text) : Text → Option (Text × Text)
  | [] => (stripPrefix? sep []).map ([], ·)
  | c :: rest =>
    match stripPrefix? sep (c :: rest) with
    | some after => some ([], after)
    | none => (splitAround sep rest).map fun (before, after) => (c :: before, after)

theorem length_splitFirst_lt {p : Char → Bool} {t before after : Text}
    (h : splitFirst p t = some (before, after)) : after.length < t.length := by
  induction t generalizing before after with
  | nil => simp [splitFirst] at h
  | cons c rest ih =>
    unfold splitFirst at h
    split at h
    · simp only [Option.some.injEq, Prod.mk.injEq] at h
      simp [← h.2]
    · obtain ⟨⟨b, a⟩, hr, hba⟩ := Option.map_eq_some_iff.1 h
      simp only [Prod.mk.injEq] at hba
      have := ih hr
      simp only [← hba.2, List.length_cons]
      omega

theorem length_dropWhile_le (p : Char → Bool) (t : Text) :
    (t.dropWhile p).length ≤ t.length := by
  induction t with
  | nil => simp
  | cons c rest ih =>
    simp only [List.dropWhile_cons]
    split
    · simp only [List.length_cons]; omega
    · simp

/-! ## Trimming -/

/-- Drop characters that satisfy `p` from the end. -/
def dropEndWhile (p : Char → Bool) (t : Text) : Text := (t.reverse.dropWhile p).reverse

/-- Drop characters that satisfy `p` from both ends. -/
def trimWhere (p : Char → Bool) (t : Text) : Text := dropEndWhile p (t.dropWhile p)

/-! ## Joining and numbers -/

/-- The pieces with `sep` between them. -/
def join (sep : Text) (pieces : List Text) : Text := sep.intercalate pieces

/-- Decimal digits of a number. -/
def ofNat (n : Nat) : Text := Nat.toDigits 10 n

end Text

end CurlScribe
