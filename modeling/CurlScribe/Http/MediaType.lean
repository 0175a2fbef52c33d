import CurlScribe.Text.CharClass

/-!
# Media types

The reader of `type/subtype; name=value` texts, as far as requests depend on it: which type it is,
and which parameters are present. A text that it refuses is no media type.
-/

namespace CurlScribe

/-- A media type: its `type/subtype` text and the names of its parameters. -/
structure MediaType where
  essence : Text
  parameters : List Text
deriving DecidableEq, Repr

namespace MediaType

/-! ## Names -/

/-- The type of form data in a request body unless the command says otherwise. -/
def formUrlEncoded : Text := "application/x-www-form-urlencoded".toList

/-- The type that JSON data implies, also as a type to accept. -/
def json : Text := "application/json".toList

/-- The type of bodies in several parts. -/
def formData : Text := "multipart/form-data".toList

/-! ## Reading -/

/-- A character of a token. -/
def isTokenChar (c : Char) : Bool := c.isAlphanum || "!#$%&'*+-.^_\x60|~".toList.contains c

/-- A character that may stand between quotes. -/
def isQuotedChar (c : Char) : Bool := c.toNat > 31 && c.toNat != 127

/-- The input after a quoted value whose opening quote has been read. A quote that follows at once
belongs to the value, which is never empty. -/
def afterQuoted : Text → Option Text
  | [] => none
  | c :: rest =>
    if isQuotedChar c then
      match rest.dropWhile fun d => isQuotedChar d && d != '"' with
      | '"' :: after => some after
      | _ => none
    else none

/-- The input after the value of a parameter: what follows the next `;`, or nothing if the value
is the last. A value without quotes may be empty only at the end. -/
def afterValue (value : Text) : Option Text :=
  match value with
  | '"' :: quoted =>
    match afterQuoted quoted with
    | none => none
    | some after =>
      match after.dropWhile (· == ' ') with
      | [] => some []
      | ';' :: rest => some rest
      | _ => none
  | _ =>
    match value.dropWhile isTokenChar with
    | [] => some []
    | ';' :: rest => if (value.takeWhile isTokenChar).isEmpty then none else some rest
    | _ => none

theorem length_afterQuoted_lt {t after : Text} (h : afterQuoted t = some after) :
    after.length < t.length := by
  unfold afterQuoted at h
  split at h
  · simp at h
  · rename_i c rest
    split at h
    · have hd := Text.length_dropWhile_le (fun d => isQuotedChar d && d != '"') rest
      split at h
      · rename_i r heq
        rw [heq] at hd
        obtain rfl := Option.some.inj h
        simp only [List.length_cons] at hd ⊢
        omega
      · simp at h
    · simp at h

theorem length_afterValue_le {value rest : Text} (h : afterValue value = some rest) :
    rest.length ≤ value.length := by
  unfold afterValue at h
  split at h
  · split at h
    · simp at h
    · rename_i after ha
      have hq := length_afterQuoted_lt ha
      have hd := Text.length_dropWhile_le (· == ' ') after
      split at h
      · simp_all
      · rename_i r heq
        rw [heq] at hd
        obtain rfl := Option.some.inj h
        simp only [List.length_cons] at hd ⊢
        omega
      · simp at h
  · have hd := Text.length_dropWhile_le isTokenChar value
    split at h
    · simp_all
    · rename_i r heq
      rw [heq] at hd
      split at h
      · simp at h
      · obtain rfl := Option.some.inj h
        simp only [List.length_cons] at hd
        omega
    · simp at h

/-- The names of the parameters in the input after a `;`. -/
def readParameters : Text → Option (List Text)
  | [] => some []
  | ' ' :: rest => readParameters rest
  | c :: rest =>
    let name := (c :: rest).takeWhile isTokenChar
    match _hv : (c :: rest).dropWhile isTokenChar with
    | '=' :: value =>
      if name.isEmpty then none
      else match _ha : afterValue value with
        | none => none
        | some others => (readParameters others).map (name :: ·)
    | _ => none
termination_by input => input.length
decreasing_by
  · simp
  · have hd := Text.length_dropWhile_le isTokenChar (c :: rest)
    have hl := length_afterValue_le _ha
    simp only [_hv, List.length_cons] at hd ⊢
    omega

/-- The media type that a text spells. -/
def ofText? (t : Text) : Option MediaType :=
  let type := t.takeWhile isTokenChar
  match t.dropWhile isTokenChar with
  | '/' :: rest =>
    if type.isEmpty then none
    else
      let essence := type ++ '/' :: rest.takeWhile isTokenChar
      match rest.dropWhile isTokenChar with
      | [] => some ⟨essence, []⟩
      | ';' :: input =>
        if (rest.takeWhile isTokenChar).isEmpty then none
        else (readParameters input).map fun names => ⟨essence, names⟩
      | _ => none
  | _ => none

/-! ## Questions about types -/

/-- Is this the type of form data, with or without parameters? -/
def isFormUrlEncoded (t : Text) : Bool :=
  match ofText? t with
  | some m => Text.sameIgnoringCase m.essence formUrlEncoded
  | none => false

/-- Is this the type of bodies in parts, without the boundary that separates the parts? -/
def isUnboundedFormData (t : Text) : Bool :=
  match ofText? t with
  | some m =>
    Text.sameIgnoringCase m.essence formData
      && !m.parameters.any fun name => Text.sameIgnoringCase name "boundary".toList
  | none => false

end MediaType
end CurlScribe
