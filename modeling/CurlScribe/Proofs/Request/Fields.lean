import CurlScribe.Proofs.Target.Meaning
import CurlScribe.Request.Basic

/-!
# Header fields of requests

What the header fields of a request say once its variables have values. Fields are looked up without
regard to case, and behind them stands the content type that the body implies, if they give none.
-/

namespace CurlScribe
open Target (Environment)

/-! ## Fields -/

/-- A field as it is sent: its name and its value. -/
abbrev Field := Text × Text

/-- The values of the fields of a name, which are looked up without regard to case. -/
def valuesOf (fields : List Field) (name : Text) : List Text :=
  (fields.filter fun f => Text.sameIgnoringCase f.1 name).map Prod.snd

/-- Names are the same up to case if their lower case is the same. -/
theorem Text.sameIgnoringCase_iff {s t : Text} :
    sameIgnoringCase s t = true ↔ lower s = lower t := beq_iff_eq

/-- The values of a name are those in front and those behind, in order. -/
theorem valuesOf_append (front back : List Field) (name : Text) :
    valuesOf (front ++ back) name = valuesOf front name ++ valuesOf back name := by
  simp [valuesOf]

theorem valuesOf_singleton (f : Field) (name : Text) :
    valuesOf [f] name = if Text.sameIgnoringCase f.1 name then [f.2] else [] := by
  by_cases h : Text.sameIgnoringCase f.1 name <;> simp [valuesOf, h]

/-- The values of a name do not depend on its case. -/
theorem valuesOf_congr {fields : List Field} {m n : Text}
    (h : Text.sameIgnoringCase m n = true) : valuesOf fields m = valuesOf fields n := by
  have hlower := Text.sameIgnoringCase_iff.1 h
  simp only [valuesOf, Text.sameIgnoringCase, hlower]

/-- A name has no values if no field has it. -/
theorem valuesOf_eq_nil {fields : List Field} {name : Text} :
    valuesOf fields name = [] ↔ ∀ f ∈ fields, Text.sameIgnoringCase f.1 name = false := by
  simp [valuesOf]

/-! ## Fields of requests -/

section Requests

variable (σ : Environment)

/-- A header field with the values of its words. -/
def Header.sent (h : Header) : Field := (h.name.value σ, h.value.value σ)

/-- The content type that the body implies, as a field. -/
def Request.impliedFields (r : Request) : List Field :=
  r.impliedContentType?.toList.map fun type => ("Content-Type".toList, type.value σ)

/-- The header fields of a request and the content type that its body implies. -/
def Request.sentFields (r : Request) : List Field :=
  r.headers.map (Header.sent σ) ++ r.impliedFields σ

/-- The content type that the writer of a form announces, for a form that has no type of its own. -/
def Request.formFields (formType : Text) (r : Request) : List Field :=
  match r.body, r.explicitContentType? with
  | .multipart _, none => [("Content-Type".toList, formType)]
  | _, _ => []

/-- Header fields whose names are known. -/
def Headers.HasLiteralNames (hs : Headers) : Prop := ∀ h ∈ hs, h.name.literal?.isSome

/-- A literal word has its text for a value, whatever the variables are. -/
theorem Word.value_of_literal? {w : Word} {t : Text} (h : w.literal? = some t) :
    w.value σ = t := by
  unfold literal? at h
  split at h
  next hparts => rw [value, hparts, ← Option.some.inj h]; rfl
  next hparts =>
    rw [value, hparts, ← Option.some.inj h, List.flatMap_cons, List.flatMap_nil, List.append_nil]
    rfl
  · cases h

/-- A field with a literal name is found by the name that is sent. -/
theorem Header.isTextIgnoringCase_name {h : Header} (hname : h.name.literal?.isSome) (n : Text) :
    h.name.isTextIgnoringCase n = Text.sameIgnoringCase (h.sent σ).1 n := by
  obtain ⟨t, ht⟩ := Option.isSome_iff_exists.1 hname
  rw [Word.isTextIgnoringCase, ht, sent, Word.value_of_literal? σ ht]

/-- Two fields with literal names are the same to the request just if they are when they are
sent. -/
theorem Header.sameName_names {g h : Header} (hg : g.name.literal?.isSome)
    (hh : h.name.literal?.isSome) :
    sameName g.name h.name = Text.sameIgnoringCase (g.sent σ).1 (h.sent σ).1 := by
  obtain ⟨s, hs⟩ := Option.isSome_iff_exists.1 hg
  obtain ⟨t, ht⟩ := Option.isSome_iff_exists.1 hh
  rw [sameName, hs, ht, sent, sent, Word.value_of_literal? σ hs, Word.value_of_literal? σ ht]

variable {hs : Headers}

/-- The values that are sent for a name are those that the request has for it. -/
theorem Headers.valuesOf_sent (hnames : hs.HasLiteralNames) (n : Text) :
    valuesOf (hs.map (Header.sent σ)) n = (getAll hs n).map (Word.value σ) := by
  have hfilter : hs.filter (fun h => Text.sameIgnoringCase (h.sent σ).1 n) =
      hs.filter fun h => h.name.isTextIgnoringCase n :=
    List.filter_congr fun h hh => (Header.isTextIgnoringCase_name σ (hnames h hh) n).symm
  rw [valuesOf, List.filter_map, getAll, List.map_map, List.map_map, ← hfilter]
  rfl

/-- The name of a field is new to a row of fields if the row sends no value for it. -/
theorem Headers.hasNameOf_eq_false {h : Header} (hnames : hs.HasLiteralNames)
    (hname : h.name.literal?.isSome) :
    hasNameOf hs h = false ↔ valuesOf (hs.map (Header.sent σ)) (h.sent σ).1 = [] := by
  rw [hasNameOf, List.any_eq_false, valuesOf_eq_nil, List.forall_mem_map]
  refine forall₂_congr fun g hg => ?_
  rw [Header.sameName_names σ (hnames g hg) hname, Bool.not_eq_true]

theorem Headers.has_eq_isSome_get? {n : Text} : has hs n = (get? hs n).isSome := by
  rw [get?, Option.isSome_map, List.isSome_find?, has]

/-- A name has no values at all if it has no first one. -/
theorem Headers.getAll_eq_nil {n : Text} : getAll hs n = [] ↔ get? hs n = none := by
  simp [getAll, get?]

/-- No field is found to be repeated if and only if none has the name of one before it, be that one
of `earlier` or one of the fields themselves. -/
theorem Headers.firstRepeated?_eq_none {earlier : Headers} :
    firstRepeated? earlier hs = none ↔ (∀ h ∈ hs, hasNameOf earlier h = false) ∧
      hs.Pairwise fun g h => Header.sameName g.name h.name = false := by
  induction hs generalizing earlier with
  | nil => simp [firstRepeated?]
  | cons h rest ih =>
    have hsnoc : ∀ g, hasNameOf (earlier ++ [h]) g = false ↔
        hasNameOf earlier g = false ∧ Header.sameName h.name g.name = false := by
      simp [hasNameOf]
    cases hh : hasNameOf earlier h with
    | true => simp [firstRepeated?, hh]
    | false =>
      rw [firstRepeated?, hh, if_neg Bool.false_ne_true, ih, List.pairwise_cons]
      simp only [List.forall_mem_cons, hsnoc, forall_and, hh, true_and]
      tauto

/-- No name is repeated if and only if the names that are sent are different. -/
theorem Headers.pairwise_sent_iff (hnames : hs.HasLiteralNames) :
    (hs.map (Header.sent σ)).Pairwise (fun f g => Text.sameIgnoringCase f.1 g.1 = false) ↔
      firstRepeated? [] hs = none := by
  have hsame : ∀ g ∈ hs, ∀ h ∈ hs, Header.sameName g.name h.name =
      Text.sameIgnoringCase (g.sent σ).1 (h.sent σ).1 :=
    fun g hg h hh => Header.sameName_names σ (hnames g hg) (hnames h hh)
  have hnone : ∀ h ∈ hs, hasNameOf [] h = false := fun _ _ => rfl
  rw [firstRepeated?_eq_none, and_iff_right hnone, List.pairwise_map]
  refine List.Pairwise.iff_of_mem fun hg hh => ?_
  rw [hsame _ hg _ hh]

end Requests

namespace Request

variable {r : Request}

/-- A type is implied by the body only where no field gives one. -/
theorem explicitContentType?_of_implied {type : Word} (h : r.impliedContentType? = some type) :
    r.explicitContentType? = none ∧ r.body.contentType? = some type := by
  unfold impliedContentType? at h
  split at h
  · cases h
  next hexplicit => exact ⟨hexplicit, h⟩

/-- No type is sent among the header fields just if the request gives none. -/
theorem valuesOf_contentType (σ : Environment) (hnames : r.headers.HasLiteralNames) :
    valuesOf (r.headers.map (Header.sent σ)) "Content-Type".toList = [] ↔
      r.explicitContentType? = none := by
  rw [Headers.valuesOf_sent σ hnames, List.map_eq_nil_iff, Headers.getAll_eq_nil,
    explicitContentType?]

/-- A body that implies its type is no form, which would bring a type of its own. -/
theorem formFields_of_implied {type : Word} (h : r.impliedContentType? = some type)
    (formType : Text) : r.formFields formType = [] := by
  have hbody := (explicitContentType?_of_implied h).2
  unfold formFields
  split
  next hform _ => rw [hform] at hbody; cases hbody
  next => rfl

variable {σ : Environment} {formType : Text}

/-- Where a header field gives the type, nothing is added to the fields. -/
theorem added_eq_nil (h : Headers.has r.headers "Content-Type".toList = true) :
    r.impliedFields σ ++ r.formFields formType = [] := by
  obtain ⟨type, htype⟩ := Option.isSome_iff_exists.1 (Headers.has_eq_isSome_get?.symm.trans h)
  have hexplicit : r.explicitContentType? = some type := htype
  rw [impliedFields, impliedContentType?, formFields, hexplicit]
  cases r.body <;> rfl

/-- One type is added to the header fields at most. -/
theorem length_added_le : (r.impliedFields σ ++ r.formFields formType).length ≤ 1 := by
  cases himplied : r.impliedContentType? with
  | some type =>
    rw [formFields_of_implied himplied, impliedFields, himplied]
    rfl
  | none =>
    rw [impliedFields, himplied, formFields]
    split <;> simp

end Request

end CurlScribe
