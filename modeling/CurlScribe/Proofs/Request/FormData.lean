import CurlScribe.Proofs.Outcome
import CurlScribe.Proofs.Word.Cutting
import CurlScribe.Proofs.Word.Encoded
import CurlScribe.Request.Payload

/-!
# Form data

Whether data is form data is decided on its shape, a text in which a letter stands for each
reference, and the pairs are cut from the word itself. Both views agree: the pieces of the shape are
the shapes of the pieces. So a word has the shape of form data exactly if it is the encoding of
pairs that form data can say, and these pairs are the ones that it is cut into.
-/

namespace CurlScribe

/-! ## Shapes -/

/-- The letter of an atom in the shape of data. -/
def Atom.letter : Atom → Char
  | char c => c
  | reference _ => 'x'

namespace FormEncoding

theorem shape_eq_map_letter (w : Word) : w.shape ['x'] = w.atoms.map Atom.letter := by
  have hletter : Atom.shape ['x'] = fun a => [a.letter] := by
    funext a
    cases a with
    | char c => rfl
    | reference r => rfl
  rw [Word.shape_eq, hletter, List.map_eq_flatMap]

/-- A character other than the letter of references is the letter of itself alone. -/
theorem letter_eq_iff {c : Char} (hc : c ≠ 'x') {a : Atom} : a.letter = c ↔ a = .char c := by
  cases a with
  | char d => simp [Atom.letter]
  | reference r => simpa [Atom.letter] using hc.symm

/-- The pieces of a shape are the shapes of the pieces. -/
theorem splitOn_map_letter {c : Char} (hc : c ≠ 'x') (as : List Atom) :
    (as.map Atom.letter).splitOn c = (as.splitOn (.char c)).map (List.map Atom.letter) := by
  induction as with
  | nil => rfl
  | cons a as ih =>
    rw [List.map_cons, List.splitOn_cons_eq_if_modifyHead, List.splitOn_cons_eq_if_modifyHead, ih]
    by_cases ha : a = .char c
    · simp [ha, Atom.letter]
    · have hletter : ¬ a.letter = c := fun h => ha ((letter_eq_iff hc).1 h)
      simp only [beq_iff_eq, ha, hletter, if_false]
      cases as.splitOn (Atom.char c) with
      | nil => rfl
      | cons first more => rfl

/-! ## Pairs -/

/-- A pair that form data can say: a key of key characters that is not empty, and a value without
`&` and line breaks. References may stand in both. -/
structure IsCanonicalPair (pair : Word × Word) : Prop where
  nonempty : pair.1 ≠ Word.empty
  key : ∀ c, .char c ∈ pair.1.atoms → isKeyChar c = true
  value : ∀ c, .char c ∈ pair.2.atoms → isValueChar c = true

theorem IsCanonicalPair.avoids {pair : Word × Word} (h : IsCanonicalPair pair) :
    pair.1.Avoids '=' ∧ pair.1.Avoids '&' ∧ pair.2.Avoids '&' :=
  ⟨fun hm => absurd (h.key _ hm) (by decide), fun hm => absurd (h.key _ hm) (by decide),
    fun hm => absurd (h.value _ hm) (by decide)⟩

/-- A class that has the letter of references has the letters of atoms exactly if it has their
characters. -/
theorem all_map_letter {p : Char → Bool} (hx : p 'x' = true) (as : List Atom) :
    (as.map Atom.letter).all p = true ↔ ∀ c, .char c ∈ as → p c = true := by
  rw [List.all_map, List.all_eq_true]
  constructor
  · intro h c hc
    exact h (.char c) hc
  · intro h a ha
    cases a with
    | char c => exact h c ha
    | reference r => exact hx

/-- A piece has the shape of a pair exactly if it is the encoding of one that form data can say. -/
theorem isPair_iff {as : List Atom} :
    isPair (as.map Atom.letter) = true ↔
      ∃ key value, as = key ++ .char '=' :: value ∧
        IsCanonicalPair (Word.ofAtoms key, Word.ofAtoms value) := by
  have hkey (key : List Atom) : Word.ofAtoms key ≠ Word.empty ↔ key.map Atom.letter ≠ [] := by
    rw [ne_eq, ne_eq, List.map_eq_nil_iff, Word.ofAtoms_eq_empty_iff]
  constructor
  · intro h
    unfold isPair at h
    split at h
    · next k v hs =>
      obtain ⟨hshape, -⟩ := Text.splitFirst_eq_some_iff.1 hs
      -- the letters are cut where the atoms are, since references stand for letters
      obtain ⟨key, rest, rfl, rfl, hrest⟩ := List.map_eq_append_iff.1 hshape
      obtain ⟨a, value, rfl, ha, rfl⟩ := List.map_eq_cons_iff.1 hrest
      obtain rfl := (letter_eq_iff (by decide)).1 ha
      simp only [Bool.and_eq_true, Bool.not_eq_true', List.isEmpty_eq_false_iff] at h
      obtain ⟨⟨hne, hk⟩, hv⟩ := h
      refine ⟨key, value, rfl, (hkey key).2 hne, ?_, ?_⟩
      · simpa using (all_map_letter (by decide) key).1 hk
      · simpa using (all_map_letter (by decide) value).1 hv
    · exact absurd h (by simp)
  · rintro ⟨key, value, rfl, hpair⟩
    have hk := (all_map_letter (p := isKeyChar) (by decide) key).2 (by simpa using hpair.key)
    have hv := (all_map_letter (p := isValueChar) (by decide) value).2 (by simpa using hpair.value)
    -- the key has no equals sign, so the cut is at the one between
    have hsplit : Text.splitFirst (· == '=') ((key ++ .char '=' :: value).map Atom.letter) =
        some (key.map Atom.letter, value.map Atom.letter) := by
      refine Text.splitFirst_eq_some_iff.2 ⟨by simp [Atom.letter], ?_⟩
      intro hm
      exact absurd (List.all_eq_true.1 hk _ hm) (by decide)
    rw [isPair, hsplit]
    simp [hk, hv, List.isEmpty_eq_false_iff.2 ((hkey key).1 hpair.nonempty)]

theorem isPairs_iff (w : Word) :
    isPairs (w.shape ['x']) = true ↔
      ∀ piece ∈ w.atoms.splitOn (.char '&'), isPair (piece.map Atom.letter) = true := by
  rw [isPairs, Text.split_eq_splitOn, shape_eq_map_letter, splitOn_map_letter (by decide),
    List.all_map, List.all_eq_true]
  rfl

end FormEncoding

/-! ## Rows of pairs -/

namespace Body
open FormEncoding

section Encoded

variable {pairs : List (Word × Word)} (hne : pairs ≠ [])
  (hw : ∀ p ∈ pairs, p.1.IsNormal ∧ p.2.IsNormal) (h : ∀ p ∈ pairs, IsCanonicalPair p)

include hne h in
/-- The pieces of encoded pairs are the pairs, encoded one by one. -/
theorem splitOn_encoded :
    (encoded pairs).atoms.splitOn (.char '&') = pairs.map fun p => (encodedPair p).atoms := by
  rw [atoms_encoded]
  refine List.splitOn_intercalate _ ?_ (by simpa using hne)
  intro piece hpiece
  obtain ⟨p, hp, rfl⟩ := List.mem_map.1 hpiece
  obtain ⟨-, hkey, hvalue⟩ := (h p hp).avoids
  rw [atoms_encodedPair, List.mem_append, List.mem_cons]
  rintro (hm | hm | hm)
  · exact hkey hm
  · exact absurd hm (by decide)
  · exact hvalue hm

include hne hw h in
/-- Pairs are read back from their encoding. -/
theorem pairsOf_encoded : pairsOf (encoded pairs) = pairs := by
  have hnormal : (encoded pairs).IsNormal := isNormal_encoded fun p hp => (hw p hp).1
  have hpieces : (encoded pairs).split '&' = pairs.map encodedPair := by
    rw [← Word.ofAtoms_atoms hnormal, Word.split_ofAtoms, splitOn_encoded hne h, List.map_map]
    refine List.map_congr_left ?_
    intro p hp
    exact Word.ofAtoms_atoms (isNormal_encodedPair (hw p hp).1)
  rw [pairsOf, hpieces, List.filterMap_map]
  refine (List.filterMap_congr ?_).trans List.filterMap_some
  intro p hp
  exact Word.splitOnce_pushChar_append (hw p hp).1 (hw p hp).2 (h p hp).avoids.1

include hne hw h in
/-- The encoding of pairs has the shape of form data. -/
theorem isPairs_encoded : isPairs ((encoded pairs).shape ['x']) = true := by
  rw [isPairs_iff, splitOn_encoded hne h]
  intro piece hpiece
  obtain ⟨p, hp, rfl⟩ := List.mem_map.1 hpiece
  obtain ⟨hkey, hvalue⟩ := hw p hp
  refine isPair_iff.2 ⟨p.1.atoms, p.2.atoms, atoms_encodedPair p, ?_⟩
  rw [Word.ofAtoms_atoms hkey, Word.ofAtoms_atoms hvalue]
  exact h p hp

end Encoded

/-- Pieces that each have the shape of a pair are cut into as many pairs. -/
theorem filterMap_splitOnce {pieces : List (List Atom)}
    (h : ∀ piece ∈ pieces, isPair (piece.map Atom.letter) = true) :
    let pairs := (pieces.map Word.ofAtoms).filterMap (Word.splitOnce '=')
    (pairs.map fun p => (encodedPair p).atoms) = pieces ∧
      ∀ p ∈ pairs, p.1.IsNormal ∧ IsCanonicalPair p := by
  induction pieces with
  | nil => simp
  | cons piece pieces ih =>
    obtain ⟨hpiece, hpieces⟩ := List.forall_mem_cons.1 h
    obtain ⟨key, value, rfl, hpair⟩ := isPair_iff.1 hpiece
    obtain ⟨hatoms, hcanonical⟩ := ih hpieces
    have hkey : Atom.char '=' ∉ key := by simpa [Word.Avoids] using hpair.avoids.1
    rw [List.map_cons, List.filterMap_cons_some (Word.splitOnce_append value hkey)]
    constructor
    · rw [List.map_cons, hatoms, atoms_encodedPair, Word.atoms_ofAtoms, Word.atoms_ofAtoms]
    · exact List.forall_mem_cons.2 ⟨⟨Word.isNormal_ofAtoms key, hpair⟩, hcanonical⟩

/-- A word of the shape of form data is the encoding of the pairs that it is cut into, of which
there is at least one. -/
theorem encoded_pairsOf {w : Word} (hw : w.IsNormal) (h : isPairs (w.shape ['x']) = true) :
    encoded (pairsOf w) = w ∧ pairsOf w ≠ [] ∧ ∀ p ∈ pairsOf w, IsCanonicalPair p := by
  have hpairs : pairsOf w =
      ((w.atoms.splitOn (.char '&')).map Word.ofAtoms).filterMap (Word.splitOnce '=') := by
    rw [← Word.split_ofAtoms, Word.ofAtoms_atoms hw]
    rfl
  obtain ⟨hatoms, hcanonical⟩ := filterMap_splitOnce ((isPairs_iff w).1 h)
  rw [← hpairs] at hatoms hcanonical
  refine ⟨?_, ?_, fun p hp => (hcanonical p hp).2⟩
  · have hnormal := isNormal_encoded fun p hp => (hcanonical p hp).1
    rw [← Word.ofAtoms_atoms hnormal, atoms_encoded, hatoms, List.intercalate_splitOn,
      Word.ofAtoms_atoms hw]
  · intro hnil
    rw [hnil] at hatoms
    exact List.splitOn_ne_nil _ _ hatoms.symm

end Body

/-! ## The body of a text -/

/-- Is this the type of form data? -/
def MediaType.IsForm (contentType : Word) : Prop :=
  ∃ t, contentType.literal? = some t ∧ isFormUrlEncoded t = true

namespace Body
open FormEncoding

/-- Text becomes pairs if it has the type and the shape of form data, and is kept as it is
otherwise. -/
theorem ofText_cases (content contentType : Word) :
    (MediaType.IsForm contentType ∧ isPairs (content.shape ['x']) = true ∧
        ofText content contentType = .urlEncoded (pairsOf content)) ∨
      (¬ (MediaType.IsForm contentType ∧ isPairs (content.shape ['x']) = true) ∧
        ofText content contentType = .raw content contentType) := by
  cases htype : contentType.literal? with
  | none =>
    refine .inr ⟨?_, ?_⟩
    · rintro ⟨⟨t, ht, -⟩, -⟩
      rw [htype] at ht
      cases ht
    · rw [ofText, htype]
      rfl
  | some t =>
    have hform : MediaType.IsForm contentType ↔ MediaType.isFormUrlEncoded t = true := by
      simp [MediaType.IsForm, htype]
    have hbody : ofText content contentType =
        if MediaType.isFormUrlEncoded t && isPairs (content.shape ['x'])
          then .urlEncoded (pairsOf content) else .raw content contentType := by
      rw [ofText, htype]
    rw [hform, hbody, ← Bool.and_eq_true]
    by_cases h : (MediaType.isFormUrlEncoded t && isPairs (content.shape ['x'])) = true
    · exact .inl ⟨(Bool.and_eq_true_iff.1 h).1, (Bool.and_eq_true_iff.1 h).2, if_pos h⟩
    · exact .inr ⟨h, if_neg h⟩

theorem ofText_eq_raw {content contentType : Word}
    (h : ¬ (MediaType.IsForm contentType ∧ isPairs (content.shape ['x']) = true)) :
    ofText content contentType = .raw content contentType := by
  rcases ofText_cases content contentType with ⟨htype, hpairs, -⟩ | ⟨-, he⟩
  · exact absurd ⟨htype, hpairs⟩ h
  · exact he

theorem ofText_encoded {pairs : List (Word × Word)} {contentType : Word} (hne : pairs ≠ [])
    (hw : ∀ p ∈ pairs, p.1.IsNormal ∧ p.2.IsNormal) (h : ∀ p ∈ pairs, IsCanonicalPair p)
    (htype : MediaType.IsForm contentType) :
    ofText (encoded pairs) contentType = .urlEncoded pairs := by
  rcases ofText_cases (encoded pairs) contentType with ⟨-, -, he⟩ | ⟨hnot, -⟩
  · rw [he, pairsOf_encoded hne hw h]
  · exact absurd ⟨htype, isPairs_encoded hne hw h⟩ hnot

end Body

/-! ## Joined data -/

namespace DataItem

theorem isNormal_encodedContent {item : DataItem} {w : Word} (hv : item.value.IsNormal)
    (h : item.encodedContent = .ok w) : w.IsNormal := by
  unfold encodedContent at h
  split at h
  · next name content hs =>
    rw [← Word.ofAtoms_atoms hv] at hs
    obtain ⟨front, back, rfl, rfl, -, -⟩ := Word.splitOnce_eq_some_iff.1 hs
    obtain rfl := Except.ok.inj h
    split
    · exact Word.isNormal_mapText _ _
    · exact Word.isNormal_append (Word.isNormal_pushText (Word.isNormal_ofAtoms front) _) _
  · split at h
    · exact absurd h (by simp)
    · obtain rfl := Except.ok.inj h
      exact Word.isNormal_mapText _ _

theorem isNormal_plainContent {item : DataItem} {w : Word} (hv : item.value.IsNormal)
    (h : item.plainContent = .ok (.text w)) : w.IsNormal := by
  unfold plainContent at h
  split at h
  · obtain rfl := DataContent.text.inj (Except.ok.inj h)
    exact hv
  · split at h
    · exact absurd h (by simp)
    · exact absurd h (by simp)

theorem isNormal_content {item : DataItem} {w : Word} (hv : item.value.IsNormal)
    (h : item.content = .ok (.text w)) : w.IsNormal := by
  unfold content at h
  cases hk : item.kind with
  | raw =>
    rw [hk] at h
    obtain rfl := DataContent.text.inj (Except.ok.inj h)
    exact hv
  | urlEncode =>
    rw [hk] at h
    cases he : item.encodedContent with
    | error e => rw [he] at h; exact absurd h (by simp [Except.map])
    | ok v =>
      rw [he] at h
      obtain rfl := DataContent.text.inj (Except.ok.inj h)
      exact isNormal_encodedContent hv he
  | ascii => rw [hk] at h; exact isNormal_plainContent hv h
  | binary => rw [hk] at h; exact isNormal_plainContent hv h
  | json => rw [hk] at h; exact isNormal_plainContent hv h

theorem isNormal_joinText {items : List DataItem} {joined w : Word} {previous : Option DataKind}
    (hj : joined.IsNormal) (h : joinText joined previous items = .ok w) : w.IsNormal := by
  induction items generalizing joined previous with
  | nil =>
    obtain rfl := Except.ok.inj h
    exact hj
  | cons item items ih =>
    unfold joinText at h
    split at h
    · exact absurd h (by simp)
    · exact absurd h (by simp)
    · refine ih (Word.isNormal_append ?_ _) h
      cases previous with
      | none => exact hj
      | some kind => exact Word.isNormal_pushText hj _

/-- The text of normal data is normal. -/
theorem isNormal_join {items : List DataItem} {w : Word} (hv : ∀ item ∈ items, item.value.IsNormal)
    (h : join items = .ok (.text w)) : w.IsNormal := by
  unfold join at h
  split at h
  · next item => exact isNormal_content (hv item List.mem_cons_self) h
  · cases ht : joinText Word.empty none items with
    | error e => rw [ht] at h; exact absurd h (by simp [Except.map])
    | ok v =>
      rw [ht] at h
      obtain rfl := DataContent.text.inj (Except.ok.inj h)
      exact isNormal_joinText (show Word.empty.IsNormal from trivial) ht

end DataItem

/-! ## Classification -/

namespace Body
open FormEncoding

/-- The data that a body sends, as it is joined from options. -/
def dataContent? : Body → Option DataContent
  | empty => none
  | raw content _ => some (.text content)
  | urlEncoded pairs => some (.text (encoded pairs))
  | multipart _ => none
  | file path _ => some (.file path)

/-- The pairs of the body are ones that form data can say, and there is at least one. -/
def HasCanonicalPairs : Body → Prop
  | urlEncoded pairs => pairs ≠ [] ∧ ∀ p ∈ pairs, IsCanonicalPair p
  | _ => True

/-- A body that is made of data sends this data. -/
theorem ofContent_spec (type : Word) {content : DataContent}
    (h : ∀ w, content = .text w → w.IsNormal) :
    (ofContent type content).dataContent? = some content ∧
      (ofContent type content).HasCanonicalPairs := by
  cases content with
  | file path => exact ⟨rfl, trivial⟩
  | text content =>
    show (ofText content type).dataContent? = _ ∧ (ofText content type).HasCanonicalPairs
    rcases ofText_cases content type with ⟨-, hshape, he⟩ | ⟨-, he⟩
    · obtain ⟨hencoded, hne, hcanonical⟩ := encoded_pairsOf (h content rfl) hshape
      rw [he]
      exact ⟨congrArg (some ∘ DataContent.text) hencoded, hne, hcanonical⟩
    · rw [he]
      exact ⟨rfl, trivial⟩

theorem ofData_spec {data : List DataItem} {contentType : Option Word} {body : Body}
    (hv : ∀ item ∈ data, item.value.IsNormal) (h : ofData data contentType = .ok body) :
    body.HasCanonicalPairs ∧
      ∀ content, body.dataContent? = some content → DataItem.join data = .ok content := by
  unfold ofData at h
  split at h
  · obtain rfl := Except.ok.inj h
    exact ⟨trivial, fun content hc => absurd hc (by simp [dataContent?])⟩
  · obtain ⟨content, hj, rfl⟩ := Except.map_eq_ok.1 h
    have hnormal : ∀ w, content = .text w → w.IsNormal := by
      rintro w rfl
      exact DataItem.isNormal_join hv hj
    obtain ⟨hcontent, hpairs⟩ := ofContent_spec
      (contentType.getD (Word.ofText (defaultContentType data))) hnormal
    refine ⟨hpairs, ?_⟩
    intro content' hc
    rw [← Option.some.inj (hcontent.symm.trans hc), hj]

theorem ofData_eq_error_iff {data : List DataItem} {contentType : Option Word} {e : Error} :
    ofData data contentType = .error e ↔ DataItem.join data = .error e := by
  cases data with
  | nil => simp [ofData, DataItem.join, DataItem.joinText, Except.map]
  | cons item data =>
    show (DataItem.join (item :: data)).map _ = .error e ↔ _
    cases DataItem.join (item :: data) with
    | error e' => simp [Except.map]
    | ok content => simp [Except.map]

/-- Classification keeps all that the data says: pairs are encoded as the text of the data, other
text is kept as it is, and so are files and errors. Conversely, every row of pairs that form data
can say is read back from its encoding. -/
theorem classify_lossless :
    (∀ (data : List DataItem) (contentType : Option Word),
      (∀ item ∈ data, item.value.IsNormal) →
        (∀ pairs, (classify data [] contentType).result = .ok (.urlEncoded pairs) →
          pairs ≠ [] ∧ DataItem.join data = .ok (.text (encoded pairs)) ∧
            ∀ p ∈ pairs, p.1.Avoids '=' ∧ p.1.Avoids '&' ∧ p.2.Avoids '&') ∧
        (∀ content type, (classify data [] contentType).result = .ok (.raw content type) →
          DataItem.join data = .ok (.text content)) ∧
        (∀ path type, (classify data [] contentType).result = .ok (.file path type) →
          DataItem.join data = .ok (.file path)) ∧
        ∀ e, (classify data [] contentType).result = .error e ↔ DataItem.join data = .error e) ∧
    ∀ (flag : Text) (pairs : List (Word × Word)), pairs ≠ [] →
      (∀ p ∈ pairs, p.1.IsNormal ∧ p.2.IsNormal ∧ IsCanonicalPair p) →
      classify [⟨.raw, flag, encoded pairs⟩] [] none = .ok (.urlEncoded pairs) := by
  constructor
  · intro data contentType hv
    refine ⟨?_, ?_, ?_, fun e => ofData_eq_error_iff⟩
    · intro pairs h
      -- what data is made into tells what it was joined to
      obtain ⟨⟨hne, hcanonical⟩, hjoin⟩ := ofData_spec hv h
      exact ⟨hne, hjoin _ rfl, fun p hp => (hcanonical p hp).avoids⟩
    · intro content type h
      exact (ofData_spec hv h).2 _ rfl
    · intro path type h
      exact (ofData_spec hv h).2 _ rfl
  · intro flag pairs hne h
    have htype : MediaType.IsForm (Word.ofText MediaType.formUrlEncoded) :=
      ⟨MediaType.formUrlEncoded, by decide, by decide⟩
    have hbody := ofText_encoded hne (fun p hp => ⟨(h p hp).1, (h p hp).2.1⟩)
      (fun p hp => (h p hp).2.2) htype
    exact congrArg Outcome.ok hbody

/-- Pairs with a reference for a value, brackets in a key and an equals sign in a value. -/
theorem classify_lossless_reference :
    let pairs := [(Word.ofString "a", Word.ofReference ⟨"V".toList, false⟩),
      (Word.ofString "b[]", Word.ofString "=")]
    let data : List DataItem := [⟨.raw, "--data-raw".toList, encoded pairs⟩]
    classify data [] none = .ok (.urlEncoded pairs) ∧
      DataItem.join data = .ok (.text (encoded pairs)) ∧
        ∀ p ∈ pairs, p.1.Avoids '=' ∧ p.1.Avoids '&' ∧ p.2.Avoids '&' := by
  intro pairs data
  have hpairs : ∀ p ∈ pairs, p.1.IsNormal ∧ p.2.IsNormal ∧ IsCanonicalPair p := by
    intro p hp
    simp only [pairs, List.mem_cons, List.not_mem_nil, or_false] at hp
    rcases hp with rfl | rfl
    · exact ⟨by decide, by decide, by decide, (all_map_letter (by decide) _).1 (by decide),
        (all_map_letter (by decide) _).1 (by decide)⟩
    · exact ⟨by decide, by decide, by decide, (all_map_letter (by decide) _).1 (by decide),
        (all_map_letter (by decide) _).1 (by decide)⟩
  have hdata : ∀ item ∈ data, item.value.IsNormal := by
    intro item hitem
    obtain rfl := List.mem_singleton.1 hitem
    exact isNormal_encoded fun p hp => (hpairs p hp).1
  have hclassify := classify_lossless.2 "--data-raw".toList pairs (by simp [pairs]) hpairs
  obtain ⟨-, hjoin, havoids⟩ :=
    (classify_lossless.1 data none hdata).1 pairs (congrArg Outcome.result hclassify)
  exact ⟨hclassify, hjoin, havoids⟩

end Body
end CurlScribe
