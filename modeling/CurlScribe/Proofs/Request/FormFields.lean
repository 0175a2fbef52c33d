import CurlScribe.Proofs.Encoding.Form
import CurlScribe.Proofs.Request.Query
import CurlScribe.Proofs.Setting.Grammar

/-!
# Form fields that are encoded

An option that encodes its value is given a name, a `=` and the content of a form field. Fields that
are given one by one pass through the joining of data, the test for the shape of form data and the
cutting into pairs. They come out as they went in, each content encoded: no character of an encoded
content separates fields or ends a name, so no field is merged with another or split, and every
content is read back from what is sent.
-/

namespace CurlScribe

/-- A form field before its content is encoded. The name needs no encoding. -/
structure FormField where
  name : Text
  content : Text
  nonempty : name ≠ []
  isKey : ∀ c ∈ name, FormEncoding.isKeyChar c = true

namespace FormField
open FormEncoding

/-- The field as the value of an option. -/
def argument (f : FormField) : Word := Word.ofText (f.name ++ '=' :: f.content)

/-- The field as data. -/
def item (f : FormField) : DataItem := ⟨.urlEncode, "--data-urlencode".toList, f.argument⟩

/-- The field as it is sent. -/
def pair (f : FormField) : Word × Word := (Word.ofText f.name, Word.ofText (encode f.content))

/-! ## One field -/

theorem isValueChar_of_isEncodedChar {c : Char} (h : isEncodedChar c = true) :
    isValueChar c = true := by
  rw [← Bool.not_eq_false]
  intro hvalue
  have hc : c = '&' ∨ c = '\r' ∨ c = '\n' := by
    simpa [isValueChar, or_iff_not_imp_left] using hvalue
  rcases hc with rfl | rfl | rfl <;> exact absurd h (by decide)

/-- The words of a field are normal. -/
theorem isNormal_pair (f : FormField) : f.pair.1.IsNormal ∧ f.pair.2.IsNormal :=
  ⟨Word.isNormal_ofText _, Word.isNormal_ofText _⟩

/-- A field is sent as a pair that form data can say. -/
theorem isCanonicalPair (f : FormField) : IsCanonicalPair f.pair where
  nonempty := by
    intro hempty
    have hatoms := congrArg Word.atoms hempty
    rw [pair, Word.atoms_ofText] at hatoms
    exact f.nonempty (List.map_eq_nil_iff.1 hatoms)
  key := by
    intro c hc
    have hname : c ∈ f.name := by simpa [pair] using hc
    exact f.isKey c hname
  value := by
    intro c hc
    have hvalue : c ∈ encode f.content := by simpa [pair] using hc
    exact isValueChar_of_isEncodedChar (isEncodedChar_of_mem hvalue)

/-- The first `=` of the argument is the one behind the name, so the name is left alone and the
content is encoded. -/
theorem content_item (f : FormField) : f.item.content = .ok (.text (Body.encodedPair f.pair)) := by
  have hname : Atom.char '=' ∉ f.name.map .char := by
    intro hmem
    have hname : '=' ∈ f.name := by simpa using hmem
    exact absurd (f.isKey '=' hname) (by decide)
  have hsplit : f.item.value.splitOnce '=' = some (Word.ofText f.name, Word.ofText f.content) := by
    rw [Word.ofText_eq_ofAtoms, Word.ofText_eq_ofAtoms f.content,
      ← Word.splitOnce_append (f.content.map .char) hname, item, argument, Word.ofText_eq_ofAtoms]
    simp
  have hempty : (Word.ofText f.name).isEmpty = false :=
    Word.isEmpty_eq_false f.isCanonicalPair.nonempty
  have hencoded : f.item.encodedContent = .ok (Body.encodedPair f.pair) := by
    rw [DataItem.encodedContent, hsplit]
    simp only [hempty, encodeWord_ofText, Bool.false_eq_true, if_false]
    rfl
  show f.item.encodedContent.map DataContent.text = _
  rw [hencoded]
  rfl

/-! ## Fields in a row -/

/-- Fields behind other data are joined to it with `&` between them. -/
theorem joinText_items {joined : Word} (hjoined : joined.IsNormal) (f : FormField)
    (fields : List FormField) :
    DataItem.joinText joined (some .urlEncode) ((f :: fields).map item) =
      .ok (joined.pushChar '&' ++ Body.encoded ((f :: fields).map pair)) := by
  induction fields generalizing joined f with
  | nil =>
    rw [List.map_singleton, DataItem.joinText, content_item]
    rfl
  | cons g fields ih =>
    have hfront : (joined.pushChar '&').IsNormal := Word.isNormal_pushText hjoined _
    rw [List.map_cons, DataItem.joinText, content_item]
    show DataItem.joinText (joined.pushChar '&' ++ Body.encodedPair f.pair) (some .urlEncode)
      ((g :: fields).map item) = _
    rw [ih (Word.isNormal_append hfront _)]
    exact congrArg Except.ok (Word.append_pushText hfront)

/-- Fields are joined into the encoded text of their pairs. -/
theorem join_items {fields : List FormField} (hne : fields ≠ []) :
    DataItem.join (fields.map item) = .ok (.text (Body.encoded (fields.map pair))) := by
  match fields with
  | [] => exact absurd rfl hne
  | [f] => exact f.content_item
  | f :: g :: fields =>
    have hfirst : Word.empty ++ Body.encodedPair f.pair = Body.encodedPair f.pair :=
      Word.ofParts_eq (Body.isNormal_encodedPair f.isNormal_pair.1)
    show (DataItem.joinText Word.empty none ((f :: g :: fields).map item)).map _ = _
    rw [List.map_cons, DataItem.joinText, content_item]
    show (DataItem.joinText (Word.empty ++ Body.encodedPair f.pair) (some .urlEncode)
      ((g :: fields).map item)).map _ = _
    rw [hfirst, joinText_items (Body.isNormal_encodedPair f.isNormal_pair.1)]
    rfl

theorem isNormal_items (fields : List FormField) :
    ∀ d ∈ fields.map item, d.value.IsNormal := by
  intro d hd
  obtain ⟨f, -, rfl⟩ := List.mem_map.1 hd
  exact Word.isNormal_ofText _

/-- Encoded fields are not JSON, so no type to accept is implied. -/
theorem not_isJson_items (fields : List FormField) :
    ((fields.map item).any fun d => d.kind == .json) = false := by
  rw [List.any_eq_false]
  intro d hd
  obtain ⟨f, -, rfl⟩ := List.mem_map.1 hd
  exact Bool.false_ne_true

/-- Fields make a body of the pairs that they are sent as. -/
theorem ofData_items {fields : List FormField} (hne : fields ≠ []) :
    Body.ofData (fields.map item) none = .ok (.urlEncoded (fields.map pair)) := by
  have hdata : (fields.map item).isEmpty = false := by simpa using hne
  have htype : MediaType.IsForm (Word.ofText MediaType.formUrlEncoded) :=
    ⟨MediaType.formUrlEncoded, by decide, by decide⟩
  have hpairs : fields.map pair ≠ [] := by simpa using hne
  have hbody := Body.ofText_encoded hpairs (List.forall_mem_map.2 fun f _ => f.isNormal_pair)
    (List.forall_mem_map.2 fun f _ => f.isCanonicalPair) htype
  unfold Body.ofData
  rw [hdata, join_items hne, Body.defaultContentType, not_isJson_items]
  exact congrArg Except.ok hbody

/-! ## Settings and commands -/

/-- Settings that send fields in the body: their data is one item for each field, in order, nothing
else makes a body, and no header field names a content type. -/
structure Sends (settings : List Setting) (fields : List FormField) : Prop where
  data : settings.filterMap Setting.dataItem? = fields.map item
  plain : Request.IsPlain settings
  readable : ∀ s ∈ settings, s.asksForEmptyMethod = false
  untyped : Headers.get? (Draft.fieldsOf settings) "Content-Type".toList = none

/-- Settings that send fields have a body of their pairs. -/
theorem Sends.body {settings : List Setting} {fields : List FormField} (h : Sends settings fields)
    (hne : fields ≠ []) {url : Word} (hurl : Setting.urls settings = [url]) :
    ∃ r, (Request.ofSettings settings).result = .ok r ∧
      r.body = .urlEncoded (fields.map pair) := by
  obtain ⟨hupload, hquery, hforms⟩ := h.plain.draft
  have hdata : (Draft.ofSettings settings).data = fields.map item := h.data
  have hlast : (Draft.ofSettings settings).url = some url := by
    show Draft.lastWord? .url settings = some url
    rw [Draft.lastWord?, ← List.getLast?_map]
    exact congrArg List.getLast? hurl
  have hheaders : (Draft.ofSettings settings).headers = Draft.fieldsOf settings := by
    rw [Draft.headers, hdata, not_isJson_items]
    rfl
  have hbody : Body.ofData (Draft.ofSettings settings).data
      (Headers.get? (Draft.ofSettings settings).headers "Content-Type".toList) =
        .ok (.urlEncoded (fields.map pair)) := by
    rw [hheaders, h.untyped, hdata, ofData_items hne]
  obtain ⟨r, hr, hrbody⟩ := Draft.request_of_ofData hlast hupload hquery hforms
    (hdata ▸ isNormal_items fields) hbody
  exact ⟨r, Request.ofSettings_of_draft h.readable hr, hrbody⟩

/-- The option that encodes its value. -/
def option : Setting.Long where
  name := "data-urlencode".toList
  spec := FlagSpec.value "data-urlencode" none (.data .urlEncode)
  negated := false
  denotes := by decide

/-- The option and the field that is its value. -/
def group (f : FormField) : Setting.Group := .long option (some f.argument) rfl

/-- The words that give a field. -/
def words (f : FormField) : List Word := [Word.ofString "--data-urlencode", f.argument]

/-- The setting that the words come to. -/
def setting (f : FormField) : Setting := option.setting (some f.argument)

theorem flatMap_words (fields : List FormField) :
    (fields.map group).flatMap Setting.Group.words = fields.flatMap words := by
  rw [List.flatMap_map]
  rfl

theorem flatMap_settings (fields : List FormField) :
    (fields.map group).flatMap Setting.Group.settings = fields.map setting := by
  rw [List.flatMap_map]
  exact List.map_eq_flatMap.symm

/-- A URL with fields before and behind it, as a command line. -/
def line (front : List FormField) {url : Word} (hurl : Setting.IsPlain url)
    (back : List FormField) : Setting.Line :=
  ⟨front.map group ++ .positional url hurl :: back.map group, none⟩

/-- The words of the line are those of the fields with the URL among them. -/
theorem words_line (front back : List FormField) {url : Word} (hurl : Setting.IsPlain url) :
    (line front hurl back).words = front.flatMap words ++ url :: back.flatMap words := by
  simp [Setting.Line.words, line, Setting.Line.marked, flatMap_words, Setting.Group.words]

theorem settings_line (front back : List FormField) {url : Word} (hurl : Setting.IsPlain url) :
    (line front hurl back).settings =
      front.map setting ++ Setting.positional url :: back.map setting := by
  simp [Setting.Line.settings, line, flatMap_settings, Setting.Group.settings]

/-- The line sends the fields on both sides of the URL, in order. -/
theorem sends_line (front back : List FormField) {url : Word} (hurl : Setting.IsPlain url) :
    Sends (line front hurl back).settings (front ++ back) := by
  -- every setting of the line is the URL or one of the fields
  have hmem : ∀ s ∈ (line front hurl back).settings,
      s = Setting.positional url ∨ ∃ f : FormField, s = f.setting := by
    intro s hs
    simp only [settings_line, List.mem_append, List.mem_cons, List.mem_map] at hs
    rcases hs with ⟨f, -, rfl⟩ | rfl | ⟨f, -, rfl⟩
    · exact .inr ⟨f, rfl⟩
    · exact .inl rfl
    · exact .inr ⟨f, rfl⟩
  have hitems (fields : List FormField) :
      (fields.map setting).filterMap Setting.dataItem? = fields.map item := by
    rw [List.filterMap_map]
    exact congrFun List.filterMap_eq_map fields
  constructor
  · rw [settings_line, List.filterMap_append, List.filterMap_cons_none rfl, hitems, hitems,
      List.map_append]
  · intro s hs
    rcases hmem s hs with rfl | ⟨f, rfl⟩
    · show Flag.url ∉ _
      decide
    · show Flag.data .urlEncode ∉ _
      decide
  · intro s hs
    rcases hmem s hs with rfl | ⟨f, rfl⟩
    · rfl
    · rfl
  · have hnone : (line front hurl back).settings.filterMap Setting.headerField? = [] := by
      refine List.filterMap_eq_nil_iff.2 ?_
      intro s hs
      rcases hmem s hs with rfl | ⟨f, rfl⟩
      · rfl
      · rfl
    rw [Draft.fieldsOf, hnone]
    rfl

theorem resolve_line (front back : List FormField) {url : Word} (hurl : Setting.IsPlain url) :
    Setting.resolve (front.flatMap words ++ url :: back.flatMap words) =
      .ok (line front hurl back).settings := by
  have hnone (fields : List FormField) :
      (fields.map setting).filter (fun s => s.flag == .url) = [] := by
    refine Draft.filter_flag_eq_nil ?_
    intro s hs
    obtain ⟨f, -, rfl⟩ := List.mem_map.1 hs
    exact nofun
  rw [← words_line front back hurl]
  -- among the settings of fields there is no second URL
  refine Setting.resolve_eq_ok.2 ⟨Setting.ofWords_line _, url, ?_⟩
  rw [settings_line, Setting.urls, List.filter_append, List.filter_cons_of_pos rfl, hnone, hnone]
  rfl

/-! ## What is received -/

/-- Fields that are given one by one are sent as pairs with the same names in order, and each value
is read back as the content of the field. This holds of all settings that send the fields, and those
of a URL with one option for each field before or behind it do. Encoding is escaping with a `+` for
each space; it is undone by decoding, distributes over concatenation, and leaves references
alone. -/
theorem fields_received {fields : List FormField} (hne : fields ≠ []) :
    (∀ commandWords settings, Setting.resolve commandWords = .ok settings →
      Sends settings fields → ∃ r, (Request.ofSettings settings).result = .ok r ∧
        r.body = .urlEncoded
          (fields.map fun f => (Word.ofText f.name, Word.ofText (encode f.content)))) ∧
    (∀ front url back, front ++ back = fields → Setting.IsPlain url →
      ∃ settings, Setting.resolve (front.flatMap words ++ url :: back.flatMap words) =
        .ok settings ∧ Sends settings fields) ∧
    (∀ t, encode t = spacesAsPlus (Percent.encode isUnreserved t) ∧ decode (encode t) = t ∧
      ∀ c ∈ encode t, isEncodedChar c = true) ∧
    (∀ s t, encode (s ++ t) = encode s ++ encode t) ∧
    (∀ v w, encodeWord (v ++ w) = encodeWord v ++ encodeWord w) ∧
    (∀ w, (encodeWord w).references = w.references ∧
      (w.IsNormal → (encodeWord w).mapText decode = w)) ∧
    (∀ r, encodeWord (Word.ofReference r) = Word.ofReference r) ∧
    ∀ t, encodeWord (Word.ofText t) = Word.ofText (encode t) := by
  refine ⟨?_, ?_, ?_, ?_, encodeWord_append, ?_, encodeWord_ofReference, encodeWord_ofText⟩
  · intro commandWords settings hresolve hsends
    obtain ⟨-, url, hurl⟩ := Setting.resolve_eq_ok.1 hresolve
    exact hsends.body hne hurl
  · rintro front url back rfl hurl
    exact ⟨_, resolve_line front back hurl, sends_line front back hurl⟩
  · intro t
    exact ⟨encode_eq_spacesAsPlus t, decode_encode t, fun c => isEncodedChar_of_mem⟩
  · intro s t
    exact List.flatMap_append
  · intro w
    exact ⟨Word.references_mapText encode w, mapText_decode_encodeWord⟩

/-- A content with separators, an escaped space, a plus, a space, a letter outside ASCII and a line
break, and a field without content behind the URL. -/
theorem fields_received_separators :
    let first : FormField := ⟨"q[]".toList, "a&b=%20+ é@\n".toList, by decide,
      List.all_eq_true.1 (by decide)⟩
    let second : FormField := ⟨"n".toList, [], by decide, List.all_eq_true.1 (by decide)⟩
    let encoded := Word.ofString "a%26b%3D%2520%2B+%C3%A9%40%0A"
    ∃ settings r, Setting.resolve [Word.ofString "--data-urlencode", first.argument,
        Word.ofString "http://host/", Word.ofString "--data-urlencode", second.argument] =
          .ok settings ∧
      (Request.ofSettings settings).result = .ok r ∧
        r.body =
          .urlEncoded [(Word.ofString "q[]", encoded), (Word.ofString "n", Word.empty)] := by
  intro first second encoded
  have hne : [first, second] ≠ [] := by simp
  obtain ⟨hbody, hcommand, -⟩ := fields_received hne
  obtain ⟨settings, hresolve, hsends⟩ :=
    hcommand [first] (Word.ofString "http://host/") [second] rfl (.inr (by decide))
  obtain ⟨r, hr, hpairs⟩ := hbody _ settings hresolve hsends
  exact ⟨settings, r, hresolve, hr, hpairs.trans (by decide +kernel)⟩

end FormField
end CurlScribe
