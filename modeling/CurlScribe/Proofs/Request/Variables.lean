import CurlScribe.Proofs.Request.Settings
import CurlScribe.Proofs.Word.References
import CurlScribe.Target.Code

/-!
# References from settings to requests

On the way from the settings of a command to its request, words are trimmed, cut, decoded, encoded
and joined. No step makes up a reference: if all references of the settings satisfy a condition, so
do all references of the request (`Request.usesOnly_of_ofSettings`). And no step loses one that
matters: the content type of a body that refers to a variable is also the value of a header field
(`Request.contentType_of_ofSettings`).
-/

namespace CurlScribe

/-! ## Words -/

namespace Word

/-- All references of the word satisfy `P`. -/
def UsesOnly (P : Reference → Prop) (w : Word) : Prop := ∀ r ∈ w.references, P r

variable {P : Reference → Prop} {v w head tail : Word} {c : Char}

/-- What a word uses is known from its references. -/
theorem usesOnly_of_references_eq (h : v.references = w.references) :
    v.UsesOnly P ↔ w.UsesOnly P := by
  rw [UsesOnly, UsesOnly, h]

@[simp] theorem usesOnly_empty : empty.UsesOnly P := List.forall_mem_nil _

@[simp] theorem usesOnly_ofText (t : Text) : (ofText t).UsesOnly P := by simp [UsesOnly]

@[simp] theorem usesOnly_ofString (s : String) : (ofString s).UsesOnly P :=
  usesOnly_ofText s.toList

@[simp] theorem usesOnly_pushText (t : Text) : (w.pushText t).UsesOnly P ↔ w.UsesOnly P :=
  usesOnly_of_references_eq (references_pushText w t)

@[simp] theorem usesOnly_pushChar : (w.pushChar c).UsesOnly P ↔ w.UsesOnly P :=
  usesOnly_pushText [c]

@[simp] theorem usesOnly_append : (v ++ w).UsesOnly P ↔ v.UsesOnly P ∧ w.UsesOnly P := by
  rw [UsesOnly, references_append, List.forall_mem_append]
  rfl

@[simp] theorem usesOnly_mapText (f : Text → Text) : (w.mapText f).UsesOnly P ↔ w.UsesOnly P :=
  usesOnly_of_references_eq (references_mapText f w)

@[simp] theorem usesOnly_trimStart : w.trimStart.UsesOnly P ↔ w.UsesOnly P :=
  usesOnly_of_references_eq (references_trimStart w)

@[simp] theorem usesOnly_trimEnd : w.trimEnd.UsesOnly P ↔ w.UsesOnly P :=
  usesOnly_of_references_eq (references_trimEnd w)

@[simp] theorem usesOnly_trim : w.trim.UsesOnly P ↔ w.UsesOnly P :=
  usesOnly_of_references_eq (references_trim w)

/-- The pieces of a word that is cut in two. -/
theorem UsesOnly.of_append_eq (hw : w.UsesOnly P)
    (h : head.references ++ tail.references = w.references) :
    head.UsesOnly P ∧ tail.UsesOnly P := by
  rw [UsesOnly, ← h, List.forall_mem_append] at hw
  exact hw

/-- Both sides of a cut use only what the word uses. -/
theorem UsesOnly.splitOnce (hw : w.UsesOnly P) (h : w.splitOnce c = some (head, tail)) :
    head.UsesOnly P ∧ tail.UsesOnly P := hw.of_append_eq (references_splitOnce h)

theorem UsesOnly.splitOnceLast (hw : w.UsesOnly P) (h : w.splitOnceLast c = some (head, tail)) :
    head.UsesOnly P ∧ tail.UsesOnly P := hw.of_append_eq (references_splitOnceLast h)

/-- The pieces of a word use only what the word uses. -/
theorem UsesOnly.split (hw : w.UsesOnly P) (c : Char) : ∀ piece ∈ w.split c, piece.UsesOnly P := by
  intro piece hpiece r hr
  apply hw
  rw [← references_split c w]
  exact List.mem_flatMap.2 ⟨piece, hpiece, hr⟩

theorem UsesOnly.dropLeading? (hw : w.UsesOnly P) (h : w.dropLeading? c = some v) :
    v.UsesOnly P := (usesOnly_of_references_eq (references_dropLeading? h)).2 hw

theorem UsesOnly.dropTrailing? (hw : w.UsesOnly P) (h : w.dropTrailing? c = some v) :
    v.UsesOnly P := (usesOnly_of_references_eq (references_dropTrailing? h)).2 hw

/-- The last segment of a path uses only what the path uses. -/
theorem UsesOnly.basename (hw : w.UsesOnly P) : w.basename.UsesOnly P := by
  intro r hr
  exact hw r ((references_basename_suffix w).subset hr)

/-- The pieces of a cut, or the whole word and nothing if there is no cut. -/
theorem UsesOnly.splitOnce_getD (hw : w.UsesOnly P) (c : Char) :
    ((w.splitOnce c).getD (w, empty)).1.UsesOnly P ∧
      ((w.splitOnce c).getD (w, empty)).2.UsesOnly P := by
  cases h : w.splitOnce c with
  | none => exact ⟨hw, usesOnly_empty⟩
  | some pieces => exact hw.splitOnce h

end Word

/-! ## Settings -/

variable {P : Reference → Prop}

namespace Header

def UsesOnly (P : Reference → Prop) (h : Header) : Prop := h.name.UsesOnly P ∧ h.value.UsesOnly P

/-- A header field uses only what the option's word uses. -/
theorem usesOnly_read {raw : Word} {field : Header} (hraw : raw.UsesOnly P)
    (h : read raw = .ok field) : field.UsesOnly P := by
  unfold read at h
  split at h
  · cases h
  · split at h
    next name value hsplit =>
      obtain ⟨hname, hvalue⟩ := hraw.splitOnce hsplit
      split at h
      · cases h
      · split at h
        · cases h
        · cases h
          exact ⟨Word.usesOnly_trim.2 hname, Word.usesOnly_trimStart.2 hvalue⟩
    next =>
      split at h
      · cases h
      next name hname =>
        split at h
        · cases h
        · cases h
          have hfront := (Word.usesOnly_trimEnd.2 hraw).dropTrailing? hname
          exact ⟨Word.usesOnly_trim.2 hfront, Word.usesOnly_empty⟩

end Header

namespace Credentials

def UsesOnly (P : Reference → Prop) (c : Credentials) : Prop :=
  c.user.UsesOnly P ∧ c.password.UsesOnly P

end Credentials

namespace Setting

theorem usesOnly_methodOf {w : Word} (hw : w.UsesOnly P) : (methodOf w).UsesOnly P := by
  unfold methodOf
  dsimp only
  split
  · exact Word.usesOnly_ofText _
  · exact Word.usesOnly_trim.2 hw

/-- The field of a setting uses only what its word uses. -/
theorem usesOnly_headerField? {s : Setting} {field : Header} (hs : s.word.UsesOnly P)
    (h : s.headerField? = some (.ok field)) : field.UsesOnly P := by
  unfold headerField? at h
  split at h
  · exact Header.usesOnly_read hs (Option.some.inj h)
  · cases h
    exact ⟨Word.usesOnly_ofString _, hs⟩
  · cases h
    exact ⟨Word.usesOnly_ofString _, hs⟩
  · split at h
    · cases h
      exact ⟨Word.usesOnly_ofString _, hs⟩
    · cases h
  · cases h

theorem usesOnly_dataItem? {s : Setting} {item : DataItem} (hs : s.word.UsesOnly P)
    (h : s.dataItem? = some item) : item.value.UsesOnly P := by
  unfold dataItem? at h
  split at h
  · cases h
    exact hs
  · cases h

theorem usesOnly_formItem? {s : Setting} {item : FormItem} (hs : s.word.UsesOnly P)
    (h : s.formItem? = some item) : item.value.UsesOnly P := by
  unfold formItem? at h
  split at h
  · cases h
    exact hs
  · cases h
    exact hs
  · cases h

end Setting

/-! ## Data -/

namespace DataContent

def UsesOnly (P : Reference → Prop) : DataContent → Prop
  | text content => content.UsesOnly P
  | file path => path.UsesOnly P

end DataContent

namespace DataItem

/-- Encoding keeps the references of an item and adds none. -/
theorem usesOnly_encodedContent {item : DataItem} {w : Word} (hitem : item.value.UsesOnly P)
    (h : item.encodedContent = .ok w) : w.UsesOnly P := by
  unfold encodedContent at h
  split at h
  next name content hsplit =>
    obtain ⟨hname, hcontent⟩ := hitem.splitOnce hsplit
    have hencoded : (FormEncoding.encodeWord content).UsesOnly P :=
      (Word.usesOnly_mapText _).2 hcontent
    cases h
    split
    · exact hencoded
    · exact Word.usesOnly_append.2 ⟨Word.usesOnly_pushChar.2 hname, hencoded⟩
  next =>
    split at h
    · cases h
    · cases h
      exact (Word.usesOnly_mapText _).2 hitem

/-- Plain data is the word of the item or a part of it, and uses nothing else. -/
theorem usesOnly_plainContent {item : DataItem} {content : DataContent}
    (hitem : item.value.UsesOnly P) (h : item.plainContent = .ok content) :
    content.UsesOnly P := by
  unfold plainContent at h
  split at h
  · cases h
    exact hitem
  next path hpath =>
    split at h
    · cases h
    · cases h
      exact hitem.dropLeading? hpath

/-- The content of an item uses only what the item uses, in a text or in a path. -/
theorem usesOnly_content {item : DataItem} {content : DataContent}
    (hitem : item.value.UsesOnly P) (h : item.content = .ok content) : content.UsesOnly P := by
  unfold DataItem.content at h
  split at h
  · cases h
    exact hitem
  · obtain ⟨w, hw, rfl⟩ := Except.map_eq_ok.1 h
    exact usesOnly_encodedContent hitem hw
  · exact usesOnly_plainContent hitem h
  · exact usesOnly_plainContent hitem h
  · exact usesOnly_plainContent hitem h

/-- Joined texts use only what the items use: what stands between them is literal. -/
theorem usesOnly_joinText {joined w : Word} {previous : Option DataKind} {items : List DataItem}
    (hjoined : joined.UsesOnly P) (hitems : ∀ item ∈ items, item.value.UsesOnly P)
    (h : joinText joined previous items = .ok w) : w.UsesOnly P := by
  induction items generalizing joined previous with
  | nil =>
    cases h
    exact hjoined
  | cons item rest ih =>
    obtain ⟨hitem, hrest⟩ := List.forall_mem_cons.1 hitems
    unfold joinText at h
    split at h
    · cases h
    · cases h
    next value hvalue =>
      refine ih (Word.usesOnly_append.2 ⟨?front, usesOnly_content hitem hvalue⟩) hrest h
      case front =>
        split
        · exact hjoined
        · exact (Word.usesOnly_pushText _).2 hjoined

/-- Joined data uses only what the items use. -/
theorem usesOnly_join {items : List DataItem} {content : DataContent}
    (hitems : ∀ item ∈ items, item.value.UsesOnly P) (h : join items = .ok content) :
    content.UsesOnly P := by
  unfold join at h
  split at h
  next item => exact usesOnly_content (hitems item List.mem_cons_self) h
  next =>
    obtain ⟨w, hw, rfl⟩ := Except.map_eq_ok.1 h
    exact usesOnly_joinText Word.usesOnly_empty hitems hw

end DataItem

/-! ## Form fields -/

namespace FormItem

/-- The file name that modifiers give is a part of one of them. -/
theorem usesOnly_readModifiers {flag : Text} {path name : Word} {modifiers : List Word}
    (hmodifiers : ∀ m ∈ modifiers, m.UsesOnly P)
    (h : (readModifiers flag path modifiers).1 = some name) : name.UsesOnly P := by
  induction modifiers generalizing name with
  | nil => cases h
  | cons modifier rest ih =>
    obtain ⟨hmodifier, hrest⟩ := List.forall_mem_cons.1 hmodifiers
    unfold readModifiers at h
    dsimp only at h
    split at h
    next key value hsplit =>
      split at h
      · -- a later file name counts before this one
        rcases Option.or_eq_some_iff.1 h with hlater | ⟨-, hvalue⟩
        · exact ih hrest hlater
        · cases hvalue
          exact (hmodifier.splitOnce hsplit).2
      · split at h
        · exact ih hrest h
        · exact ih hrest h
    next => exact ih hrest h

/-- The path and the name of a file are parts of its specification. -/
theorem usesOnly_readFile (flag : Text) {spec : Word} (hspec : spec.UsesOnly P) :
    (readFile flag spec).1.UsesOnly P ∧
      ∀ name, (readFile flag spec).2.1 = some name → name.UsesOnly P := by
  have hpieces := hspec.split ';'
  unfold readFile
  split
  · exact ⟨Word.usesOnly_empty, nofun⟩
  next path modifiers hsplit =>
    rw [hsplit] at hpieces
    obtain ⟨hpath, hmodifiers⟩ := List.forall_mem_cons.1 hpieces
    exact ⟨hpath, fun _ h => usesOnly_readModifiers hmodifiers h⟩

/-- A form part uses only what its option uses. -/
theorem usesOnly_part {item : FormItem} {part : FormPart} (hitem : item.value.UsesOnly P)
    (h : item.part.result = .ok part) : ∀ w ∈ part.words, w.UsesOnly P := by
  unfold FormItem.part at h
  split at h
  · cases h
  next name value hsplit =>
    obtain ⟨hname, hvalue⟩ := hitem.splitOnce hsplit
    have hfield : ∀ w ∈ (FormPart.field name value).words, w.UsesOnly P := by
      simp [FormPart.words, hname, hvalue]
    split at h
    · cases h
      exact hfield
    · split at h
      next spec hspec =>
        obtain ⟨hpath, hfilename⟩ :=
          usesOnly_readFile item.flag (hvalue.dropLeading? hspec)
        rcases hread : readFile item.flag spec with ⟨path, filename, warnings⟩
        rw [hread] at h hpath hfilename
        cases h
        -- without a modifier the file goes by the last segment of its path
        have hshown : (filename.getD path.basename).UsesOnly P := by
          cases filename with
          | none => exact hpath.basename
          | some filename => exact hfilename filename rfl
        simpa [FormPart.words] using ⟨hname, hshown, hpath⟩
      next =>
        split at h
        next spec hspec =>
          obtain ⟨hpath, -⟩ := usesOnly_readFile item.flag (hvalue.dropLeading? hspec)
          rcases hread : readFile item.flag spec with ⟨path, filename, warnings⟩
          rw [hread] at h hpath
          cases h
          simpa [FormPart.words] using ⟨hname, hpath⟩
        next =>
          cases h
          exact hfield

end FormItem

/-! ## Bodies -/

namespace Body

/-- Text is sent as its pairs or as it stands. -/
theorem ofText_eq_or (content contentType : Word) :
    ofText content contentType = .urlEncoded (pairsOf content) ∨
      ofText content contentType = .raw content contentType := by
  unfold ofText
  dsimp only
  split_ifs
  · exact .inl rfl
  · exact .inr rfl

/-- A text body uses what its content and its type use; pairs are pieces of the content. -/
theorem usesOnly_words_ofText {content contentType : Word} (hcontent : content.UsesOnly P)
    (htype : contentType.UsesOnly P) : ∀ w ∈ (ofText content contentType).words, w.UsesOnly P := by
  rcases ofText_eq_or content contentType with h | h <;> rw [h]
  · intro w hw
    obtain ⟨⟨key, value⟩, hpair, hw⟩ := List.mem_flatMap.1 hw
    obtain ⟨piece, hpiece, hsplit⟩ := List.mem_filterMap.1 hpair
    obtain ⟨hkey, hvalue⟩ := (hcontent.split '&' piece hpiece).splitOnce hsplit
    simp only [List.mem_cons, List.not_mem_nil, or_false] at hw
    rcases hw with rfl | rfl
    · exact hkey
    · exact hvalue
  · simpa [words] using ⟨hcontent, htype⟩

theorem usesOnly_words_ofContent {content : DataContent} {contentType : Word}
    (hcontent : content.UsesOnly P) (htype : contentType.UsesOnly P) :
    ∀ w ∈ (ofContent contentType content).words, w.UsesOnly P := by
  cases content with
  | text content => exact usesOnly_words_ofText hcontent htype
  | file path =>
    have hpath : path.UsesOnly P := hcontent
    simpa [ofContent, words] using ⟨hpath, htype⟩

/-- The body of data uses only what the data and the given type use. -/
theorem usesOnly_words_ofData {data : List DataItem} {explicit : Option Word} {body : Body}
    (hdata : ∀ item ∈ data, item.value.UsesOnly P) (hexplicit : ∀ t ∈ explicit, t.UsesOnly P)
    (h : ofData data explicit = .ok body) : ∀ w ∈ body.words, w.UsesOnly P := by
  unfold ofData at h
  split at h
  · cases h
    exact List.forall_mem_nil _
  · obtain ⟨content, hcontent, rfl⟩ := Except.map_eq_ok.1 h
    refine usesOnly_words_ofContent (DataItem.usesOnly_join hdata hcontent) ?_
    cases explicit with
    | none => exact Word.usesOnly_ofText _
    | some t => exact hexplicit t rfl

/-- A body uses only what the options and the given type use. -/
theorem usesOnly_words_classify {data : List DataItem} {forms : List FormItem}
    {explicit : Option Word} {body : Body} (hdata : ∀ item ∈ data, item.value.UsesOnly P)
    (hforms : ∀ item ∈ forms, item.value.UsesOnly P) (hexplicit : ∀ t ∈ explicit, t.UsesOnly P)
    (h : (classify data forms explicit).result = .ok body) : ∀ w ∈ body.words, w.UsesOnly P := by
  unfold classify at h
  split at h
  · exact usesOnly_words_ofData hdata hexplicit h
  · obtain ⟨-, -, h⟩ := Outcome.andThen_result_eq_ok.1 h
    obtain ⟨parts, hparts, h⟩ := Outcome.andThen_result_eq_ok.1 h
    cases h
    intro w hw
    obtain ⟨part, hpart, hw⟩ := List.mem_flatMap.1 hw
    obtain ⟨item, hitem, hof⟩ := Outcome.exists_mem_of_forAll hparts hpart
    exact FormItem.usesOnly_part (hforms item hitem) hof w hw

end Body

/-! ## Drafts -/

namespace Authority

theorem usesOnly_withScheme {url : Word} (hurl : url.UsesOnly P) : (withScheme url).UsesOnly P := by
  unfold withScheme
  split
  · split
    · exact hurl
    · exact Word.usesOnly_append.2 ⟨Word.usesOnly_ofString _, hurl⟩
  · exact hurl

theorem usesOnly_credentialsOf {userinfo : Word} (h : userinfo.UsesOnly P) :
    (credentialsOf userinfo).UsesOnly P := by
  obtain ⟨huser, hpassword⟩ := h.splitOnce_getD ':'
  exact ⟨(Word.usesOnly_mapText _).2 huser, (Word.usesOnly_mapText _).2 hpassword⟩

theorem usesOnly_before {w : Word} (hw : w.UsesOnly P) (c : Char) : (before c w).UsesOnly P := by
  unfold before
  split
  next head tail hsplit => exact (hw.splitOnce hsplit).1
  next => exact hw

/-- The authority is a part of what follows the scheme. -/
theorem usesOnly_authorityOf {rest : Word} (h : rest.UsesOnly P) :
    (authorityOf rest).UsesOnly P := by
  unfold authorityOf
  generalize ends = cs
  induction cs generalizing rest with
  | nil => exact h
  | cons c cs ih =>
    rw [List.foldl_cons]
    exact ih (usesOnly_before h c)

/-- What follows some of the `@` in a word is a part of it. -/
theorem usesOnly_pastAts {n : Nat} {w host : Word} (hw : w.UsesOnly P)
    (h : pastAts n w = some host) : host.UsesOnly P := by
  induction n generalizing w with
  | zero =>
    cases h
    exact hw
  | succ n ih =>
    obtain ⟨⟨head, after⟩, hsplit, hafter⟩ := Option.bind_eq_some_iff.1 h
    exact ih (hw.splitOnce hsplit).2 hafter

/-- The credentials in a URL and the URL without them use only what the URL uses. -/
theorem usesOnly_takeCredentials {url stripped : Word} {c : Credentials} (hurl : url.UsesOnly P)
    (h : takeCredentials url = some (c, stripped)) : c.UsesOnly P ∧ stripped.UsesOnly P := by
  unfold takeCredentials at h
  split at h
  · cases h
  next scheme hier hsplit =>
    obtain ⟨hscheme, hhier⟩ := hurl.splitOnce hsplit
    split at h
    · cases h
    next rest hrest =>
      obtain ⟨between, hbetween, hdrop⟩ := Option.bind_eq_some_iff.1 hrest
      have hrest := (hhier.dropLeading? hbetween).dropLeading? hdrop
      split at h
      · cases h
      next userinfo _ hat =>
        obtain ⟨huserinfo, -⟩ := (usesOnly_authorityOf hrest).splitOnceLast hat
        obtain ⟨host, hhost, heq⟩ := Option.map_eq_some_iff.1 h
        cases heq
        exact ⟨usesOnly_credentialsOf huserinfo,
          by simpa using ⟨hscheme, usesOnly_pastAts hrest hhost⟩⟩

/-- The URL that is requested and the credentials that are taken out of it use only what the given
URL uses. -/
theorem usesOnly_resolve {given : Word} (hgiven : given.UsesOnly P) :
    (resolve given).1.UsesOnly P ∧ ∀ c ∈ (resolve given).2, c.UsesOnly P := by
  have hcomplete := usesOnly_withScheme hgiven
  unfold resolve
  split
  next c stripped h =>
    obtain ⟨hc, hstripped⟩ := usesOnly_takeCredentials hcomplete h
    refine ⟨hstripped, ?_⟩
    rintro _ ⟨⟩
    exact hc
  next => exact ⟨hcomplete, nofun⟩

end Authority

namespace Draft

/-- All references in a draft, apart from those in its URL, satisfy `P`. -/
structure UsesOnly (P : Reference → Prop) (d : Draft) : Prop where
  method : ∀ w ∈ d.method, w.UsesOnly P
  fields : ∀ field ∈ d.fields, field.UsesOnly P
  credentials : ∀ c ∈ d.credentials, c.UsesOnly P
  data : ∀ item ∈ d.data, item.value.UsesOnly P
  forms : ∀ item ∈ d.forms, item.value.UsesOnly P
  upload : ∀ path ∈ d.upload, path.UsesOnly P

/-- The last word of a flag is one of those of the settings. -/
theorem usesOnly_lastWord? {settings : List Setting} (hs : ∀ s ∈ settings, s.word.UsesOnly P)
    (flag : Flag) : ∀ w ∈ lastWord? flag settings, w.UsesOnly P := by
  intro w hw
  obtain ⟨s, hlast, rfl⟩ := Option.map_eq_some_iff.1 hw
  exact hs s (List.mem_of_mem_filter (List.mem_of_getLast? hlast))

/-- A draft uses only what its settings use. -/
theorem usesOnly_ofSettings {settings : List Setting} (hs : ∀ s ∈ settings, s.word.UsesOnly P) :
    (ofSettings settings).UsesOnly P where
  method := by
    intro w hw
    obtain ⟨v, hv, rfl⟩ := Option.map_eq_some_iff.1 hw
    exact Setting.usesOnly_methodOf (usesOnly_lastWord? hs .method v hv)
  fields := by
    intro field hfield
    obtain ⟨found, hfound, hok⟩ := List.mem_filterMap.1 hfield
    obtain ⟨s, hmem, hreads⟩ := List.mem_filterMap.1 hfound
    obtain rfl := Except.eq_ok_of_toOption hok
    exact Setting.usesOnly_headerField? (hs s hmem) hreads
  credentials := by
    intro c hc
    obtain ⟨v, hv, rfl⟩ := Option.map_eq_some_iff.1 hc
    exact (usesOnly_lastWord? hs .user v hv).splitOnce_getD ':'
  data := by
    intro item hitem
    obtain ⟨s, hmem, hgives⟩ := List.mem_filterMap.1 hitem
    exact Setting.usesOnly_dataItem? (hs s hmem) hgives
  forms := by
    intro item hitem
    obtain ⟨s, hmem, hgives⟩ := List.mem_filterMap.1 hitem
    exact Setting.usesOnly_formItem? (hs s hmem) hgives
  upload := usesOnly_lastWord? hs .uploadFile

variable {d : Draft}

/-- The header fields use only what the draft uses: the type to accept that JSON implies is
literal. -/
theorem UsesOnly.headers (hd : d.UsesOnly P) : ∀ field ∈ d.headers, field.UsesOnly P := by
  unfold Draft.headers
  split
  · rw [List.forall_mem_append, List.forall_mem_singleton]
    exact ⟨hd.fields, Word.usesOnly_ofString _, Word.usesOnly_ofText _⟩
  · exact hd.fields

theorem UsesOnly.explicitContentType (hd : d.UsesOnly P) :
    ∀ t ∈ Headers.get? d.headers "Content-Type".toList, t.UsesOnly P := by
  intro t ht
  obtain ⟨field, hfind, rfl⟩ := Option.map_eq_some_iff.1 ht
  exact (hd.headers field (List.mem_of_find?_eq_some hfind)).2

/-- The method uses only what the draft uses: those that other options imply are literal. -/
theorem UsesOnly.askedMethod (hd : d.UsesOnly P) : ∀ w ∈ d.askedMethod, w.UsesOnly P := by
  unfold Draft.askedMethod
  split
  next method hmethod =>
    rintro _ ⟨⟩
    exact hd.method _ hmethod
  next =>
    split_ifs <;> rintro _ ⟨⟩ <;> exact Word.usesOnly_ofString _

/-- All references of a placement satisfy `P`. -/
structure Placement.UsesOnly (P : Reference → Prop) (p : Placement) : Prop where
  url : p.url.UsesOnly P
  headers : ∀ field ∈ p.headers, field.UsesOnly P
  body : ∀ w ∈ p.body.words, w.UsesOnly P

variable {url : Word} {p : Placement}

theorem usesOnly_addQuery {query : Word} (hurl : url.UsesOnly P) (hquery : query.UsesOnly P) :
    (addQuery url query).UsesOnly P := by
  unfold addQuery
  split
  · exact hurl
  · exact Word.usesOnly_append.2 ⟨Word.usesOnly_pushChar.2 hurl, hquery⟩

/-- An upload uses only what the draft uses: the name that may complete the URL is a part of the
path. -/
theorem UsesOnly.placeUpload {path : Word} (hd : d.UsesOnly P) (hurl : url.UsesOnly P)
    (hpath : path.UsesOnly P) (h : d.placeUpload url path = .ok p) : p.UsesOnly P := by
  unfold Draft.placeUpload at h
  split at h
  · cases h
  · cases h
    refine ⟨?_, hd.headers, by simpa [Body.words] using hpath⟩
    split
    · exact Word.usesOnly_append.2 ⟨hurl, hpath.basename⟩
    · exact hurl

/-- Data in the query uses only what the draft uses. -/
theorem UsesOnly.placeInQuery (hd : d.UsesOnly P) (hurl : url.UsesOnly P)
    (h : d.placeInQuery url = .ok p) : p.UsesOnly P := by
  unfold Draft.placeInQuery at h
  split at h
  · cases h
  · cases h
    exact ⟨hurl, hd.headers, List.forall_mem_nil _⟩
  · split at h
    · cases h
    · cases h
    next query hquery =>
      have hdata : (DataContent.text query).UsesOnly P := DataItem.usesOnly_join hd.data hquery
      cases h
      exact ⟨usesOnly_addQuery hurl hdata, hd.headers, List.forall_mem_nil _⟩

theorem mem_of_mem_dropUnbounded {headers : Headers} {field : Header}
    (h : field ∈ (dropUnbounded headers).1) : field ∈ headers := by
  unfold dropUnbounded at h
  split at h
  · exact List.mem_of_mem_filter h
  · exact h

/-- A body in its place uses only what the draft uses. -/
theorem UsesOnly.placeInBody (hd : d.UsesOnly P) (hurl : url.UsesOnly P)
    (h : (d.placeInBody url).result = .ok p) : p.UsesOnly P := by
  obtain ⟨body, hbody, hp⟩ := Outcome.andThen_result_eq_ok.1 h
  have hwords := Body.usesOnly_words_classify hd.data hd.forms hd.explicitContentType hbody
  split at hp
  · cases hp
    exact ⟨hurl, fun field hfield => hd.headers field (mem_of_mem_dropUnbounded hfield), hwords⟩
  · cases hp
    exact ⟨hurl, hd.headers, hwords⟩

/-- Wherever the content ends up, nothing else is used. -/
theorem UsesOnly.place (hd : d.UsesOnly P) (hurl : url.UsesOnly P)
    (h : (d.place url).result = .ok p) : p.UsesOnly P := by
  unfold Draft.place at h
  split at h
  next path hpath => exact hd.placeUpload hurl (hd.upload path hpath) h
  next =>
    split at h
    · exact hd.placeInQuery hurl h
    · exact hd.placeInBody hurl h

end Draft

/-! ## Requests -/

namespace Request

/-- The references of a request are references of the settings that make it. -/
theorem usesOnly_of_ofSettings {settings : List Setting} {r : Request}
    (hs : ∀ s ∈ settings, s.word.UsesOnly P) (h : (ofSettings settings).result = .ok r) :
    ∀ w ∈ r.words, w.UsesOnly P := by
  obtain ⟨given, p, hgiven, hp, rfl⟩ := Draft.request_result_eq_ok.1 (draft_of_ofSettings h)
  have hd := Draft.usesOnly_ofSettings hs
  obtain ⟨hurl, hfound⟩ :=
    Authority.usesOnly_resolve (Draft.usesOnly_lastWord? hs .url given hgiven)
  have hplaced := hd.place hurl hp
  have hcredentials : ∀ c ∈ (Draft.ofSettings settings).credentials.or
      (Authority.resolve given).2, c.UsesOnly P := by
    intro c hc
    rcases Option.or_eq_some_iff.1 hc with hc | ⟨-, hc⟩
    · exact hd.credentials c hc
    · exact hfound c hc
  intro w hw
  simp only [Draft.requestAt, withVariables, words, List.mem_append, Option.mem_toList,
    List.mem_flatMap, List.mem_cons, List.not_mem_nil, or_false] at hw
  -- in the order of the words: method, URL, header fields, credentials, body
  rcases hw with (((hw | rfl) | ⟨field, hfield, hw⟩) | ⟨c, hc, hw⟩) | hw
  · exact hd.askedMethod w hw
  · exact hplaced.url
  · obtain ⟨hname, hvalue⟩ := hplaced.headers field hfield
    rcases hw with rfl | rfl
    · exact hname
    · exact hvalue
  · obtain ⟨huser, hpassword⟩ := hcredentials c hc
    rcases hw with rfl | rfl
    · exact huser
    · exact hpassword
  · exact hplaced.body w hw

end Request

/-! ## Content types with references -/

namespace Body

/-- The type of a body of data has no references, or it is the given one. -/
theorem contentType_ofContent {content : DataContent} {contentType t : Word}
    (h : (ofContent contentType content).contentType? = some t) :
    t.references = [] ∨ t = contentType := by
  cases content with
  | file path => exact .inr (Option.some.inj h).symm
  | text content =>
    have h : (ofText content contentType).contentType? = some t := h
    rcases ofText_eq_or content contentType with heq | heq <;> rw [heq] at h
    · exact .inl (Option.some.inj h ▸ Word.references_ofText _)
    · exact .inr (Option.some.inj h).symm

/-- Of data as options give it, the type is literal or that of a header field. -/
theorem contentType_ofData {data : List DataItem} {explicit : Option Word} {body : Body}
    (h : ofData data explicit = .ok body) {t : Word} (ht : body.contentType? = some t) :
    t.references = [] ∨ explicit = some t := by
  unfold ofData at h
  split at h
  · cases h
    cases ht
  · obtain ⟨content, -, rfl⟩ := Except.map_eq_ok.1 h
    rcases contentType_ofContent ht with hnone | rfl
    · exact .inl hnone
    · cases explicit with
      | none => exact .inl (Word.references_ofText _)
      | some t => exact .inr rfl

end Body

namespace Draft

/-- Where content is placed, its type is literal or that of a header field. -/
theorem contentType_of_place {d : Draft} {url : Word} {p : Placement}
    (h : (d.place url).result = .ok p) {t : Word} (ht : p.body.contentType? = some t) :
    t.references = [] ∨ Headers.get? p.headers "Content-Type".toList = some t := by
  unfold Draft.place at h
  split at h
  · unfold Draft.placeUpload Outcome.ofExcept at h
    dsimp only at h
    split at h
    · cases h
    · cases h
      cases ht
  · split at h
    -- data in the query leaves no body, and so no type
    · unfold Draft.placeInQuery Outcome.ofExcept at h
      dsimp only at h
      split at h
      · cases h
      · cases h
        cases ht
      · split at h
        · cases h
        · cases h
        · cases h
          cases ht
    · obtain ⟨body, hbody, hp⟩ := Outcome.andThen_result_eq_ok.1 h
      split at hp
      · cases hp
        cases ht
      next hmultipart =>
        cases hp
        unfold Body.classify at hbody
        split at hbody
        · exact Body.contentType_ofData hbody ht
        · obtain ⟨-, -, h⟩ := Outcome.andThen_result_eq_ok.1 hbody
          obtain ⟨parts, -, h⟩ := Outcome.andThen_result_eq_ok.1 h
          exact absurd (Except.ok.inj h).symm (hmultipart parts)

end Draft

namespace Request

/-- A content type that refers to a variable is the value of a header field. -/
theorem contentType_of_ofSettings {settings : List Setting} {r : Request}
    (h : (ofSettings settings).result = .ok r) {t : Word} (ht : r.body.contentType? = some t) :
    t.references = [] ∨ r.explicitContentType? = some t := by
  obtain ⟨given, p, -, hp, rfl⟩ := Draft.request_result_eq_ok.1 (draft_of_ofSettings h)
  exact Draft.contentType_of_place hp ht

end Request

/-! ## The words that are sent -/

/-- A file name that is the last segment of the path has no variables beside those of the path. -/
theorem FormPart.mem_variableNames_of_isNamedByPath {filename path : Word} {n : Text}
    (h : FormPart.isNamedByPath filename path = true) (hn : n ∈ filename.variableNames) :
    n ∈ path.variableNames := by
  rw [FormPart.isNamedByPath, Bool.and_eq_true, beq_iff_eq] at h
  rw [h.1] at hn
  exact ((Word.references_basename_suffix path).map Reference.name).subset hn

/-- The names of the variables that pairs refer to are those of their encoding. -/
theorem Body.variableNames_encoded (pairs : List (Word × Word)) :
    (encoded pairs).variableNames = (urlEncoded pairs).words.flatMap Word.variableNames := by
  have hreferences : (encoded pairs).references =
      pairs.flatMap fun pair => pair.1.references ++ pair.2.references := by
    fun_induction encoded pairs with
    | case1 => rfl
    | case2 pair => simp [encodedPair]
    | case3 pair rest _ ih => simp [encodedPair, ih]
  simp [Word.variableNames, hreferences, words, List.flatMap_assoc, List.map_flatMap]

@[simp] theorem Word.variableNames_ofText (t : Text) : (Word.ofText t).variableNames = [] := by
  rw [Word.variableNames, Word.references_ofText, List.map_nil]

/-- The words of a body that the program for it sends or opens. -/
def Body.sentWords : Body → List Word
  | empty => []
  | raw content _ => [content]
  | urlEncoded pairs => [encoded pairs]
  | multipart parts => parts.flatMap FormPart.words
  | file path _ => [path]

/-- A word of a body is its content type or it is sent. -/
theorem Body.mem_variableNames_words (b : Body) (n : Text) :
    n ∈ b.words.flatMap Word.variableNames ↔
      n ∈ (b.contentType?.toList ++ b.sentWords).flatMap Word.variableNames := by
  cases b with
  | urlEncoded pairs => simp [contentType?, sentWords, variableNames_encoded]
  | raw content contentType => simp [words, contentType?, sentWords, or_comm]
  | file path contentType => simp [words, contentType?, sentWords, or_comm]
  | _ => simp [words, contentType?, sentWords]

namespace Request

/-- The words that the program for a request sends or opens. -/
def sentWords (r : Request) : List Word :=
  [r.effectiveMethod, r.url] ++ (r.headers.flatMap fun h => [h.name, h.value])
    ++ r.impliedContentType?.toList ++ (r.credentials.toList.flatMap fun c => [c.user, c.password])
    ++ r.body.sentWords

/-- A request has the variables of its words. -/
theorem usedVariables_of_ofSettings {settings : List Setting} {r : Request}
    (h : (ofSettings settings).result = .ok r) : r.usedVariables = variablesOf r.words := by
  obtain ⟨given, p, -, -, rfl⟩ := Draft.request_result_eq_ok.1 (draft_of_ofSettings h)
  rfl

/-- The value of the first Content-Type field is a word of the header fields. -/
theorem exists_field_of_explicitContentType {r : Request} {t : Word}
    (h : r.explicitContentType? = some t) : ∃ field ∈ r.headers, field.value = t := by
  obtain ⟨field, hfind, hvalue⟩ := Option.map_eq_some_iff.1 h
  exact ⟨field, List.mem_of_find?_eq_some hfind, hvalue⟩

/-- The variables of a request are those that its program has to look up. -/
theorem mem_usedVariables {settings : List Setting} {r : Request}
    (h : (ofSettings settings).result = .ok r) {n : Text} :
    n ∈ r.usedVariables ↔ n ∈ r.sentWords.flatMap Word.variableNames := by
  have hmethod : r.method.toList.flatMap Word.variableNames = r.effectiveMethod.variableNames := by
    unfold effectiveMethod
    cases r.method with
    | none => simp
    | some method => simp
  -- a content type that is not implied is the value of a header field
  have htype : (n ∈ (r.headers.flatMap fun f => [f.name, f.value]).flatMap Word.variableNames) ∨
        n ∈ r.body.contentType?.toList.flatMap Word.variableNames ↔
      (n ∈ (r.headers.flatMap fun f => [f.name, f.value]).flatMap Word.variableNames) ∨
        n ∈ r.impliedContentType?.toList.flatMap Word.variableNames := by
    unfold impliedContentType?
    cases hexplicit : r.explicitContentType? with
    | none => rfl
    | some value =>
      simp only [Option.toList_none, List.flatMap_nil, List.not_mem_nil, or_false,
        or_iff_left_iff_imp]
      intro hn
      cases hbody : r.body.contentType? with
      | none => simp [hbody] at hn
      | some t =>
        rw [hbody, Option.toList_some, List.flatMap_singleton] at hn
        rcases contentType_of_ofSettings h hbody with hnone | hsame
        · simp [Word.variableNames, hnone] at hn
        · obtain ⟨f, hf, rfl⟩ := exists_field_of_explicitContentType hsame
          exact List.mem_flatMap.2 ⟨f.value, List.mem_flatMap.2 ⟨f, hf, by simp⟩, hn⟩
  rw [usedVariables_of_ofSettings h, variablesOf, List.mem_eraseDups]
  simp only [words, sentWords, List.flatMap_append, List.mem_append, hmethod,
    Body.mem_variableNames_words, List.flatMap_cons, List.flatMap_nil, List.append_nil]
  grind

end Request

/-! ## Operands of words -/

/-- The name of the variable that an operand looks up. -/
def Operand.variable? : Operand → Option Text
  | literal _ => none
  | lookup name => some name

/-- The operands of a word look up its variables. -/
theorem Word.filterMap_operands (w : Word) :
    w.operands.filterMap Operand.variable? = w.variableNames := by
  have hpart (part : WordPart) :
      Operand.variable? (Operand.ofPart part) = (WordPart.reference? part).map Reference.name := by
    cases part <;> rfl
  unfold operands
  split
  next hempty =>
    rw [variableNames, references_eq, List.isEmpty_iff.1 hempty]
    rfl
  next =>
    rw [List.filterMap_map, variableNames, references_eq, WordPart.referencesOf,
      List.map_filterMap]
    exact congrArg (fun f => w.parts.filterMap f) (funext hpart)

end CurlScribe
