import CurlScribe.Proofs.Encoding.Base64
import CurlScribe.Proofs.Encoding.Utf8
import CurlScribe.Proofs.Outcome
import CurlScribe.Proofs.Text.Runs
import CurlScribe.Proofs.Url.Graphic
import CurlScribe.Target.Render

/-!
# Messages as they are received

A receiver takes what stands before the first empty line for the head of a message, and the lines
of the head for the request line and the header fields. What is written for a request is taken apart
in just this way: no field, credential or body ends the head early or brings in a line of its own.
-/

namespace CurlScribe

/-- A text without line breaks. -/
def Text.OnOneLine (t : Text) : Prop := ∀ c ∈ t, Message.isLineBreak c = false

instance (t : Text) : Decidable (Text.OnOneLine t) :=
  List.decidableBAll (fun c => Message.isLineBreak c = false) t

/-! ## Receiving -/

/-- A message as it is received. -/
structure Received where
  method : Text
  target : Text
  version : Text
  fields : List (Text × Text)
  body : Text
deriving DecidableEq, Repr

namespace Message

/-- The lines of a text, which are separated by line ends. -/
def lines : Text → List Text
  | [] => [[]]
  | '\r' :: '\n' :: rest => [] :: lines rest
  | c :: rest => (lines rest).modifyHead (c :: ·)

/-- A request line: what stands before its first space, behind its last and between them. -/
def readRequestLine? (line : Text) : Option (Text × Text × Text) :=
  match Text.splitFirst (· == ' ') line with
  | none => none
  | some (method, rest) =>
    (Text.splitLast (· == ' ') rest).map fun (target, version) => (method, target, version)

/-- What a request line names: the path, and the query behind the first question mark, if there is
one. -/
def readTarget (target : Text) : Text × Option Text :=
  match Text.splitFirst (· == '?') target with
  | some (path, query) => (path, some query)
  | none => (target, none)

/-- A header field: a name, a colon and a space, and a value. -/
def readField? (line : Text) : Option (Text × Text) :=
  match Text.splitFirst (· == ':') line with
  | some (name, ' ' :: value) => some (name, value)
  | _ => none

/-- The message that a text is. -/
def read? (t : Text) : Option Received :=
  match Text.splitAround (lineEnd ++ lineEnd) t with
  | none => none
  | some (head, body) =>
    match lines head with
    | [] => none
    | first :: rest =>
      match readRequestLine? first, rest.mapM readField? with
      | some (method, target, version), some fields => some ⟨method, target, version, fields, body⟩
      | _, _ => none

end Message

/-! ## Lines -/

namespace Text

/-- Texts side by side are on one line if both are. -/
theorem onOneLine_append {s t : Text} : OnOneLine (s ++ t) ↔ s.OnOneLine ∧ t.OnOneLine :=
  List.forall_mem_append

theorem OnOneLine.not_mem_return {t : Text} (h : t.OnOneLine) : '\r' ∉ t :=
  fun hc => absurd (h _ hc) (by decide)

theorem OnOneLine.not_mem_feed {t : Text} (h : t.OnOneLine) : '\n' ∉ t :=
  fun hc => absurd (h _ hc) (by decide)

theorem isLineBreak_of_isGraphic {c : Char} (h : isGraphic c = true) :
    Message.isLineBreak c = false := by
  rw [isGraphic_iff] at h
  simp only [Message.isLineBreak, Bool.or_eq_false_iff, beq_eq_false_iff_ne]
  constructor
  · rintro rfl
    exact absurd h.1 (by decide)
  · rintro rfl
    exact absurd h.1 (by decide)

/-- Visible texts are on one line. -/
theorem IsGraphic.onOneLine {t : Text} (h : t.IsGraphic) : t.OnOneLine :=
  fun c hc => isLineBreak_of_isGraphic (h c hc)

end Text

namespace Message

/-- Lines of which each has its end. -/
def ended (ls : List Text) : Text := ls.flatMap (· ++ lineEnd)

theorem ended_cons (l : Text) (ls : List Text) : ended (l :: ls) = l ++ (lineEnd ++ ended ls) := by
  rw [ended, List.flatMap_cons, List.append_assoc, ended]

theorem lines_of_not_mem {line : Text} (h : '\r' ∉ line) : lines line = [line] := by
  induction line with
  | nil => rfl
  | cons c line ih =>
    rw [List.mem_cons, not_or] at h
    rw [lines, ih h.2]
    · rfl
    · intro rest hc
      exact absurd hc (Ne.symm h.1)

/-- A line ends at the first line end behind it. -/
theorem lines_append {line : Text} (h : '\r' ∉ line) (rest : Text) :
    lines (line ++ lineEnd ++ rest) = line :: lines rest := by
  induction line with
  | nil => rfl
  | cons c line ih =>
    rw [List.mem_cons, not_or] at h
    rw [List.cons_append, List.cons_append, lines, ih h.2]
    · rfl
    · intro rest hc
      exact absurd hc (Ne.symm h.1)

/-- Lines that are joined are found again. -/
theorem lines_join {first : Text} {rest : List Text} (h : ∀ l ∈ first :: rest, '\r' ∉ l) :
    lines (Text.join lineEnd (first :: rest)) = first :: rest := by
  induction rest generalizing first with
  | nil =>
    rw [Text.join, List.intercalate_singleton]
    exact lines_of_not_mem (h first (by simp))
  | cons second rest ih =>
    rw [Text.join, List.intercalate_cons_cons, lines_append (h first (by simp)), ← Text.join,
      ih fun l hl => h l (List.mem_cons_of_mem _ hl)]

/-- A line is passed on the way to an empty one. -/
theorem splitAround_append {line rest before after : Text} (h : '\r' ∉ line)
    (hrest : Text.splitAround (lineEnd ++ lineEnd) rest = some (before, after)) :
    Text.splitAround (lineEnd ++ lineEnd) (line ++ rest) = some (line ++ before, after) := by
  induction line with
  | nil => exact hrest
  | cons c line ih =>
    rw [List.mem_cons, not_or] at h
    have hstrip : Text.stripPrefix? (lineEnd ++ lineEnd) (c :: (line ++ rest)) = none := by
      show Text.stripPrefix? ('\r' :: _) _ = none
      rw [Text.stripPrefix?, if_neg h.1]
    rw [List.cons_append, Text.splitAround, hstrip, ih h.2]
    rfl

/-- A line end is passed if a line begins behind it. -/
theorem splitAround_lineEnd {c : Char} {rest before after : Text} (hc : c ≠ '\r')
    (hrest : Text.splitAround (lineEnd ++ lineEnd) (c :: rest) = some (before, after)) :
    Text.splitAround (lineEnd ++ lineEnd) (lineEnd ++ c :: rest) =
      some (lineEnd ++ before, after) := by
  -- two line ends begin neither at the first character of this one nor at the second
  have hreturn : Text.stripPrefix? (lineEnd ++ lineEnd) ('\r' :: '\n' :: c :: rest) = none := by
    show Text.stripPrefix? ['\r', '\n', '\r', '\n'] _ = none
    simp only [Text.stripPrefix?, if_true]
    exact if_neg (Ne.symm hc)
  have hfeed : Text.stripPrefix? (lineEnd ++ lineEnd) ('\n' :: c :: rest) = none := rfl
  show Text.splitAround _ ('\r' :: '\n' :: c :: rest) = _
  rw [Text.splitAround, hreturn, Text.splitAround, hfeed, hrest]
  rfl

/-- The first empty line is the one behind the head. -/
theorem splitAround_ended {first : Text} {rest : List Text} (body : Text)
    (h : ∀ l ∈ first :: rest, '\r' ∉ l) (hne : ∀ l ∈ rest, l ≠ []) :
    Text.splitAround (lineEnd ++ lineEnd) (ended (first :: rest) ++ lineEnd ++ body) =
      some (Text.join lineEnd (first :: rest), body) := by
  -- each line end but the last has a line behind it, so that the empty line is not found early
  induction rest generalizing first with
  | nil =>
    have hend : Text.splitAround (lineEnd ++ lineEnd) (lineEnd ++ lineEnd ++ body)
        = some ([], body) := by
      show Text.splitAround _ ('\r' :: '\n' :: '\r' :: '\n' :: body) = _
      simp only [Text.splitAround, lineEnd, List.cons_append, List.nil_append,
        Text.stripPrefix?, if_true]
    rw [ended_cons, Text.join, List.intercalate_singleton]
    simpa [ended] using splitAround_append (h first (by simp)) hend
  | cons second rest ih =>
    have hrest := ih (fun l hl => h l (List.mem_cons_of_mem _ hl))
      (fun l hl => hne l (List.mem_cons_of_mem _ hl))
    obtain ⟨c, line, rfl⟩ := List.exists_cons_of_ne_nil (hne second (by simp))
    have hc : c ≠ '\r' := by
      intro hc
      exact h (c :: line) (by simp) (by simp [hc])
    rw [ended_cons, List.append_assoc, List.append_assoc] at hrest
    have hfirst := splitAround_append (h first (by simp)) (splitAround_lineEnd hc hrest)
    rw [ended_cons, ended_cons, Text.join, List.intercalate_cons_cons, ← Text.join]
    simpa using hfirst

/-! ## Reading back -/

/-- A request line as it is written, without its end. -/
def requestLineText (method target : Text) : Text :=
  method ++ ' ' :: target ++ " HTTP/1.1".toList

/-- A header field as it is written, without the end of its line. -/
def fieldText (field : Text × Text) : Text := field.1 ++ ": ".toList ++ field.2

/-- A field that is read back from its line. -/
structure IsField (field : Text × Text) : Prop where
  noColon : ':' ∉ field.1
  name : field.1.OnOneLine
  value : field.2.OnOneLine

/-- A message whose parts are read back. -/
structure IsFramed (m : Message) : Prop where
  noSpace : ' ' ∉ m.method
  method : m.method.OnOneLine
  target : m.target.OnOneLine
  fields : ∀ field ∈ m.fields, IsField field

/-- The request line is read back if the method has no space in it. -/
theorem readRequestLine?_text {method : Text} (h : ' ' ∉ method) (target : Text) :
    readRequestLine? (requestLineText method target) =
      some (method, target, "HTTP/1.1".toList) := by
  have hfirst : Text.splitFirst (· == ' ') (requestLineText method target) =
      some (method, target ++ " HTTP/1.1".toList) := by
    rw [Text.splitFirst_eq_some_iff]
    exact ⟨by simp [requestLineText], h⟩
  have hlast : Text.splitLast (· == ' ') (target ++ " HTTP/1.1".toList) =
      some (target, "HTTP/1.1".toList) := Text.splitLast_append (by decide) target
  rw [readRequestLine?, hfirst]
  dsimp only
  rw [hlast]
  rfl

/-- A field is read back if its name has no colon. -/
theorem readField?_text {field : Text × Text} (h : ':' ∉ field.1) :
    readField? (fieldText field) = some field := by
  have hfirst : Text.splitFirst (· == ':') (fieldText field) =
      some (field.1, ' ' :: field.2) := by
    rw [Text.splitFirst_eq_some_iff]
    exact ⟨by simp [fieldText], h⟩
  rw [readField?, hfirst]
  rfl

/-- The lines of a message before its first empty line. -/
def headLines (m : Message) : List Text :=
  requestLineText m.method m.target :: m.fields.map fieldText

/-- A message is its lines, each with its end, an empty one and the body. -/
theorem text_eq_ended (m : Message) :
    m.text = ended m.headLines ++ lineEnd ++ m.body.getD [] := by
  have hfields : m.fields.flatMap fieldLine = ended (m.fields.map fieldText) := by
    rw [ended, List.flatMap_map]
    rfl
  rw [text, hfields, headLines, ended_cons, requestLine, requestLineText]
  simp

/-- Fields are read back line by line. -/
theorem mapM_readField? {fields : List (Text × Text)} (h : ∀ field ∈ fields, IsField field) :
    (fields.map fieldText).mapM readField? = some fields := by
  induction fields with
  | nil => rfl
  | cons field fields ih =>
    rw [List.map_cons, List.mapM_cons, readField?_text (h field (by simp)).noColon,
      ih fun f hf => h f (List.mem_cons_of_mem _ hf)]
    rfl

/-- A message is read back from its text, whatever its body holds. -/
theorem read?_text {m : Message} (h : m.IsFramed) :
    read? m.text =
      some ⟨m.method, m.target, "HTTP/1.1".toList, m.fields, m.body.getD []⟩ := by
  have hline : ∀ l ∈ m.headLines, '\r' ∉ l := by
    intro l hl
    apply Text.OnOneLine.not_mem_return
    rw [headLines, List.mem_cons, List.mem_map] at hl
    rcases hl with rfl | ⟨field, hfield, rfl⟩
    · simp only [requestLineText, Text.onOneLine_append]
      exact ⟨⟨h.method, List.forall_mem_cons.2 ⟨rfl, h.target⟩⟩, by decide⟩
    · have hf := h.fields field hfield
      simp only [fieldText, Text.onOneLine_append]
      exact ⟨⟨hf.name, by decide⟩, hf.value⟩
  have hne : ∀ l ∈ m.fields.map fieldText, l ≠ [] := by
    intro l hl
    obtain ⟨field, -, rfl⟩ := List.mem_map.1 hl
    simp [fieldText]
  rw [read?, text_eq_ended, headLines, splitAround_ended _ hline hne]
  dsimp only
  rw [lines_join hline]
  dsimp only
  rw [readRequestLine?_text h.noSpace, mapM_readField? h.fields]

end Message

/-! ## What a request asks for -/

/-- The text that a body is sent as; no other bodies can be sent in a message. -/
inductive Body.SentAs : Body → Option Text → Prop
  | empty : SentAs .empty none
  | raw {content contentType : Word} {t : Text} (h : content.literal? = some t) :
      SentAs (.raw content contentType) (some t)
  | urlEncoded {pairs : List (Word × Word)} {t : Text}
      (h : (Body.encoded pairs).literal? = some t) : SentAs (.urlEncoded pairs) (some t)

/-- The host of a URL, with its port where that is not the one of the scheme. -/
def Url.authority? (url : Url) : Option Text :=
  url.host.map fun host =>
    match url.port with
    | some port => host.text ++ ':' :: Text.ofNat port
    | none => host.text

/-- The field carries the credentials: its payload spells their text in Base64. -/
def Credentials.SentAs (c : Credentials) (field : Text × Text) : Prop :=
  ∃ user password payload, c.user.literal? = some user ∧ c.password.literal? = some password ∧
    field = ("Authorization".toList, "Basic ".toList ++ payload) ∧
    (Base64.decode? payload).bind Utf8.decode? = some (user ++ ':' :: password)

/-- The field has the given name and value. -/
def Word.SentAs (name value : Word) (field : Text × Text) : Prop :=
  name.literal? = some field.1 ∧ value.literal? = some field.2

/-- The field says in decimal digits how many bytes the body has. -/
def Text.SizeSentAs (body : Text) (field : Text × Text) : Prop :=
  field.1 = "Content-Length".toList ∧ field.2.all Char.isDigit ∧
    Nat.ofDigitChars 10 field.2 0 = (Utf8.encode body).length

/-- The header fields of a message by where they come from. -/
structure Sections where
  host : List (Text × Text)
  given : List (Text × Text)
  implied : List (Text × Text)
  credentials : List (Text × Text)
  length : List (Text × Text)

namespace Sections

/-- All fields in order. -/
def fields (s : Sections) : List (Text × Text) :=
  s.host ++ s.given ++ s.implied ++ s.credentials ++ s.length

/-- The fields are those of the request: its own and no others but a host unless it names one, the
type of its body unless it names one, its credentials if it has any, and the size of its body, if it
has one, unless it names that. -/
structure Answer (s : Sections) (r : Request) (url : Url) (body : Option Text) : Prop where
  host : if Headers.has r.headers "Host".toList then s.host = []
    else ∃ authority, url.authority? = some authority ∧ s.host = [("Host".toList, authority)]
  given : List.Forall₂ (fun h => Word.SentAs h.name h.value) r.headers s.given
  implied : List.Forall₂ (Word.SentAs (Word.ofString "Content-Type"))
    r.impliedContentType?.toList s.implied
  credentials : List.Forall₂ Credentials.SentAs r.credentials.toList s.credentials
  length : if Headers.has r.headers "Content-Length".toList then s.length = []
    else List.Forall₂ Text.SizeSentAs body.toList s.length

end Sections

/-! ## From requests -/

theorem Word.contains_eq {w : Word} {t : Text} (h : w.literal? = some t) (c : Char) :
    w.contains c = t.contains c := by
  unfold literal? at h
  unfold contains
  split at h
  next hparts => rw [hparts, ← Option.some.inj h]; rfl
  next hparts => rw [hparts, ← Option.some.inj h, List.any_cons, List.any_nil, Bool.or_false]
  · cases h

theorem Base64.isGraphic_encode (bytes : Bytes) : Text.IsGraphic (encode bytes) := by
  have hdigit : ∀ n < 64, Text.isGraphic (digit n) = true := by decide
  induction bytes using encode.induct with
  | case1 => exact Text.isGraphic_nil
  | case2 a =>
    have ha := a.toNat_lt
    simp only [encode, Text.isGraphic_cons]
    exact ⟨hdigit _ (by omega), hdigit _ (by omega), rfl, rfl, Text.isGraphic_nil⟩
  | case3 a b =>
    have ha := a.toNat_lt
    have hb := b.toNat_lt
    simp only [encode, Text.isGraphic_cons]
    exact ⟨hdigit _ (by omega), hdigit _ (by omega), hdigit _ (by omega), rfl, Text.isGraphic_nil⟩
  | case4 a b c rest ih =>
    have ha := a.toNat_lt
    have hb := b.toNat_lt
    have hc := c.toNat_lt
    simp only [encode, Text.isGraphic_cons]
    exact ⟨hdigit _ (by omega), hdigit _ (by omega), hdigit _ (by omega), hdigit _ (by omega), ih⟩

namespace Message

variable {r : Request}

/-- Only a word without references is literal. -/
theorem literal_eq_ok {w : Word} {t : Text} : literal w = .ok t ↔ w.literal? = some t := by
  unfold literal
  cases w.literal? with
  | none => exact ⟨nofun, nofun⟩
  | some s => rw [Except.ok.injEq, Option.some.injEq]

/-- A field is sent as it is given, in one line. -/
theorem field_eq_ok {name value : Word} {f : Text × Text} (h : field name value = .ok f) :
    Word.SentAs name value f ∧ f.1.OnOneLine ∧ f.2.OnOneLine := by
  obtain ⟨n, hn, h⟩ := Except.bind_eq_ok.1 h
  obtain ⟨v, hv, h⟩ := Except.bind_eq_ok.1 h
  split at h
  · cases h
  next hbreak =>
    obtain rfl := Except.ok.inj h
    rw [Bool.or_eq_true, not_or, List.any_eq_true, List.any_eq_true] at hbreak
    refine ⟨⟨literal_eq_ok.1 hn, literal_eq_ok.1 hv⟩, fun c hc => ?_, fun c hc => ?_⟩
    · by_contra hb
      exact hbreak.1 ⟨c, hc, by simpa using hb⟩
    · by_contra hb
      exact hbreak.2 ⟨c, hc, by simpa using hb⟩

/-- A field that is added to those of the request, if its value has no line break. -/
theorem isField_added {name value : Text} (hname : ':' ∉ name ∧ name.OnOneLine)
    (hvalue : value.OnOneLine) : ∀ f ∈ [(name, value)], IsField f := by
  intro f hf
  obtain rfl := List.mem_singleton.1 hf
  exact ⟨hname.1, hname.2, hvalue⟩

/-- The body is sent as it is given. -/
theorem sentAs_of_bodyText {body : Body} {text : Option Text} (h : bodyText body = .ok text) :
    body.SentAs text := by
  cases body with
  | empty =>
    obtain rfl := Except.ok.inj h
    exact .empty
  | raw content contentType =>
    obtain ⟨t, ht, rfl⟩ := Except.map_eq_ok.1 h
    exact .raw (literal_eq_ok.1 ht)
  | urlEncoded pairs =>
    obtain ⟨t, ht, rfl⟩ := Except.map_eq_ok.1 h
    exact .urlEncoded (literal_eq_ok.1 ht)
  | multipart parts => cases h
  | file path contentType => cases h

/-- A host is sent just if no field gives one, and it is the one that the URL names. -/
theorem hostFields_spec {headers : Headers} {url : Url} {fields : List (Text × Text)}
    (hurl : url.IsGraphic) (h : hostFields headers url = .ok fields) :
    (if Headers.has headers "Host".toList then fields = []
      else ∃ authority, url.authority? = some authority ∧ fields = [("Host".toList, authority)]) ∧
      ∀ f ∈ fields, IsField f := by
  unfold hostFields at h
  split at h
  next hhas =>
    obtain rfl := Except.ok.inj h
    rw [if_pos hhas]
    exact ⟨rfl, nofun⟩
  next hhas =>
    rw [if_neg hhas]
    split at h
    · cases h
    next host port hhost hport =>
      obtain rfl := Except.ok.inj h
      have hauthority := Text.isGraphic_append.2 ⟨hurl.host host hhost,
        (Text.isGraphic_cons (c := ':')).2 ⟨rfl, Text.isGraphic_ofNat port⟩⟩
      refine ⟨⟨_, ?_, rfl⟩, isField_added (by decide) hauthority.onOneLine⟩
      rw [Url.authority?, hhost, hport]
      rfl
    next host hhost hport =>
      obtain rfl := Except.ok.inj h
      refine ⟨⟨_, ?_, rfl⟩, isField_added (by decide) (hurl.host host hhost).onOneLine⟩
      rw [Url.authority?, hhost, hport]
      rfl

/-- Credentials are sent in one field, in one line. -/
theorem credentialsFields_spec {credentials : Option Credentials} {fields : List (Text × Text)}
    (h : credentialsFields credentials = .ok fields) :
    List.Forall₂ Credentials.SentAs credentials.toList fields ∧ ∀ f ∈ fields, IsField f := by
  cases credentials with
  | none =>
    obtain rfl := Except.ok.inj h
    exact ⟨.nil, nofun⟩
  | some c =>
    obtain ⟨user, huser, h⟩ := Except.bind_eq_ok.1 h
    obtain ⟨password, hpassword, h⟩ := Except.bind_eq_ok.1 h
    obtain rfl := Except.ok.inj h
    constructor
    · refine
        .cons ⟨user, password, _, literal_eq_ok.1 huser, literal_eq_ok.1 hpassword, rfl, ?_⟩ .nil
      rw [Base64.decode?_encode, Option.bind_some, Utf8.decode?_encode]
    · apply isField_added (by decide)
      exact Text.onOneLine_append.2 ⟨by decide, (Base64.isGraphic_encode _).onOneLine⟩

/-- The size of a body is sent just if no field gives one. -/
theorem lengthFields_spec (headers : Headers) (body : Option Text) :
    (if Headers.has headers "Content-Length".toList then lengthFields headers body = []
      else List.Forall₂ Text.SizeSentAs body.toList (lengthFields headers body)) ∧
      ∀ f ∈ lengthFields headers body, IsField f := by
  cases body with
  | none =>
    refine ⟨?_, nofun⟩
    split
    · rfl
    · exact .nil
  | some body =>
    unfold lengthFields
    split
    · exact ⟨rfl, nofun⟩
    · constructor
      · refine .cons ⟨rfl, ?_, ?_⟩ .nil
        · rw [List.all_eq_true]
          exact fun c hc => Nat.isDigit_of_mem_toDigits (by decide) (by decide) hc
        · rw [Text.ofNat, Nat.ofDigitChars_ten_toDigits, Utf8.length_encode]
      · exact isField_added (by decide) (Text.isGraphic_ofNat _).onOneLine

/-- The parts that the message of a request is made of. -/
theorem ofRequest_eq_ok {m : Message} (h : ofRequest r = .ok m) :
    ∃ (url : Url) (s : Sections), urlOf r = .ok url ∧ m.target = targetOf url ∧
      literal r.effectiveMethod = .ok m.method ∧ bodyText r.body = .ok m.body ∧
      m.fields = s.fields ∧ hostFields r.headers url = .ok s.host ∧
      (r.headers.mapM fun h => field h.name h.value) = .ok s.given ∧
      r.impliedContentType?.toList.mapM (field (Word.ofString "Content-Type")) = .ok s.implied ∧
      credentialsFields r.credentials = .ok s.credentials ∧
      s.length = lengthFields r.headers m.body := by
  unfold ofRequest at h
  split at h
  · cases h
  · obtain ⟨body, hbody, h⟩ := Except.bind_eq_ok.1 h
    obtain ⟨url, hurl, h⟩ := Except.bind_eq_ok.1 h
    obtain ⟨method, hmethod, h⟩ := Except.bind_eq_ok.1 h
    obtain ⟨host, hhost, h⟩ := Except.bind_eq_ok.1 h
    obtain ⟨given, hgiven, h⟩ := Except.bind_eq_ok.1 h
    obtain ⟨implied, himplied, h⟩ := Except.bind_eq_ok.1 h
    obtain ⟨credentials, hcredentials, h⟩ := Except.bind_eq_ok.1 h
    obtain rfl := Except.ok.inj h
    exact ⟨url, ⟨host, given, implied, credentials, lengthFields r.headers body⟩, hurl, rfl,
      hmethod, hbody, rfl, hhost, hgiven, himplied, hcredentials, rfl⟩

/-- The URL of a request is written in visible characters. -/
theorem isGraphic_urlOf {url : Url} (h : urlOf r = .ok url) : url.IsGraphic := by
  obtain ⟨t, -, h⟩ := Except.bind_eq_ok.1 h
  split at h
  next hparse =>
    obtain rfl := Except.ok.inj h
    exact Url.isGraphic_parse hparse
  · cases h

/-- What the request line names is on one line. -/
theorem onOneLine_targetOf {url : Url} (h : url.IsGraphic) : (targetOf url).OnOneLine := by
  have hpath : url.path.OnOneLine := by
    intro c hc
    rcases (h.path c hc).1 with hgraphic | ⟨-, rfl⟩
    · exact Text.isLineBreak_of_isGraphic hgraphic
    · rfl
  unfold targetOf
  split
  next query hquery =>
    rw [Text.onOneLine_append]
    exact ⟨hpath, List.forall_mem_cons.2 ⟨rfl, (h.query query hquery).onOneLine⟩⟩
  · exact hpath

/-- The path and the query of the URL are read back from what the request line names. -/
theorem readTarget_targetOf {url : Url} (h : url.IsGraphic) :
    readTarget (targetOf url) = (url.path, url.query) := by
  have hquestion : '?' ∉ url.path := fun hc => (h.path _ hc).2 rfl
  unfold readTarget targetOf
  cases url.query with
  | some query =>
    have hsplit : Text.splitFirst (· == '?') (url.path ++ '?' :: query) =
        some (url.path, query) := by
      rw [Text.splitFirst_eq_some_iff]
      exact ⟨rfl, hquestion⟩
    dsimp only
    rw [hsplit]
  | none =>
    dsimp only
    rw [Text.splitFirst_of_not_mem hquestion]

/-- The fields of a message are those of the request, and each is read back from its line if no name
has a colon. -/
theorem answer_of_ofRequest {m : Message} (h : ofRequest r = .ok m)
    (hnames : ∀ h ∈ r.headers, h.name.contains ':' = false) :
    ∃ (url : Url) (s : Sections), urlOf r = .ok url ∧ m.target = targetOf url ∧
      m.fields = s.fields ∧ s.Answer r url m.body ∧ ∀ f ∈ m.fields, IsField f := by
  obtain ⟨url, s, hurl, htarget, -, -, hfields, hhost, hgiven, himplied, hcredentials, hlength⟩ :=
    ofRequest_eq_ok h
  have hhost := hostFields_spec (isGraphic_urlOf hurl) hhost
  have hcredentials := credentialsFields_spec hcredentials
  have hlength' := lengthFields_spec r.headers m.body
  rw [← hlength] at hlength'
  -- the names of these fields are the request's, and nothing else keeps colons out of them
  have hgiven' : ∀ f ∈ s.given, IsField f := by
    intro f hf
    obtain ⟨header, hmem, hfield⟩ := Except.exists_mem_of_mapM hgiven hf
    obtain ⟨hsent, hname, hvalue⟩ := field_eq_ok hfield
    have hcolon := hnames header hmem
    rw [Word.contains_eq hsent.1] at hcolon
    exact ⟨by simpa using hcolon, hname, hvalue⟩
  have himplied' : ∀ f ∈ s.implied, IsField f := by
    intro f hf
    obtain ⟨type, -, hfield⟩ := Except.exists_mem_of_mapM himplied hf
    obtain ⟨⟨hsent, -⟩, hname, hvalue⟩ := field_eq_ok hfield
    have hname' : f.1 = "Content-Type".toList := Option.some.inj (hsent.symm.trans rfl)
    exact ⟨by rw [hname']; decide, hname, hvalue⟩
  refine ⟨url, s, hurl, htarget, hfields, ?_, ?_⟩
  · exact {
      host := hhost.1
      given := (Except.mapM_eq_ok.1 hgiven).imp fun _ _ hfield => (field_eq_ok hfield).1
      implied := (Except.mapM_eq_ok.1 himplied).imp fun _ _ hfield => (field_eq_ok hfield).1
      credentials := hcredentials.1
      length := hlength'.1 }
  · intro f hf
    simp only [hfields, Sections.fields, List.mem_append] at hf
    rcases hf with (((hf | hf) | hf) | hf) | hf
    · exact hhost.2 f hf
    · exact hgiven' f hf
    · exact himplied' f hf
    · exact hcredentials.2 f hf
    · exact hlength'.2 f hf

end Message

/-- What is received is the request: its method, the path and the query of its URL, its header
fields and no others but those that it calls for, and its body. -/
structure Received.Conveys (m : Received) (r : Request) (url : Url) (s : Sections)
    (body : Option Text) : Prop where
  method : r.effectiveMethod.literal? = some m.method
  target : Message.readTarget m.target = (url.path, url.query)
  version : m.version = "HTTP/1.1".toList
  fields : m.fields = s.fields
  answer : s.Answer r url body
  sent : r.body.SentAs body
  body : m.body = body.getD []

namespace Message

/-- A message is framed by what the request says and nothing else: whatever the texts of the fields,
the credentials and the body are, a receiver finds one request line, the fields of the request in
order, and exactly its body behind the first empty line. -/
theorem read?_render {r : Request} {source : Source}
    (hnames : ∀ h ∈ r.headers, h.name.contains ':' = false)
    (hmethod : ∀ c ∈ [' ', '\r', '\n'], r.effectiveMethod.contains c = false)
    (h : r.render .http = .ok source) :
    ∃ (received : Received) (url : Url) (s : Sections) (body : Option Text),
      read? source.text = some received ∧ urlOf r = .ok url ∧ received.Conveys r url s body := by
  obtain ⟨m, hm, rfl⟩ := Except.map_eq_ok.1 h
  obtain ⟨_, _, -, -, hliteral, hbody, -⟩ := ofRequest_eq_ok hm
  obtain ⟨url, s, hurl, htarget, hfields, hanswer, hframed⟩ := answer_of_ofRequest hm hnames
  rw [literal_eq_ok] at hliteral
  -- the method is written unchecked: that it stays on its line is what is assumed of it
  have hclean (c : Char) (hc : c ∈ [' ', '\r', '\n']) : c ∉ m.method := by
    have hcontains := hmethod c hc
    rw [Word.contains_eq hliteral] at hcontains
    simpa using hcontains
  have hmframed : m.IsFramed := {
    noSpace := hclean ' ' (by decide)
    method := by
      intro c hc
      rw [isLineBreak, Bool.or_eq_false_iff, beq_eq_false_iff_ne, beq_eq_false_iff_ne]
      exact ⟨fun he => hclean '\r' (by decide) (he ▸ hc),
        fun he => hclean '\n' (by decide) (he ▸ hc)⟩
    target := htarget ▸ onOneLine_targetOf (isGraphic_urlOf hurl)
    fields := hframed }
  exact ⟨_, url, s, m.body, read?_text hmframed, hurl,
    ⟨hliteral, htarget ▸ readTarget_targetOf (isGraphic_urlOf hurl), rfl, hfields, hanswer,
      sentAs_of_bodyText hbody, rfl⟩⟩

/-- A body with an empty line and what looks like a field, a value with a colon, and a password with
a colon. -/
theorem read?_render_hostile :
    let r : Request := {
      method := none
      url := Word.ofString "http://[::1]:8080/?q"
      headers := [⟨Word.ofString "X", Word.ofString "a: b"⟩]
      credentials := some ⟨Word.ofString "u", Word.ofString "p:q"⟩
      body := .raw (Word.ofString "a\r\n\r\nHost: é") (Word.ofString "text/plain")
      usedVariables := [] }
    (∀ h ∈ r.headers, h.name.contains ':' = false) ∧
      (∀ c ∈ [' ', '\r', '\n'], r.effectiveMethod.contains c = false) ∧
      ∃ source, r.render .http = .ok source ∧
        ∃ received url s body, read? source.text = some received ∧ urlOf r = .ok url ∧
          received.Conveys r url s body := by
  intro r
  have hnames : ∀ h ∈ r.headers, h.name.contains ':' = false := by decide
  have hmethod : ∀ c ∈ [' ', '\r', '\n'], r.effectiveMethod.contains c = false := by
    simp only [List.forall_mem_cons]
    exact ⟨rfl, rfl, rfl, nofun⟩
  let head :=
    "POST /?q HTTP/1.1\r\nHost: [::1]:8080\r\nX: a: b\r\nContent-Type: text/plain\r\n".toList
  let rest := "Authorization: Basic dTpwOnE=\r\nContent-Length: 13\r\n\r\na\r\n\r\nHost: é".toList
  have hrender : (r.render .http).toOption = some ⟨head ++ rest, [], []⟩ := by decide +kernel
  have hsource := Except.eq_ok_of_toOption hrender
  exact ⟨hnames, hmethod, _, hsource, read?_render hnames hmethod hsource⟩

end Message
end CurlScribe
