import CurlScribe.Proofs.Request.FormParts
import CurlScribe.Proofs.Request.Query

/-!
# Content that can be sent

The content of a request is an upload, data or form fields. What single data options stand for is
read off their values here, and from it whether content can be sent: two demands may contradict each
other, a value may stand for nothing, and otherwise there is a place for the content. The three
cases exclude each other.
-/

namespace CurlScribe

namespace DataItem

/-! ## Single options -/

/-- What the value of a data option stands for. -/
inductive Reading where
  | text
  /-- The contents of the file at `path`. -/
  | file (path : List Atom)
  /-- Standard input, or a file that would have to be encoded. -/
  | unreadable
deriving DecidableEq

/-- A value names a file behind a `@`; `@-` is standard input. -/
def plainReading (value : List Atom) : Reading :=
  match value with
  | .char '@' :: path => if path = [.char '-'] then .unreadable else .file path
  | _ => .text

/-- A value that is to be encoded names a file if it has a `@` and no `=`. -/
def encodedReading (value : List Atom) : Reading :=
  if .char '@' ∈ value ∧ .char '=' ∉ value then .unreadable else .text

/-- Raw data is text, whatever it looks like. -/
def reading (item : DataItem) : Reading :=
  match item.kind with
  | .raw => .text
  | .urlEncode => encodedReading item.value.atoms
  | .ascii | .binary | .json => plainReading item.value.atoms

/-- The first option that does not stand for text. -/
def firstSpecial? (data : List DataItem) : Option Reading := (data.map reading).find? (· ≠ .text)

/-- What becomes of a value that is read so. -/
inductive Reading.Gives (flag : Text) : Reading → Except Error DataContent → Prop
  | text (w : Word) : Gives flag .text (.ok (.text w))
  | file (path : List Atom) : Gives flag (.file path) (.ok (.file (Word.ofAtoms path)))
  | unreadable (fault : ArgumentFault) :
    Gives flag .unreadable (.error (.invalidArgument flag fault))

section Content

variable {item : DataItem} (hw : item.value.IsNormal)

include hw

theorem encodedContent_gives :
    (encodedReading item.value.atoms).Gives item.flag (item.encodedContent.map .text) := by
  have hsplit := Word.splitOnce_ofAtoms '=' item.value.atoms
  rw [Word.ofAtoms_atoms hw] at hsplit
  unfold encodedReading encodedContent
  rw [hsplit]
  by_cases hequals : .char '=' ∈ item.value.atoms
  · simp only [hequals, not_true_eq_false, and_false, if_false, if_true]
    exact .text _
  · simp only [hequals, not_false_eq_true, and_true, if_false, Word.contains_eq_true_iff]
    split
    · exact .unreadable _
    · exact .text _

theorem plainContent_gives :
    (plainReading item.value.atoms).Gives item.flag item.plainContent := by
  have hdrop := Word.dropLeading?_eq_ite '@' item.value.atoms
  rw [Word.ofAtoms_atoms hw] at hdrop
  unfold plainReading plainContent
  rw [hdrop]
  split
  next path hat =>
    have hstdin : (Word.ofAtoms path).isText "-".toList = true ↔ path = [.char '-'] := by
      rw [Word.isText, beq_iff_eq, Word.literal?_eq_some_iff (Word.isNormal_ofAtoms path),
        Word.atoms_ofAtoms]
      rfl
    simp only [hat, List.head?_cons, if_true, List.tail_cons, hstdin]
    split
    · exact .unreadable _
    · exact .file path
  next hother =>
    have hat : item.value.atoms.head? ≠ some (.char '@') := by
      intro hat
      obtain ⟨path, hpath⟩ := List.head?_eq_some_iff.1 hat
      exact hother path hpath
    rw [if_neg hat]
    exact .text _

/-- What an option stands for is read off its value. -/
theorem content_gives : item.reading.Gives item.flag item.content := by
  unfold reading content
  cases item.kind with
  | raw => exact .text _
  | urlEncode => exact encodedContent_gives hw
  | ascii => exact plainContent_gives hw
  | binary => exact plainContent_gives hw
  | json => exact plainContent_gives hw

end Content

/-! ## Joined options -/

theorem firstSpecial?_cons (item : DataItem) (rest : List DataItem) :
    firstSpecial? (item :: rest) =
      if item.reading = .text then firstSpecial? rest else some item.reading := by
  rw [firstSpecial?, List.map_cons, List.find?_cons]
  split
  next h => rw [if_neg (of_decide_eq_true h)]
  next h => rw [if_pos (by simpa using h)]; rfl

/-- What becomes of texts that are joined, by the first option among them that is none. -/
inductive JoinsText : Option Reading → Except Error Word → Prop
  | text (w : Word) : JoinsText none (.ok w)
  | file (path : List Atom) (conflict : BodyConflict) :
    JoinsText (some (.file path)) (.error (.conflictingBody conflict))
  | unreadable (flag : Text) (fault : ArgumentFault) :
    JoinsText (some .unreadable) (.error (.invalidArgument flag fault))

/-- What data adds up to: a text, a file that stands alone, or nothing. -/
inductive Joins (data : List DataItem) : Except Error DataContent → Prop
  | text (w : Word) (plain : firstSpecial? data = none) : Joins data (.ok (.text w))
  | file {path : List Atom} (special : firstSpecial? data = some (.file path))
    (alone : data.length = 1) : Joins data (.ok (.file (Word.ofAtoms path)))
  | conflict {path : List Atom} (conflict : BodyConflict)
    (special : firstSpecial? data = some (.file path)) (beside : data.length ≠ 1) :
    Joins data (.error (.conflictingBody conflict))
  | unreadable (flag : Text) (fault : ArgumentFault)
    (special : firstSpecial? data = some .unreadable) :
    Joins data (.error (.invalidArgument flag fault))

theorem join_eq_joinText {data : List DataItem} (h : data.length ≠ 1) :
    join data = (joinText Word.empty none data).map .text := by
  unfold join
  split
  · exact absurd rfl h
  · rfl

section Joined

variable {data : List DataItem} (hw : ∀ item ∈ data, item.value.IsNormal)

include hw

theorem joinText_joinsText (joined : Word) (previous : Option DataKind) :
    JoinsText (firstSpecial? data) (joinText joined previous data) := by
  induction data generalizing joined previous with
  | nil => exact .text joined
  | cons item rest ih =>
    obtain ⟨hitem, hrest⟩ := List.forall_mem_cons.1 hw
    have hgives := content_gives hitem
    rw [firstSpecial?_cons]
    unfold joinText
    generalize item.reading = reading, item.content = content at hgives ⊢
    cases hgives with
    | text w => exact ih hrest _ _
    | file path => exact .file path _
    | unreadable fault => exact .unreadable _ fault

theorem join_joins : Joins data (join data) := by
  -- one option may be a file, and several are joined as texts
  by_cases halone : data.length = 1
  · obtain ⟨item, rfl⟩ := List.length_eq_one_iff.1 halone
    have hfirst := firstSpecial?_cons item []
    have hgives := content_gives (hw item List.mem_cons_self)
    show Joins [item] item.content
    generalize item.reading = reading, item.content = content at hfirst hgives ⊢
    cases hgives with
    | text w => exact .text w hfirst
    | file path => exact .file hfirst rfl
    | unreadable fault => exact .unreadable _ _ hfirst
  · have hjoins := joinText_joinsText hw Word.empty none
    rw [join_eq_joinText halone]
    generalize hspecial : firstSpecial? data = special, joinText Word.empty none data = result
      at hjoins ⊢
    cases hjoins with
    | text w => exact .text w hspecial
    | file path conflict => exact .conflict conflict hspecial halone
    | unreadable flag fault => exact .unreadable flag fault hspecial

end Joined
end DataItem

/-! ## Places -/

namespace Draft

variable (upload : Option Word) (inQuery : Bool) (data : List DataItem) (forms : List FormItem)

/-- Do options demand what contradicts? An upload stands alone, form fields cannot stand in the URL,
and the contents of a file neither there nor beside other data. -/
def Conflicts : Prop :=
  upload ≠ none ∧ (data ≠ [] ∨ forms ≠ []) ∨
  upload = none ∧ inQuery = true ∧ forms ≠ [] ∨
  upload = none ∧ forms = [] ∧ (∃ path, DataItem.firstSpecial? data = some (.file path)) ∧
    (2 ≤ data.length ∨ inQuery = true)

/-- Does a value that counts stand for nothing? Where there are form options, data is not looked
at. -/
def HasBadValue : Prop :=
  upload = none ∧ forms = [] ∧ DataItem.firstSpecial? data = some .unreadable ∨
  upload = none ∧ inQuery = false ∧ ∃ item ∈ forms, .char '=' ∉ item.value.atoms

/-- The body that content makes, where `contentType` is the type that the options give. -/
def IsBody (contentType : Option Word) (body : Body) : Prop :=
  match upload, inQuery with
  | some path, _ => body = .file path none
  | none, true => body = .empty
  | none, false => (Body.classify data forms contentType).result = .ok body

/-- What becomes of content: a contradiction, a value that stands for nothing, or a body. -/
inductive Ends (contentType : Option Word) : Except Error Placement → Prop
  | conflict (conflict : BodyConflict) (contradicts : Conflicts upload inQuery data forms)
    (readable : ¬HasBadValue upload inQuery data forms) :
    Ends contentType (.error (.conflictingBody conflict))
  | badValue (flag : Text) (fault : ArgumentFault)
    (consistent : ¬Conflicts upload inQuery data forms)
    (unreadable : HasBadValue upload inQuery data forms) :
    Ends contentType (.error (.invalidArgument flag fault))
  | body (p : Placement) (consistent : ¬Conflicts upload inQuery data forms)
    (readable : ¬HasBadValue upload inQuery data forms)
    (isBody : IsBody upload inQuery data forms contentType p.body) : Ends contentType (.ok p)

variable {upload inQuery data forms} {contentType : Option Word}

theorem firstContentFlag?_eq_none_iff {d : Draft} :
    d.firstContentFlag? = none ↔ d.data = [] ∧ d.forms = [] := by
  unfold firstContentFlag?
  cases d.data with
  | nil => simp
  | cons item rest => simp

/-- An upload contradicts all other content. -/
theorem placeUpload_ends (d : Draft) (url path : Word) :
    Ends (some path) inQuery d.data d.forms contentType (d.placeUpload url path) := by
  unfold placeUpload
  split
  next flag hflag =>
    have hcontent : d.data ≠ [] ∨ d.forms ≠ [] := by
      rw [← not_and_or, ← firstContentFlag?_eq_none_iff, hflag]
      exact nofun
    exact .conflict _ (by simp [Conflicts, hcontent]) (by simp [HasBadValue])
  next hnone =>
    obtain ⟨hdata, hforms⟩ := firstContentFlag?_eq_none_iff.1 hnone
    rw [hdata, hforms]
    exact .body _ (by simp [Conflicts]) (by simp [HasBadValue]) rfl

/-- The query of the URL takes data and no form fields. -/
theorem placeInQuery_ends {d : Draft} (hw : ∀ item ∈ d.data, item.value.IsNormal) (url : Word) :
    Ends none true d.data d.forms contentType (d.placeInQuery url) := by
  cases hforms : d.forms with
  | cons form rest =>
    have hplace : d.placeInQuery url = .error (.conflictingBody (.formInQuery form.flag)) := by
      rw [placeInQuery, hforms]
    rw [hplace]
    exact .conflict _ (by simp [Conflicts]) (by simp [HasBadValue])
  | nil =>
    by_cases hdata : d.data = []
    · rw [placeInQuery_of_nil url hforms hdata, hdata]
      exact .body _ (by simp [Conflicts, DataItem.firstSpecial?])
        (by simp [HasBadValue, DataItem.firstSpecial?]) rfl
    · rw [placeInQuery_of_join url hforms hdata]
      have hjoins := DataItem.join_joins hw
      -- the four ends of joining are the ends of the placement
      generalize DataItem.join d.data = result at hjoins ⊢
      cases hjoins with
      | text query plain =>
        exact .body _ (by simp [Conflicts, plain]) (by simp [HasBadValue, plain]) rfl
      | file special alone =>
        exact .conflict _ (by simp [Conflicts, special]) (by simp [HasBadValue, special])
      | conflict conflict special beside =>
        exact .conflict _ (by simp [Conflicts, special]) (by simp [HasBadValue, special])
      | unreadable flag fault special =>
        exact .badValue _ _ (by simp [Conflicts, special]) (by simp [HasBadValue, special])

/-- Data alone is the body. -/
theorem ofData_ends {data : List DataItem} (hw : ∀ item ∈ data, item.value.IsNormal)
    (url : Word) (headers : Headers) :
    Ends none false data [] contentType
      ((Body.ofData data contentType).map fun body => ⟨url, headers, body⟩) := by
  by_cases hdata : data = []
  · rw [hdata]
    exact .body _ (by simp [Conflicts, DataItem.firstSpecial?])
      (by simp [HasBadValue, DataItem.firstSpecial?]) rfl
  · have hbody : Body.ofData data contentType = (DataItem.join data).map
        (Body.ofContent (contentType.getD (Word.ofText (Body.defaultContentType data)))) := by
      rw [Body.ofData, if_neg (by simpa using hdata)]
    have hsends {content : DataContent} (hjoin : DataItem.join data = .ok content) :
        IsBody none false data [] contentType
          (Body.ofContent (contentType.getD (Word.ofText (Body.defaultContentType data)))
            content) := by
      show Body.ofData data contentType = _
      rw [hbody, hjoin]
      rfl
    have hjoins := DataItem.join_joins hw
    rw [hbody]
    -- the four ends of joining again, now with a body
    generalize hjoin : DataItem.join data = result at hjoins ⊢
    cases hjoins with
    | text w plain =>
      exact .body _ (by simp [Conflicts, plain]) (by simp [HasBadValue, plain]) (hsends hjoin)
    | file special alone =>
      exact .body _ (by simp [Conflicts, alone]) (by simp [HasBadValue, special]) (hsends hjoin)
    | conflict conflict special beside =>
      have hmany : 2 ≤ data.length := by
        have hpos := List.length_pos_of_ne_nil hdata
        omega
      exact .conflict _ (by simp [Conflicts, special, hmany]) (by simp [HasBadValue, special])
    | unreadable flag fault special =>
      exact .badValue _ _ (by simp [Conflicts, special]) (by simp [HasBadValue, special])

/-- A body is made of form fields, or else of data. -/
theorem placeInBody_ends {d : Draft} (hdata : ∀ item ∈ d.data, item.value.IsNormal)
    (hforms : ∀ item ∈ d.forms, item.value.IsNormal) (url : Word) :
    Ends none false d.data d.forms (Headers.get? d.headers "Content-Type".toList)
      (d.placeInBody url).result := by
  by_cases hnone : d.forms = []
  · rw [placeInBody_of_forms_nil url hnone hdata, hnone]
    exact ofData_ends hdata url d.headers
  -- with form fields, data is dropped and contradicts nothing
  have hconsistent : ¬Conflicts none false d.data d.forms := by simp [Conflicts, hnone]
  unfold placeInBody
  by_cases hequals : ∀ item ∈ d.forms, Atom.char '=' ∈ item.value.atoms
  · have hreadable : ¬HasBadValue none false d.data d.forms := by
      simpa [HasBadValue, hnone] using hequals
    have hclassify := Body.classify_of_forall_mem hnone hforms d.data
      (Headers.get? d.headers "Content-Type".toList) hequals
    rw [hclassify]
    exact .body _ hconsistent hreadable (congrArg Outcome.result hclassify)
  · obtain ⟨item, hitem, hmissing⟩ : ∃ item ∈ d.forms, Atom.char '=' ∉ item.value.atoms := by
      simpa using hequals
    obtain ⟨other, -, herror⟩ := Body.exists_error_of_classify hnone hforms d.data
      (Headers.get? d.headers "Content-Type".toList) hitem hmissing
    have hbad : HasBadValue none false d.data d.forms := .inr ⟨rfl, rfl, item, hitem, hmissing⟩
    unfold Outcome.andThen
    rw [herror]
    exact .badValue _ _ hconsistent hbad

/-- The place of the content is up to its options alone. -/
theorem place_ends {d : Draft} (hdata : ∀ item ∈ d.data, item.value.IsNormal)
    (hforms : ∀ item ∈ d.forms, item.value.IsNormal) (url : Word) :
    Ends d.upload d.inQuery d.data d.forms (Headers.get? d.headers "Content-Type".toList)
      (d.place url).result := by
  cases hupload : d.upload with
  | some path =>
    have hplace : d.place url = .ofExcept (d.placeUpload url path) := by rw [place, hupload]
    rw [hplace]
    exact placeUpload_ends d url path
  | none =>
    cases hquery : d.inQuery with
    | true =>
      rw [place_eq_placeInQuery url hupload hquery]
      exact placeInQuery_ends hdata url
    | false =>
      rw [place_eq_placeInBody url hupload hquery]
      exact placeInBody_ends hdata hforms url

end Draft
end CurlScribe
