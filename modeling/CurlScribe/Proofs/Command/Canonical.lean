import CurlScribe.Proofs.Command.Printer
import CurlScribe.Proofs.Request.Authority
import CurlScribe.Proofs.Request.FormData

/-!
# Canonical requests

A request is canonical if a command can say it as it is. Each part of a command gives some
characters a meaning of their own, and a canonical request avoids them where they would be read
that way; everywhere else its words are arbitrary. The conditions are stated part by part, each
followed by the lemma that what is printed for the part is read back as the part.
-/

namespace CurlScribe

/-! ## Words -/

namespace Word

/-- No literal blank begins the word. -/
def StartsVisibly (w : Word) : Prop :=
  ∀ a ∈ w.atoms.head?, a.satisfies Text.isBlank = false

/-- No literal blank ends the word. -/
def EndsVisibly (w : Word) : Prop :=
  ∀ a ∈ w.atoms.getLast?, a.satisfies Text.isBlank = false

instance (w : Word) : Decidable w.StartsVisibly := inferInstanceAs (Decidable (∀ a ∈ _, _))

instance (w : Word) : Decidable w.EndsVisibly := inferInstanceAs (Decidable (∀ a ∈ _, _))

/-- The word is normal, and the variables that it refers to have identifiers as names. -/
structure IsProper (w : Word) : Prop where
  isNormal : w.IsNormal
  hasNames : w.HasNames

/-- A word that begins and ends visibly has no blanks to trim. -/
theorem trim_eq_self {w : Word} (h : w.IsNormal) (hs : w.StartsVisibly) (he : w.EndsVisibly) :
    w.trim = w := by
  obtain ⟨as, rfl⟩ : ∃ as, w = ofAtoms as := ⟨w.atoms, (ofAtoms_atoms h).symm⟩
  exact trim_ofAtoms (by simpa [StartsVisibly] using hs) (by simpa [EndsVisibly] using he)

theorem isProper_ofText (t : Text) : (ofText t).IsProper :=
  ⟨isNormal_ofText t, by intro r hr; simp at hr⟩

theorem IsProper.pushText {w : Word} (h : w.IsProper) (t : Text) : (w.pushText t).IsProper := by
  refine ⟨isNormal_pushText h.isNormal t, ?_⟩
  intro r hr
  rw [atoms_pushText, List.mem_append] at hr
  rcases hr with hr | hr
  · exact h.hasNames r hr
  · exact absurd hr (by simp)

theorem IsProper.pushChar {w : Word} (h : w.IsProper) (c : Char) : (w.pushChar c).IsProper :=
  h.pushText [c]

theorem IsProper.append {v w : Word} (hv : v.IsProper) (hw : w.IsProper) :
    (v ++ w).IsProper := by
  refine ⟨isNormal_append hv.isNormal w, ?_⟩
  intro r hr
  rw [atoms_append, List.mem_append] at hr
  rcases hr with hr | hr
  · exact hv.hasNames r hr
  · exact hw.hasNames r hr

end Word

/-! ## Methods -/

/-- A method that is sent as it is asked for: it is not blank, has no blanks around it, and is in
upper case if it is a standard one. -/
structure Method.IsCanonical (m : Word) : Prop where
  nonempty : m ≠ Word.empty
  startsVisibly : m.StartsVisibly
  endsVisibly : m.EndsVisibly
  isUpper : ∀ t ∈ m.literal?, Method.isStandard t = true → t ∈ Method.standard

/-- A canonical method is asked for as it is. -/
theorem Method.methodOf_eq_self {m : Word} (hm : m.IsNormal) (h : Method.IsCanonical m) :
    Setting.methodOf m = m := by
  have htrim := Word.trim_eq_self hm h.startsVisibly h.endsVisibly
  unfold Setting.methodOf
  rw [htrim]
  cases ht : m.literal? with
  | none => simp only [ht]
  | some t =>
    have hword : m = Word.ofText t := Word.eq_ofText_of_isText hm (by simp [Word.isText, ht])
    have hvisible : Text.trim t = t := by
      subst hword
      refine Text.trimWhere_eq_self ?_ ?_
      · intro c hc
        exact h.startsVisibly (.char c) (by simp [Option.mem_def.1 hc])
      · intro c hc
        exact h.endsVisibly (.char c) (by simp [Option.mem_def.1 hc])
    have hnormal : Method.normalize t = t := by
      unfold Method.normalize
      rw [hvisible]
      by_cases hs : Method.isStandard t = true
      · have hupper : ∀ s ∈ Method.standard, Text.upper s = s := by decide
        rw [if_pos hs, hupper t (h.isUpper t ht hs)]
      · rw [if_neg hs]
    simp only [ht]
    rw [hnormal, hword]

/-! ## URLs -/

/-- A URL that is requested as it is given: it names a scheme if it begins with literal text, and
its authority holds no credentials. -/
structure Authority.IsCanonical (url : Word) : Prop where
  hasScheme : ∀ c, url.atoms.head? = some (.char c) →
    Text.hasInfix "://".toList (url.shape []) = true
  noUserinfo : ∀ scheme authority tail,
    url.atoms = scheme ++ "://".toList.map .char ++ authority ++ tail →
    .char ':' ∉ scheme → (∀ a ∈ authority, a.satisfies isEnd = false) →
    (∀ a ∈ tail.head?, a.satisfies isEnd = true) → .char '@' ∉ authority

namespace Authority

/-- A canonical URL has a scheme and gets no other. -/
theorem withScheme_eq_self {url : Word} (hn : url.IsNormal) (h : IsCanonical url) :
    withScheme url = url := by
  obtain ⟨parts⟩ := url
  unfold withScheme
  match parts with
  | [] => rfl
  | .reference r :: rest => rfl
  | .text [] :: rest => exact absurd rfl hn.1
  | .text (c :: t) :: rest => exact if_pos (h.hasScheme c rfl)

/-- A canonical URL has no credentials to take. -/
theorem takeCredentials_eq_none {url : Word} (hn : url.IsNormal) (h : IsCanonical url) :
    takeCredentials url = none := by
  cases hfound : takeCredentials url with
  | none => rfl
  | some found =>
    obtain ⟨u, hu, -⟩ := (takeCredentials_eq_some_iff hn).1 hfound
    have hat := h.noUserinfo u.scheme (u.userinfo ++ .char '@' :: u.host) u.tail hu u.scheme_avoids
      u.authority_inside u.tail_outside
    exact absurd (List.mem_append_right _ List.mem_cons_self) hat

end Authority

/-! ## Header fields -/

/-- A field that a header option can say: its name has no blanks around it, no colon in it and no
`@` in front, and no blank begins its value. -/
structure Header.IsCanonical (h : Header) : Prop where
  nonempty : h.name ≠ Word.empty
  startsVisibly : h.name.StartsVisibly
  endsVisibly : h.name.EndsVisibly
  noColon : h.name.Avoids ':'
  noFile : h.name.atoms.head? ≠ some (.char '@')
  valueStartsVisibly : h.value.StartsVisibly

namespace Header

/-- No file is named by what begins with a canonical name. -/
theorem startsWith_at_eq_false {name line : Word} {as : List Atom} (hne : name ≠ Word.empty)
    (hn : name.IsNormal) (hfile : name.atoms.head? ≠ some (.char '@')) (hline : line.IsNormal)
    (h : line.atoms = name.atoms ++ as) : line.startsWith '@' = false := by
  refine Word.startsWith_eq_false hline ?_
  cases hname : name.atoms with
  | nil => exact absurd (Word.eq_ofAtoms hn hname) hne
  | cons a front =>
    rw [hname] at hfile
    rw [h, hname]
    exact hfile

/-- A field without a value is read by the branch for lines without a colon. -/
theorem read_semicolon {name : Word} (hn : name.IsNormal)
    (hc : IsCanonical ⟨name, Word.empty⟩) :
    read (name.pushChar ';') = .ok ⟨name, Word.empty⟩ := by
  have hnormal : (name.pushChar ';').IsNormal := Word.isNormal_pushText hn _
  have hstart := startsWith_at_eq_false hc.nonempty hn hc.noFile hnormal (Word.atoms_pushChar _ _)
  have htrim : name.trim = name := Word.trim_eq_self hn hc.startsVisibly hc.endsVisibly
  have hname : name.isEmpty = false := Word.isEmpty_eq_false hc.nonempty
  have hcolon : Atom.char ':' ∉ name.atoms ++ [.char ';'] := by
    simpa [Word.Avoids] using hc.noColon
  have hend : (name.pushChar ';').trimEnd = name.pushChar ';' := by
    rw [← Word.ofAtoms_atoms hnormal]
    exact Word.trimEnd_eq_self (by simp [Text.isBlank])
  have hsplit : (name.pushChar ';').splitOnce ':' = none := by
    rw [← Word.ofAtoms_atoms hnormal, Word.atoms_pushChar]
    exact Word.splitOnce_of_not_mem hcolon
  rw [read, hstart, hsplit, hend, Word.dropTrailing?_pushChar hn]
  simp only [htrim, hname]
  rfl

/-- A field with a value is read back from its name and value with a colon between them. -/
theorem read_colon {name value : Word} (hn : name.IsNormal) (hv : value.IsNormal)
    (hc : IsCanonical ⟨name, value⟩) (hne : value ≠ Word.empty) :
    read (name.pushText ": ".toList ++ value) = .ok ⟨name, value⟩ := by
  have hnormal : (name.pushText ": ".toList ++ value).IsNormal :=
    Word.isNormal_append (Word.isNormal_pushText hn _) _
  have hatoms : (name.pushText ": ".toList ++ value).atoms =
      name.atoms ++ .char ':' :: .char ' ' :: value.atoms := by simp
  have hstart := startsWith_at_eq_false hc.nonempty hn hc.noFile hnormal hatoms
  have htrim : name.trim = name := Word.trim_eq_self hn hc.startsVisibly hc.endsVisibly
  have hname : name.isEmpty = false := Word.isEmpty_eq_false hc.nonempty
  have hsplit : (name.pushText ": ".toList ++ value).splitOnce ':' =
      some (name, Word.ofAtoms (.char ' ' :: value.atoms)) := by
    rw [← Word.ofAtoms_atoms hnormal, hatoms, Word.splitOnce_append _ hc.noColon,
      Word.ofAtoms_atoms hn]
  -- the space behind the colon is trimmed, and nothing else
  have hvalue : (Word.ofAtoms (.char ' ' :: value.atoms)).trimStart = value := by
    rw [Word.trimStart_ofAtoms, List.dropWhile_cons_of_pos (by decide)]
    have hdrop : (value.atoms.dropWhile fun a => a.satisfies Text.isBlank) = value.atoms :=
      Text.dropWhile_eq_self hc.valueStartsVisibly
    rw [hdrop, Word.ofAtoms_atoms hv]
  rw [read, hstart, hsplit]
  simp only [htrim, hname, hvalue, Word.isEmpty_eq_false hne]
  rfl

/-- A canonical field is read back from its line. -/
theorem read_line {h : Header} (hn : h.name.IsNormal) (hv : h.value.IsNormal)
    (hc : h.IsCanonical) : read h.line = .ok h := by
  obtain ⟨name, value⟩ := h
  by_cases hempty : value = Word.empty
  · subst hempty
    exact read_semicolon hn hc
  · have hline : line ⟨name, value⟩ = name.pushText ": ".toList ++ value := by
      rw [line, Word.isEmpty_eq_false hempty]
      rfl
    rw [hline]
    exact read_colon hn hv hc hempty

end Header

/-! ## Credentials -/

/-- Credentials are read back if there is no colon in the user, where the first one ends it. -/
theorem Credentials.credentialsOf_line {c : Credentials} (hu : c.user.IsNormal)
    (hp : c.password.IsNormal) (hc : c.user.Avoids ':') : Setting.credentialsOf c.line = c := by
  rw [Setting.credentialsOf, Credentials.line, Word.splitOnce_pushChar_append hu hp hc]
  rfl

/-! ## Form parts -/

/-- A part that a form option can say: the first `=` ends its name, and a `;` would begin a modifier
of a file. -/
def FormPart.IsCanonical : FormPart → Prop
  | field name _ => name.Avoids '='
  | file name filename path => name.Avoids '=' ∧ filename.Avoids ';' ∧ path.Avoids ';'
  | fileContent name path => name.Avoids '=' ∧ path.Avoids ';'

namespace FormPart

/-- A path and a file name are read back from the specification that joins them. -/
theorem readFile_filename (flag : Text) {path filename : Word} (hp : path.IsNormal)
    (hf : filename.IsNormal) (hps : path.Avoids ';') (hfs : filename.Avoids ';') :
    FormItem.readFile flag (path.pushText ";filename=".toList ++ filename) =
      (path, some filename, []) := by
  have hmodifier : Atom.char ';' ∉ "filename=".toList.map Atom.char ++ filename.atoms := by
    rw [List.mem_append]
    rintro (h | h)
    · exact absurd h (by decide)
    · exact hfs h
  have hspec : path.pushText ";filename=".toList ++ filename =
      Word.ofAtoms (path.atoms ++ .char ';' ::
        ("filename=".toList.map .char ++ filename.atoms)) :=
    Word.eq_ofAtoms (Word.isNormal_append (Word.isNormal_pushText hp _) _) (by simp)
  -- the specification has two pieces, because neither the path nor the file name has a semicolon
  have hsplit : (path.pushText ";filename=".toList ++ filename).split ';' =
      [path, Word.ofAtoms ("filename=".toList.map .char ++ filename.atoms)] := by
    rw [hspec, Word.split_append _ hps, Word.ofAtoms_atoms hp, Word.split_of_not_mem hmodifier]
  have hkey : (Word.ofAtoms ("filename=".toList.map .char ++ filename.atoms)).splitOnce '=' =
      some (Word.ofText "filename".toList, filename) := by
    have hcut := Word.splitOnce_append filename.atoms
      (by decide : Atom.char '=' ∉ "filename".toList.map Atom.char)
    rw [Word.ofAtoms_atoms hf, ← Word.ofText_eq_ofAtoms] at hcut
    rw [← hcut]
    simp
  have hname : (Word.ofText "filename".toList).isTextIgnoringCase "filename".toList = true := by
    decide
  simp only [FormItem.readFile, hsplit, FormItem.readModifiers, hkey, hname, if_true,
    Option.none_or]

/-- A path without a semicolon is read as a file without modifiers. -/
theorem readFile_path (flag : Text) {path : Word} (hp : path.IsNormal) (hps : path.Avoids ';') :
    FormItem.readFile flag path = (path, none, []) := by
  have hsplit := Word.split_of_not_mem hps
  rw [Word.ofAtoms_atoms hp] at hsplit
  simp only [FormItem.readFile, hsplit, FormItem.readModifiers]

/-- A plain field is read back: its name ends at the first equals sign. -/
theorem part_field (flag : Text) {name value : Word} (hn : name.IsNormal) (hv : value.IsNormal)
    (h : name.Avoids '=') :
    FormItem.part ⟨flag, name.pushChar '=' ++ value, true⟩ = .ok (.field name value) := by
  unfold FormItem.part
  simp only [Word.splitOnce_pushChar_append hn hv h, if_true]

/-- A file part is read back with the name that it gives the file. -/
theorem part_file (flag : Text) {name filename path : Word} (hn : name.IsNormal)
    (hf : filename.IsNormal) (hp : path.IsNormal) (h : (file name filename path).IsCanonical) :
    FormItem.part ⟨flag, (name.pushText "=@".toList ++ path).pushText ";filename=".toList ++
      filename, false⟩ = .ok (.file name filename path) := by
  obtain ⟨hname, hfilename, hpath⟩ := h
  have hspec : (path.pushText ";filename=".toList ++ filename).IsNormal :=
    Word.isNormal_append (Word.isNormal_pushText hp _) _
  have hread := readFile_filename flag hp hf hpath hfilename
  -- the name is cut off at the first equals sign, so the rest is regrouped behind it
  rw [Word.append_pushText (Word.isNormal_pushText hn _)]
  generalize path.pushText ";filename=".toList ++ filename = spec at hspec hread
  have hcut := Word.splitOnce_pushText_append (t := ['@']) (w := spec) hn hname
  have hdrop := Word.dropLeading?_ofAtoms_self '@' spec.atoms
  rw [Word.ofAtoms_atoms hspec] at hdrop
  simp only [List.map_cons, List.map_nil, List.singleton_append] at hcut
  show FormItem.part ⟨flag, name.pushText ['=', '@'] ++ spec, false⟩ = _
  unfold FormItem.part
  simp only [hcut, Bool.false_eq_true, if_false, hdrop, hread]
  rfl

/-- A part with the content of a file is read back. -/
theorem part_fileContent (flag : Text) {name path : Word} (hn : name.IsNormal)
    (hp : path.IsNormal) (h : (fileContent name path).IsCanonical) :
    FormItem.part ⟨flag, name.pushText "=<".toList ++ path, false⟩ =
      .ok (.fileContent name path) := by
  obtain ⟨hname, hpath⟩ := h
  have hread := readFile_path flag hp hpath
  have hcut := Word.splitOnce_pushText_append (t := ['<']) (w := path) hn hname
  have hnone := Word.dropLeading?_ofAtoms_of_ne (by decide : '<' ≠ '@') path.atoms
  have hdrop := Word.dropLeading?_ofAtoms_self '<' path.atoms
  rw [Word.ofAtoms_atoms hp] at hdrop
  simp only [List.map_cons, List.map_nil, List.singleton_append] at hcut
  show FormItem.part ⟨flag, name.pushText ['=', '<'] ++ path, false⟩ = _
  unfold FormItem.part
  simp only [hcut, Bool.false_eq_true, if_false, hnone, hdrop, hread]
  rfl

/-- A canonical part is read back from the option that is printed for it. -/
theorem part_setting {p : FormPart} (hw : ∀ w ∈ p.words, w.IsNormal) (hp : p.IsCanonical) :
    ∃ item, p.setting.formItem? = some item ∧ item.part = Outcome.ok p := by
  cases p with
  | field name value =>
    exact ⟨_, rfl, part_field _ (hw name (by simp [words])) (hw value (by simp [words])) hp⟩
  | file name filename path =>
    exact ⟨_, rfl, part_file _ (hw name (by simp [words])) (hw filename (by simp [words]))
      (hw path (by simp [words])) hp⟩
  | fileContent name path =>
    exact ⟨_, rfl, part_fileContent _ (hw name (by simp [words])) (hw path (by simp [words])) hp⟩

end FormPart

/-! ## Pairs -/

namespace Body

theorem hasNames_encoded {pairs : List (Word × Word)}
    (h : ∀ p ∈ pairs, p.1.HasNames ∧ p.2.HasNames) : (encoded pairs).HasNames := by
  have hpair {p : Word × Word} (hp : p.1.HasNames ∧ p.2.HasNames) :
      (encodedPair p).HasNames := by
    intro r hr
    rw [atoms_encodedPair, List.mem_append, List.mem_cons] at hr
    rcases hr with hr | hr | hr
    · exact hp.1 r hr
    · exact absurd hr (by simp)
    · exact hp.2 r hr
  match pairs with
  | [] => intro r hr; exact absurd hr (by simp [encoded, Word.atoms, Word.empty])
  | [pair] => exact hpair (h pair List.mem_cons_self)
  | pair :: next :: rest =>
    have htail := hasNames_encoded fun p hp => h p (List.mem_cons_of_mem _ hp)
    intro r hr
    rw [encoded, Word.atoms_append, Word.atoms_pushChar] at hr
    simp only [List.mem_append, List.mem_singleton, reduceCtorEq, or_false] at hr
    rcases hr with hr | hr
    · exact hpair (h pair List.mem_cons_self) r hr
    · exact htail r hr
    · simp

end Body

/-! ## Bodies -/

namespace Request

/-- The content type that text of the request is sent with: that of a field, or else the type of
form data. -/
def dataContentType (r : Request) : Word :=
  r.explicitContentType?.getD (Word.ofText MediaType.formUrlEncoded)

/-- A body that options can say beside the method, URL and fields of the request. Text that has the
type and the shape of form data becomes pairs, and a file without a content type asks for a method
of its own and completes a URL that ends in a slash. -/
def HasCanonicalBody (r : Request) : Prop :=
  match r.body with
  | .empty => True
  | .raw content contentType =>
    contentType = r.dataContentType ∧
      ¬ (MediaType.IsForm contentType ∧ FormEncoding.isPairs (content.shape ['x']) = true)
  | .urlEncoded pairs =>
    pairs ≠ [] ∧ (∀ p ∈ pairs, FormEncoding.IsCanonicalPair p) ∧ MediaType.IsForm r.dataContentType
  | .multipart parts =>
    parts ≠ [] ∧ (∀ p ∈ parts, p.IsCanonical) ∧
      ∀ h ∈ r.headers, Draft.isUnboundedFormData h = false
  | .file path none =>
    r.method ≠ none ∧ (r.url.atoms.getLast? = some (.char '/') → path.basename = Word.empty)
  | .file path (some contentType) =>
    contentType = r.dataContentType ∧ path ≠ Word.ofString "-"

/-- A request that a command can say. -/
structure IsCanonical (r : Request) : Prop where
  words : ∀ w ∈ r.words, w.IsProper
  method : ∀ m ∈ r.method, Method.IsCanonical m
  url : Authority.IsCanonical r.url
  headers : ∀ h ∈ r.headers, h.IsCanonical
  credentials : ∀ c ∈ r.credentials, c.user.Avoids ':'
  body : r.HasCanonicalBody
  usedVariables : r.usedVariables = variablesOf r.words

end Request
end CurlScribe
