import CurlScribe.Proofs.Command.Canonical
import CurlScribe.Proofs.Request.Settings
import Mathlib.Data.List.Basic

/-!
# Printed requests are read back

The command that is printed for a canonical request makes that request and gives no warning. The
words of the command are the printed options (`settingsOf_join`), each class of options adds up to
the part of the draft that it was printed for, and the draft places its content where it was.
-/

namespace CurlScribe
open Setting (option)

@[simp] theorem Setting.flag_option (flag : Flag) (name : String) (value : Word) :
    (option flag name value).flag = flag := rfl

@[simp] theorem Setting.word_option (flag : Flag) (name : String) (value : Word) :
    (option flag name value).word = value := rfl

theorem Setting.IsPrintable.option {flag : Flag} {name : String} {value : Word}
    (ho : valueFlag? name.toList = some flag) (hp : name.toList.all isPlainChar = true)
    (hv : value.IsProper) : (Setting.option flag name value).IsPrintable :=
  ⟨rfl, ho, hp, hv.isNormal, hv.hasNames⟩

/-! ## Classes of options -/

namespace Draft

/-- Of options of one flag, the last one counts. -/
theorem lastWord?_map_option {α : Type} (flag g : Flag) (name : String) (value : α → Word)
    (as : List α) : lastWord? flag (as.map fun a => option g name (value a)) =
      if g = flag then as.getLast?.map value else none := by
  by_cases hg : g = flag
  · subst hg
    have hall : (as.map fun a => option g name (value a)).filter (fun s => s.flag == g) =
        as.map fun a => option g name (value a) := by
      rw [List.filter_eq_self]
      intro s hs
      obtain ⟨a, -, rfl⟩ := List.mem_map.1 hs
      exact beq_self_eq_true g
    rw [if_pos rfl, lastWord?, hall, List.getLast?_map, Option.map_map]
    rfl
  · rw [if_neg hg]
    refine lastWord?_eq_none ?_
    intro s hs
    obtain ⟨a, -, rfl⟩ := List.mem_map.1 hs
    exact hg

end Draft

namespace Body

/-- The flags that give a body. -/
def IsContentFlag (flag : Flag) : Prop :=
  (∃ kind, flag = .data kind) ∨ flag = .form ∨ flag = .formString ∨ flag = .uploadFile

theorem isContentFlag_of_mem {body : Body} {s : Setting} (h : s ∈ body.settings) :
    IsContentFlag s.flag := by
  cases body with
  | empty => exact absurd h (by simp [settings])
  | raw content contentType =>
    obtain rfl := List.mem_singleton.1 h
    exact .inl ⟨.raw, rfl⟩
  | urlEncoded pairs =>
    obtain rfl := List.mem_singleton.1 h
    exact .inl ⟨.raw, rfl⟩
  | multipart parts =>
    obtain ⟨p, -, rfl⟩ := List.mem_map.1 h
    cases p with
    | field name value => exact .inr (.inr (.inl rfl))
    | file name filename path => exact .inr (.inl rfl)
    | fileContent name path => exact .inr (.inl rfl)
  | file path contentType =>
    cases contentType with
    | none =>
      obtain rfl := List.mem_singleton.1 h
      exact .inr (.inr (.inr rfl))
    | some contentType =>
      obtain rfl := List.mem_singleton.1 h
      exact .inl ⟨.binary, rfl⟩

/-- The options for a body of proper words can be printed. -/
theorem isPrintable_settings {body : Body} (h : ∀ w ∈ body.words, w.IsProper) :
    ∀ s ∈ body.settings, s.IsPrintable := by
  intro s hs
  cases body with
  | empty => exact absurd hs (by simp [settings])
  | raw content contentType =>
    obtain rfl := List.mem_singleton.1 hs
    exact Setting.IsPrintable.option (by decide) (by decide) (h content (by simp [words]))
  | urlEncoded pairs =>
    obtain rfl := List.mem_singleton.1 hs
    have hpairs : ∀ p ∈ pairs, p.1.IsProper ∧ p.2.IsProper := by
      intro p hp
      constructor
      · exact h p.1 (List.mem_flatMap.2 ⟨p, hp, by simp⟩)
      · exact h p.2 (List.mem_flatMap.2 ⟨p, hp, by simp⟩)
    refine Setting.IsPrintable.option (by decide) (by decide) ⟨?_, ?_⟩
    · exact isNormal_encoded fun p hp => (hpairs p hp).1.isNormal
    · exact hasNames_encoded fun p hp => ⟨(hpairs p hp).1.hasNames, (hpairs p hp).2.hasNames⟩
  | multipart parts =>
    obtain ⟨p, hp, rfl⟩ := List.mem_map.1 hs
    have hw : ∀ w ∈ p.words, w.IsProper := by
      intro w hw
      exact h w (List.mem_flatMap.2 ⟨p, hp, hw⟩)
    cases p with
    | field name value =>
      refine Setting.IsPrintable.option (by decide) (by decide) ?_
      exact ((hw name (by simp [FormPart.words])).pushChar _).append
        (hw value (by simp [FormPart.words]))
    | file name filename path =>
      refine Setting.IsPrintable.option (by decide) (by decide) ?_
      have hname := hw name (by simp [FormPart.words])
      have hpath := hw path (by simp [FormPart.words])
      exact (((hname.pushText _).append hpath).pushText _).append
        (hw filename (by simp [FormPart.words]))
    | fileContent name path =>
      refine Setting.IsPrintable.option (by decide) (by decide) ?_
      exact ((hw name (by simp [FormPart.words])).pushText _).append
        (hw path (by simp [FormPart.words]))
  | file path contentType =>
    have hpath := h path (by simp [words])
    cases contentType with
    | none =>
      obtain rfl := List.mem_singleton.1 hs
      exact Setting.IsPrintable.option (by decide) (by decide) hpath
    | some contentType =>
      obtain rfl := List.mem_singleton.1 hs
      have hvalue := (Word.isProper_ofText "@".toList).append hpath
      exact Setting.IsPrintable.option (by decide) (by decide) hvalue

end Body

namespace Request

/-- Every option of a printed request has the flag of the part that it was printed for. -/
theorem mem_settings {r : Request} {s : Setting} (h : s ∈ r.settings) :
    (∃ m ∈ r.method, s = option .method "-X" m) ∨
      (∃ f ∈ r.headers, s = option .header "-H" f.line) ∨
      (∃ c ∈ r.credentials, s = option .user "-u" c.line) ∨ s ∈ r.body.settings ∨
      s = option .url "--url" r.url := by
  simp only [settings, List.mem_append, List.mem_map, Option.mem_toList, List.mem_singleton] at h
  rcases h with (((⟨m, hm, rfl⟩ | ⟨f, hf, rfl⟩) | ⟨c, hc, rfl⟩) | hb) | rfl
  · exact .inl ⟨m, hm, rfl⟩
  · exact .inr (.inl ⟨f, hf, rfl⟩)
  · exact .inr (.inr (.inl ⟨c, hc, rfl⟩))
  · exact .inr (.inr (.inr (.inl hb)))
  · exact .inr (.inr (.inr (.inr rfl)))

theorem header_words {r : Request} {f : Header} (h : f ∈ r.headers) :
    f.name ∈ r.words ∧ f.value ∈ r.words := by
  simp only [words, List.mem_append, List.mem_flatMap]
  exact ⟨.inl (.inl (.inr ⟨f, h, by simp⟩)), .inl (.inl (.inr ⟨f, h, by simp⟩))⟩

theorem credentials_words {r : Request} {c : Credentials} (h : r.credentials = some c) :
    c.user ∈ r.words ∧ c.password ∈ r.words := by
  simp [words, h]

/-- All options for a request of proper words can be printed. -/
theorem isPrintable_settings {r : Request} (h : ∀ w ∈ r.words, w.IsProper) :
    ∀ s ∈ r.settings, s.IsPrintable := by
  intro s hs
  rcases mem_settings hs with ⟨m, hm, rfl⟩ | ⟨f, hf, rfl⟩ | ⟨c, hc, rfl⟩ | hb | rfl
  · have hmethod := h m (by simp [words, Option.mem_def.1 hm])
    exact Setting.IsPrintable.option (by decide) (by decide) hmethod
  · have hname := h _ (header_words hf).1
    have hvalue := h _ (header_words hf).2
    refine Setting.IsPrintable.option (by decide) (by decide) ?_
    unfold Header.line
    split
    · exact hname.pushChar ';'
    · exact (hname.pushText _).append hvalue
  · have huser := h _ (credentials_words (Option.mem_def.1 hc)).1
    have hpassword := h _ (credentials_words (Option.mem_def.1 hc)).2
    exact Setting.IsPrintable.option (by decide) (by decide) ((huser.pushChar ':').append hpassword)
  · refine Body.isPrintable_settings ?_ s hb
    intro w hw
    exact h w (List.mem_append_right _ hw)
  · exact Setting.IsPrintable.option (by decide) (by decide) (h r.url (by simp [words]))

/-! ## The draft -/

/-- The draft of the printed options: each part of the request in its class. -/
def draft (r : Request) : Draft where
  url := some r.url
  method := r.method
  fields := r.headers
  credentials := r.credentials
  data := r.body.settings.filterMap Setting.dataItem?
  forms := r.body.settings.filterMap Setting.formItem?
  upload := Draft.lastWord? .uploadFile r.body.settings
  inQuery := false
  head := false

/-- The last word of a flag is that of the part that the flag was printed for. -/
theorem lastWord?_settings (r : Request) (flag : Flag) :
    Draft.lastWord? flag r.settings =
      ((if .url = flag then some r.url else none).or
        ((Draft.lastWord? flag r.body.settings).or
          ((if .user = flag then r.credentials.map Credentials.line else none).or
            ((if .header = flag then r.headers.getLast?.map Header.line else none).or
              (if .method = flag then r.method else none))))) := by
  have hurl := Draft.lastWord?_map_option flag .url "--url" (fun url => url) [r.url]
  have hmethod := Draft.lastWord?_map_option flag .method "-X" (fun m => m) r.method.toList
  rw [settings, Draft.lastWord?_append, Draft.lastWord?_append, Draft.lastWord?_append,
    Draft.lastWord?_append, Draft.lastWord?_map_option, Draft.lastWord?_map_option, hmethod]
  rw [show [option .url "--url" r.url] = [r.url].map fun url => option .url "--url" url from rfl,
    hurl]
  cases r.method with
  | none => cases r.credentials <;> rfl
  | some m => cases r.credentials <;> rfl

theorem lastWord?_content_eq_none {body : Body} {flag : Flag} (h : ¬ Body.IsContentFlag flag) :
    Draft.lastWord? flag body.settings = none := by
  refine Draft.lastWord?_eq_none ?_
  rintro s hs rfl
  exact h (Body.isContentFlag_of_mem hs)

theorem upload_eq_none {body : Body} (h : ∀ path, body ≠ .file path none) :
    Draft.lastWord? .uploadFile body.settings = none := by
  refine Draft.lastWord?_eq_none ?_
  intro s hs
  cases body with
  | empty => exact absurd hs (by simp [Body.settings])
  | raw content contentType =>
    obtain rfl := List.mem_singleton.1 hs
    simp
  | urlEncoded pairs =>
    obtain rfl := List.mem_singleton.1 hs
    simp
  | multipart parts =>
    obtain ⟨p, -, rfl⟩ := List.mem_map.1 hs
    cases p <;> simp [FormPart.setting]
  | file path contentType =>
    cases contentType with
    | none => exact absurd rfl (h path)
    | some contentType =>
      obtain rfl := List.mem_singleton.1 hs
      simp

/-- There is one URL among the options. -/
theorem urls_settings (r : Request) : Setting.urls r.settings = [r.url] := by
  rw [Setting.urls, settings, List.filter_append, Draft.filter_flag_eq_nil]
  · rfl
  · intro s hs
    simp only [List.mem_append, List.mem_map] at hs
    rcases hs with ((⟨m, -, rfl⟩ | ⟨f, -, rfl⟩) | ⟨c, -, rfl⟩) | hb
    · simp
    · simp
    · simp
    · intro he
      have hflag := Body.isContentFlag_of_mem hb
      rw [he] at hflag
      simp [Body.IsContentFlag] at hflag

theorem filterMap_settings {β : Type} (g : Setting → Option β) (r : Request) :
    r.settings.filterMap g =
      r.method.toList.filterMap (fun m => g (option .method "-X" m)) ++
        r.headers.filterMap (fun f => g (option .header "-H" f.line)) ++
        r.credentials.toList.filterMap (fun c => g (option .user "-u" c.line)) ++
        r.body.settings.filterMap g ++ (g (option .url "--url" r.url)).toList := by
  rw [settings, List.filterMap_append, List.filterMap_append, List.filterMap_append,
    List.filterMap_append, List.filterMap_map, List.filterMap_map, List.filterMap_map]
  cases hurl : g (option .url "--url" r.url) with
  | none => rw [List.filterMap_cons_none hurl]; rfl
  | some b => rw [List.filterMap_cons_some hurl]; rfl

/-- What only the options of a body have is found in the options of the body. -/
theorem filterMap_content {β : Type} {g : Setting → Option β} (r : Request)
    (hg : ∀ s, ¬ Body.IsContentFlag s.flag → g s = none) :
    r.settings.filterMap g = r.body.settings.filterMap g := by
  have hnone (flag : Flag) (hf : ¬ Body.IsContentFlag flag) (name : String) (value : Word) :
      g (option flag name value) = none := hg _ hf
  simp only [filterMap_settings, hnone .method (by simp [Body.IsContentFlag]),
    hnone .header (by simp [Body.IsContentFlag]), hnone .user (by simp [Body.IsContentFlag]),
    hnone .url (by simp [Body.IsContentFlag]), List.filterMap_none, List.nil_append,
    Option.toList_none, List.append_nil]

/-- Canonical header fields are read back from their options, in order. -/
theorem fieldsOf_settings {r : Request} (hw : ∀ w ∈ r.words, w.IsProper)
    (h : ∀ f ∈ r.headers, f.IsCanonical) : Draft.fieldsOf r.settings = r.headers := by
  -- no option of a body says a field
  have hbody : r.body.settings.filterMap Setting.headerField? = [] := by
    rw [List.filterMap_eq_nil_iff]
    intro s hs
    unfold Setting.headerField?
    rcases Body.isContentFlag_of_mem hs with ⟨kind, he⟩ | he | he | he <;> rw [he]
  have hheaders : r.headers.filterMap (fun f => (option .header "-H" f.line).headerField?) =
      r.headers.map (Except.ok : Header → Except Text Header) := by
    rw [← List.filterMap_eq_map]
    refine List.filterMap_congr ?_
    intro f hf
    have hname := hw _ (header_words hf).1
    have hvalue := hw _ (header_words hf).2
    exact congrArg some (Header.read_line hname.isNormal hvalue.isNormal (h f hf))
  have hfields : r.settings.filterMap Setting.headerField? =
      r.headers.map (Except.ok : Header → Except Text Header) := by
    rw [filterMap_settings, hbody, hheaders]
    show r.method.toList.filterMap (fun _ => none) ++ r.headers.map Except.ok ++
      r.credentials.toList.filterMap (fun _ => none) ++ [] ++ [] = _
    simp
  rw [Draft.fieldsOf, hfields, List.filterMap_map]
  exact List.filterMap_some

/-- A canonical method is read back from its option. -/
theorem method_settings {r : Request} (h : r.IsCanonical) :
    (Draft.lastWord? .method r.settings).map Setting.methodOf = r.method := by
  rw [lastWord?_settings, lastWord?_content_eq_none (by simp [Body.IsContentFlag])]
  show r.method.map Setting.methodOf = r.method
  cases hm : r.method with
  | none => rfl
  | some m =>
    have hw : m ∈ r.words := by simp [words, hm]
    exact congrArg some (Method.methodOf_eq_self (h.words m hw).isNormal (h.method m hm))

/-- Canonical credentials are read back from their option. -/
theorem credentials_settings {r : Request} (h : r.IsCanonical) :
    (Draft.lastWord? .user r.settings).map Setting.credentialsOf = r.credentials := by
  rw [lastWord?_settings, lastWord?_content_eq_none (by simp [Body.IsContentFlag])]
  cases hc : r.credentials with
  | none => rfl
  | some c =>
    have huser := h.words _ (credentials_words hc).1
    have hpassword := h.words _ (credentials_words hc).2
    exact congrArg some (Credentials.credentialsOf_line huser.isNormal hpassword.isNormal
      (h.credentials c hc))

/-- A printed request turns no switch on. -/
theorem isOn_settings (r : Request) {flag : Flag} (hf : ¬ Body.IsContentFlag flag)
    (hne : flag ∉ [.url, .method, .header, .user]) : Draft.isOn flag r.settings = false := by
  refine Draft.isOn_eq_false ?_
  rintro s hs rfl
  rcases mem_settings hs with ⟨m, -, rfl⟩ | ⟨f, -, rfl⟩ | ⟨c, -, rfl⟩ | hb | rfl
  · exact hne (by simp)
  · exact hne (by simp)
  · exact hne (by simp)
  · exact hf (Body.isContentFlag_of_mem hb)
  · exact hne (by simp)

/-- The options printed for a canonical request add up to its parts. -/
theorem ofSettings_settings {r : Request} (h : r.IsCanonical) :
    Draft.ofSettings r.settings = r.draft := by
  have hurl : Draft.lastWord? .url r.settings = some r.url := by
    rw [lastWord?_settings]
    rfl
  have hupload : Draft.lastWord? .uploadFile r.settings =
      Draft.lastWord? .uploadFile r.body.settings := by
    rw [lastWord?_settings]
    cases Draft.lastWord? .uploadFile r.body.settings <;> rfl
  have hdata : r.settings.filterMap Setting.dataItem? =
      r.body.settings.filterMap Setting.dataItem? := by
    refine filterMap_content r ?_
    intro s hs
    unfold Setting.dataItem?
    split
    · next kind he => exact absurd (.inl ⟨kind, he⟩) hs
    · rfl
  have hforms : r.settings.filterMap Setting.formItem? =
      r.body.settings.filterMap Setting.formItem? := by
    refine filterMap_content r ?_
    intro s hs
    unfold Setting.formItem?
    split
    · next he => exact absurd (.inr (.inl he)) hs
    · next he => exact absurd (.inr (.inr (.inl he))) hs
    · rfl
  unfold Draft.ofSettings draft
  rw [hurl, method_settings h, fieldsOf_settings h.words h.headers, credentials_settings h, hdata,
    hforms, hupload, isOn_settings r (by simp [Body.IsContentFlag]) (by decide),
    isOn_settings r (by simp [Body.IsContentFlag]) (by decide)]

/-! ## Placing the content -/

theorem ofContent_ne_multipart (contentType : Word) (content : DataContent)
    (parts : List FormPart) : Body.ofContent contentType content ≠ .multipart parts := by
  cases content with
  | file path => exact fun h => Body.noConfusion h
  | text t =>
    have hcases : Body.ofText t contentType = .urlEncoded (Body.pairsOf t) ∨
        Body.ofText t contentType = .raw t contentType := ite_eq_or_eq _ _ _
    rcases hcases with he | he
    · exact fun h => Body.noConfusion (he.symm.trans h)
    · exact fun h => Body.noConfusion (he.symm.trans h)

/-- A body that is no form is placed as it is, with all header fields. -/
theorem placeInBody_of_classify {d : Draft} {body : Body} (url : Word)
    (h : Body.classify d.data d.forms (Headers.get? d.headers "Content-Type".toList) = .ok body)
    (hplain : ∀ parts, body ≠ .multipart parts) :
    d.placeInBody url = .ok ⟨url, d.headers, body⟩ := by
  unfold Draft.placeInBody
  rw [h]
  cases body with
  | multipart parts => exact absurd rfl (hplain parts)
  | empty => rfl
  | raw content contentType => rfl
  | urlEncoded pairs => rfl
  | file path contentType => rfl

/-- A single data option that asks for no JSON gives the body that its content makes with the
content type of the fields. -/
theorem place_data {d : Draft} (url : Word) (item : DataItem) (content : DataContent)
    {contentType : Word} {body : Body} (hdata : d.data = [item]) (hforms : d.forms = [])
    (hupload : d.upload = none) (hquery : d.inQuery = false) (hkind : item.kind ≠ .json)
    (hcontent : item.content = .ok content)
    (htype : contentType = (Headers.get? d.fields "Content-Type".toList).getD
      (Word.ofText MediaType.formUrlEncoded))
    (hbody : Body.ofContent contentType content = body) :
    d.place url = .ok ⟨url, d.fields, body⟩ := by
  have hheaders : d.headers = d.fields := by
    simp [Draft.headers, hdata, hkind]
  have hdefault : Body.defaultContentType [item] = MediaType.formUrlEncoded := by
    simp [Body.defaultContentType, hkind]
  have hclassify : Body.classify d.data d.forms (Headers.get? d.headers "Content-Type".toList) =
      .ok body := by
    rw [hdata, hforms, hheaders, ← hbody, htype]
    simp only [Body.classify, Body.ofData, DataItem.join, List.isEmpty_nil, if_true, hcontent,
      hdefault]
    rfl
  rw [Draft.place_eq_placeInBody url hupload hquery, placeInBody_of_classify url hclassify, hheaders]
  rw [← hbody]
  exact ofContent_ne_multipart contentType content

/-- A path behind an `@` names a file, unless it is the dash of the standard input. -/
theorem content_file {flag : Text} {path : Word} (hpath : path.IsNormal)
    (hstdin : path ≠ Word.ofString "-") :
    DataItem.content ⟨.binary, flag, Word.ofString "@" ++ path⟩ = .ok (.file path) := by
  have hvalue : Word.ofString "@" ++ path = Word.ofAtoms (.char '@' :: path.atoms) := by
    refine Word.eq_ofAtoms (Word.isNormal_append (Word.isNormal_ofText _) path) ?_
    rw [Word.atoms_append, Word.ofString, Word.atoms_ofText]
    rfl
  have hdrop : (Word.ofString "@" ++ path).dropLeading? '@' = some path := by
    rw [hvalue, Word.dropLeading?_ofAtoms_self, Word.ofAtoms_atoms hpath]
  have hdash : ¬ path.isText "-".toList = true := by
    intro ht
    exact hstdin (Word.eq_ofText_of_isText hpath ht)
  show DataItem.plainContent _ = _
  unfold DataItem.plainContent
  rw [hdrop]
  exact if_neg hdash

/-- Canonical parts are read back from their options, in order. -/
theorem forAll_part {parts : List FormPart} (hw : ∀ p ∈ parts, ∀ w ∈ p.words, w.IsNormal)
    (hparts : ∀ p ∈ parts, p.IsCanonical) :
    Outcome.forAll FormItem.part ((parts.map FormPart.setting).filterMap Setting.formItem?) =
      .ok parts := by
  induction parts with
  | nil => rfl
  | cons p parts ih =>
    obtain ⟨item, hitem, hpart⟩ :=
      FormPart.part_setting (hw p List.mem_cons_self) (hparts p List.mem_cons_self)
    have htail := ih (fun q hq => hw q (List.mem_cons_of_mem _ hq)) fun q hq =>
      hparts q (List.mem_cons_of_mem _ hq)
    rw [List.map_cons, List.filterMap_cons_some hitem, Outcome.forAll, hpart, htail]
    rfl

/-- Form options that say canonical parts make a body of these parts. -/
theorem place_forms {d : Draft} {parts : List FormPart} (url : Word) (hne : parts ≠ [])
    (hw : ∀ p ∈ parts, ∀ w ∈ p.words, w.IsNormal) (hparts : ∀ p ∈ parts, p.IsCanonical)
    (hdata : d.data = [])
    (hforms : d.forms = (parts.map FormPart.setting).filterMap Setting.formItem?)
    (hupload : d.upload = none) (hquery : d.inQuery = false)
    (hbounded : ∀ h ∈ d.fields, Draft.isUnboundedFormData h = false) :
    d.place url = .ok ⟨url, d.fields, .multipart parts⟩ := by
  have hforall := forAll_part hw hparts
  rw [← hforms] at hforall
  -- there are form options, since there are parts that they make
  have hsome : d.forms.isEmpty = false := by
    cases hf : d.forms with
    | nil =>
      rw [hf] at hforall
      exact absurd (Except.ok.inj (congrArg Outcome.result hforall)).symm hne
    | cons item rest => rfl
  have hheaders : d.headers = d.fields := by
    simp [Draft.headers, hdata]
  have hdrop : Draft.dropUnbounded d.fields = (d.fields, []) := by
    unfold Draft.dropUnbounded
    refine if_neg ?_
    rw [Bool.not_eq_true, List.any_eq_false]
    intro h hm
    rw [hbounded h hm]
    simp
  rw [Draft.place_eq_placeInBody url hupload hquery]
  unfold Draft.placeInBody Body.classify
  rw [hforall, hsome, hdata, hheaders, hdrop]
  rfl

theorem getLast?_written {w : Word} (h : w.HasNames)
    (hslash : w.written.getLast? = some '/') : w.atoms.getLast? = some (.char '/') := by
  rw [Word.written_eq] at hslash
  unfold Word.HasNames at h
  generalize w.atoms = as at h hslash
  cases has : as.getLast? with
  | none =>
    rw [List.getLast?_eq_none_iff.1 has] at hslash
    exact absurd hslash (by simp)
  | some a =>
    obtain ⟨front, rfl⟩ := List.getLast?_eq_some_iff.1 has
    rw [List.flatMap_append, List.getLast?_append] at hslash
    cases a with
    | char c =>
      obtain rfl : c = '/' := by simpa [Atom.written] using hslash
      rfl
    | reference r =>
      obtain ⟨name, braced⟩ := r
      have hname := h ⟨name, braced⟩ (by simp)
      -- a reference is written with a brace or a name character at its end, never with a slash
      cases braced with
      | true =>
        have hwritten : Atom.written (.reference ⟨name, true⟩) = ('$' :: '{' :: name) ++ ['}'] := by
          simp [Atom.written, Reference.written]
        rw [List.flatMap_singleton, hwritten, List.getLast?_concat] at hslash
        exact absurd (Option.some.inj hslash) (by decide)
      | false =>
        obtain ⟨c, rest, rfl, -, -⟩ := Text.isName_iff.1 hname
        have hlast : (c :: rest).getLast? = some '/' := by
          simpa [Atom.written, Reference.written] using hslash
        exact absurd (Text.forall_isNameChar hname _ (List.mem_of_getLast? hlast)) (by decide)

/-- An upload leaves a URL as it is that its file does not complete. -/
theorem place_upload {d : Draft} {url path : Word} (hurl : url.HasNames)
    (hslash : url.atoms.getLast? = some (.char '/') → path.basename = Word.empty)
    (hdata : d.data = []) (hforms : d.forms = []) (hupload : d.upload = some path) :
    d.place url = .ok ⟨url, d.fields, .file path none⟩ := by
  have hheaders : d.headers = d.fields := by
    simp [Draft.headers, hdata]
  have hcomplete : (if url.written.getLast? == some '/' then url ++ path.basename else url) =
      url := by
    by_cases hlast : url.written.getLast? = some '/'
    · rw [if_pos (by simpa using hlast), hslash (getLast?_written hurl hlast)]
      rfl
    · rw [if_neg (by simpa using hlast)]
  unfold Draft.place Draft.placeUpload Draft.firstContentFlag?
  rw [hupload, hdata, hforms]
  simp only [List.head?_nil, Option.map_none, hcomplete, hheaders]
  rfl

/-- The content of a canonical request is placed where it was printed from. -/
theorem place_draft {r : Request} (h : r.IsCanonical) :
    r.draft.place r.url = .ok ⟨r.url, r.headers, r.body⟩ := by
  have hbody := h.body
  have hwords : ∀ w ∈ r.body.words, w.IsNormal := fun w hw =>
    (h.words w (List.mem_append_right _ hw)).isNormal
  unfold HasCanonicalBody at hbody
  unfold draft
  -- each kind of body comes from one kind of option
  cases hb : r.body with
  | empty => rfl
  | raw content contentType =>
    rw [hb] at hbody
    obtain ⟨htype, hshape⟩ := hbody
    exact place_data r.url ⟨.raw, "--data-raw".toList, content⟩ (.text content) rfl rfl rfl rfl
      (by simp) rfl htype (Body.ofText_eq_raw hshape)
  | urlEncoded pairs =>
    rw [hb] at hbody hwords
    obtain ⟨hne, hpairs, htype⟩ := hbody
    have hw : ∀ p ∈ pairs, p.1.IsNormal ∧ p.2.IsNormal := by
      intro p hp
      constructor
      · exact hwords p.1 (List.mem_flatMap.2 ⟨p, hp, by simp⟩)
      · exact hwords p.2 (List.mem_flatMap.2 ⟨p, hp, by simp⟩)
    exact place_data r.url ⟨.raw, "--data-raw".toList, Body.encoded pairs⟩
      (.text (Body.encoded pairs)) rfl rfl rfl rfl (by simp) rfl rfl
      (Body.ofText_encoded hne hw hpairs htype)
  | multipart parts =>
    rw [hb] at hbody hwords
    obtain ⟨hne, hparts, hbounded⟩ := hbody
    have hw : ∀ p ∈ parts, ∀ w ∈ p.words, w.IsNormal := by
      intro p hp w hw
      exact hwords w (List.mem_flatMap.2 ⟨p, hp, hw⟩)
    have hdata : (parts.map FormPart.setting).filterMap Setting.dataItem? = [] := by
      refine List.filterMap_eq_nil_iff.2 ?_
      intro s hs
      obtain ⟨p, -, rfl⟩ := List.mem_map.1 hs
      cases p <;> rfl
    exact place_forms r.url hne hw hparts hdata rfl (upload_eq_none fun path h => by cases h) rfl
      hbounded
  | file path contentType =>
    rw [hb] at hbody hwords
    cases contentType with
    | none =>
      obtain ⟨-, hslash⟩ := hbody
      have hurl := (h.words r.url (by simp [words])).hasNames
      exact place_upload hurl hslash rfl rfl rfl
    | some contentType =>
      obtain ⟨htype, hstdin⟩ := hbody
      have hpath := hwords path (by simp [Body.words])
      exact place_data r.url ⟨.binary, "--data-binary".toList, Word.ofString "@" ++ path⟩
        (.file path) rfl rfl rfl rfl (by simp) (content_file hpath hstdin) htype rfl

/-! ## The round trip -/

theorem asksForEmptyMethod_settings {r : Request} (hw : ∀ w ∈ r.words, w.IsProper)
    (h : ∀ m ∈ r.method, Method.IsCanonical m) :
    ∀ s ∈ r.settings, s.asksForEmptyMethod = false := by
  intro s hs
  rcases mem_settings hs with ⟨m, hm, rfl⟩ | ⟨f, -, rfl⟩ | ⟨c, -, rfl⟩ | hb | rfl
  · have hproper : m.IsProper := hw m (by simp [words, Option.mem_def.1 hm])
    have hc := h m hm
    unfold Setting.asksForEmptyMethod
    rw [Setting.word_option, Word.trim_eq_self hproper.isNormal hc.startsVisibly hc.endsVisibly,
      Word.isEmpty_eq_false hc.nonempty, Bool.and_false]
  · rfl
  · rfl
  · unfold Setting.asksForEmptyMethod
    rcases Body.isContentFlag_of_mem hb with ⟨kind, he⟩ | he | he | he <;> rw [he] <;> rfl
  · rfl

/-- Nothing is remarked on the options of a canonical request. -/
theorem warning?_settings {r : Request} (hw : ∀ w ∈ r.words, w.IsProper)
    (h : ∀ f ∈ r.headers, f.IsCanonical) : ∀ s ∈ r.settings, s.warning? = none := by
  intro s hs
  rcases mem_settings hs with ⟨m, -, rfl⟩ | ⟨f, hf, rfl⟩ | ⟨c, -, rfl⟩ | hb | rfl
  · rfl
  · have hname := hw _ (header_words hf).1
    have hvalue := hw _ (header_words hf).2
    have hread := Header.read_line hname.isNormal hvalue.isNormal (h f hf)
    have hfield : (option .header "-H" f.line).headerField? = some (.ok f) := congrArg some hread
    unfold Setting.warning?
    rw [hfield]
    rfl
  · rfl
  · unfold Setting.warning? Setting.headerField?
    rcases Body.isContentFlag_of_mem hb with ⟨kind, he⟩ | he | he | he <;> rw [he]
  · rfl

/-- No option asks for a method of its own unless the request has one. -/
theorem askedMethod_draft {r : Request} (h : r.IsCanonical) : r.draft.askedMethod = r.method := by
  have hmethod : r.draft.method = r.method := rfl
  rw [Draft.askedMethod, hmethod]
  cases hm : r.method with
  | some m => rfl
  | none =>
    have hupload : r.draft.upload = none := by
      refine upload_eq_none ?_
      intro path hb
      have hbody := h.body
      unfold HasCanonicalBody at hbody
      rw [hb] at hbody
      exact hbody.1 hm
    show (if false then _ else if r.draft.upload.isSome then _ else if false then _ else none) = _
    rw [hupload]
    rfl

/-- The options printed for a canonical request make the request, without a warning. -/
theorem ofSettings_eq {r : Request} (h : r.IsCanonical) : ofSettings r.settings = .ok r := by
  have hmethods := asksForEmptyMethod_settings h.words h.method
  have hwarnings : (r.settings.takeWhile fun s => !s.asksForEmptyMethod).filterMap
      Setting.warning? = [] := by
    refine List.filterMap_eq_nil_iff.2 ?_
    intro s hs
    exact warning?_settings h.words h.headers s ((List.takeWhile_sublist _).subset hs)
  have hfind : r.settings.find? Setting.asksForEmptyMethod = none := by
    refine List.find?_eq_none.2 ?_
    intro s hs
    rw [hmethods s hs]
    simp
  have hurl := (h.words r.url (by simp [words])).isNormal
  -- nothing moves on the way from the draft: the URL is complete and holds no credentials
  have hrequest : r.draft.request = .ok r := by
    have hgiven : r.draft.url = some r.url := rfl
    simp only [Draft.request, hgiven, Authority.withScheme_eq_self hurl h.url,
      Authority.takeCredentials_eq_none hurl h.url, place_draft h]
    show Outcome.ok (withVariables ⟨r.draft.askedMethod, r.url, r.headers,
      r.draft.credentials.or none, r.body, []⟩) = _
    rw [askedMethod_draft h, Option.or_none]
    show Outcome.ok { r with usedVariables := variablesOf r.words } = _
    rw [← h.usedVariables]
  rw [ofSettings_eq_readSettings]
  unfold readSettings
  simp only [hwarnings, hfind, ofSettings_settings h, hrequest]
  rfl

/-- A canonical request is printed as a command that makes this request, without a warning. -/
theorem ofCommand_command {r : Request} (h : r.IsCanonical) :
    ofCommand r.command = .ok r := by
  unfold ofCommand
  rw [command, settingsOf_join (isPrintable_settings h.words) (urls_settings r)]
  show (Outcome.ok r.settings).andThen ofSettings = _
  simp only [Outcome.andThen, Outcome.ok, ofSettings_eq h]
  rfl

/-- A request with a reference in its URL, a field without a value, and a file whose path and name
have characters that shells and form options give a meaning. -/
theorem ofCommand_command_form :
    let r : Request := {
      method := some (Word.ofString "PATCH")
      url := Word.ofString "http://" ++ Word.ofReference ⟨"HOST".toList, true⟩
      headers := [⟨Word.ofString "X-Empty", Word.empty⟩]
      credentials := some ⟨Word.ofString "me", Word.ofString "a:b"⟩
      body := .multipart [.file (Word.ofString "f") (Word.ofString "it's") (Word.ofString "@a b")]
      usedVariables := ["HOST".toList] }
    r.IsCanonical ∧ ofCommand r.command = .ok r := by
  intro r
  have hurl : r.url.IsProper := by
    refine (Word.isProper_ofText _).append ⟨trivial, ?_⟩
    intro v hv
    obtain rfl := Atom.reference.inj (List.mem_singleton.1 hv)
    decide
  have hwords : ∀ w ∈ r.words, w.IsProper := by
    intro w hw
    have hw : w = r.url ∨ ∃ t, w = Word.ofText t := by
      simp only [words, r, Option.toList_some, List.flatMap_cons, List.flatMap_nil, Body.words,
        FormPart.words, List.cons_append, List.nil_append, List.append_nil, List.mem_cons,
        List.not_mem_nil, or_false] at hw
      rcases hw with rfl | rfl | rfl | rfl | rfl | rfl | rfl | rfl | rfl
      · exact .inr ⟨_, rfl⟩
      · exact .inl rfl
      · exact .inr ⟨_, rfl⟩
      · exact .inr ⟨[], rfl⟩
      all_goals exact .inr ⟨_, rfl⟩
    rcases hw with rfl | ⟨t, rfl⟩
    · exact hurl
    · exact Word.isProper_ofText t
  have hauthority : Authority.IsCanonical r.url := by
    refine ⟨fun _ _ => by decide, ?_⟩
    intro scheme authority tail hatoms _ _ _ hat
    have hmem : Atom.char '@' ∈ r.url.atoms := by
      rw [hatoms]
      exact List.mem_append_left _ (List.mem_append_right _ hat)
    exact absurd hmem (by decide)
  have hcanonical : r.IsCanonical := by
    refine ⟨hwords, ?_, hauthority, ?_, ?_, ?_, by decide⟩
    · rintro m ⟨⟩
      exact ⟨by decide, by decide, by decide, by decide⟩
    · intro f hf
      obtain rfl := List.mem_singleton.1 hf
      exact ⟨by decide, by decide, by decide, by decide, by decide, by decide⟩
    · rintro c ⟨⟩
      decide
    · refine ⟨by simp, ?_, by decide⟩
      intro p hp
      obtain rfl := List.mem_singleton.1 hp
      exact ⟨by decide, by decide, by decide⟩
  exact ⟨hcanonical, ofCommand_command hcanonical⟩

end Request
end CurlScribe
