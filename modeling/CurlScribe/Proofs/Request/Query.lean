import CurlScribe.Proofs.Request.Authority
import CurlScribe.Proofs.Request.FormData

/-!
# Data in the query of a URL

A switch sends data in the URL instead of the body. What is sent there is what the body would have
been, since the data is joined in one way for both. `Request.toQuery` moves it from the one place to
the other, and a run of the settings with the switch is the run without it followed by this step.
-/

namespace CurlScribe

/-! ## The switch among settings -/

namespace Draft

theorem isOn_append_singleton (settings : List Setting) (s : Setting) :
    isOn s.flag (settings ++ [s]) = !s.negated := by
  unfold isOn
  rw [List.filter_append, List.filter_singleton, beq_self_eq_true]
  simp

/-- The draft with its data sent in the query. -/
def inUrl (d : Draft) : Draft := { d with inQuery := true }

@[simp] theorem data_inUrl (d : Draft) : d.inUrl.data = d.data := rfl

/-- The switch behind other settings changes the place of the data and nothing else. -/
theorem ofSettings_append_get (settings : List Setting) {g : Setting} (hg : g.flag = .get)
    (hon : g.negated = false) :
    ofSettings (settings ++ [g]) = (ofSettings settings).inUrl := by
  -- every part of the draft but one leaves the switch aside
  have hword (flag : Flag) (hflag : flag ≠ .get) :
      lastWord? flag (settings ++ [g]) = lastWord? flag settings := by
    rw [lastWord?_append, lastWord?_eq_none, Option.none_or]
    intro s hs
    rw [List.mem_singleton.1 hs, hg]
    exact hflag.symm
  have hget : isOn .get (settings ++ [g]) = true := by
    rw [← hg, isOn_append_singleton, hon]
    rfl
  have hhead : isOn .head (settings ++ [g]) = isOn .head settings := by
    have hnone : [g].filter (fun s => s.flag == .head) = [] := by
      rw [List.filter_singleton, hg]
      rfl
    unfold isOn
    rw [List.filter_append, hnone, List.append_nil]
  have hmap {β : Type} {f : Setting → Option β} (hf : f g = none) :
      (settings ++ [g]).filterMap f = settings.filterMap f := by
    rw [List.filterMap_append, List.filterMap_cons_none hf, List.filterMap_nil, List.append_nil]
  have hfields : fieldsOf (settings ++ [g]) = fieldsOf settings :=
    congrArg (List.filterMap Except.toOption) (hmap (by simp only [Setting.headerField?, hg]))
  simp only [ofSettings, inUrl, hword .url (by decide), hword .method (by decide),
    hword .user (by decide), hword .uploadFile (by decide), hfields, hget, hhead]
  rw [hmap (f := Setting.dataItem?) (by simp only [Setting.dataItem?, hg]),
    hmap (f := Setting.formItem?) (by simp only [Setting.formItem?, hg])]

/-- An empty query leaves a URL as it is; any other one is added with the character that separates
it from the URL. -/
theorem addQuery_eq (url query : Word) :
    addQuery url query = if query = Word.empty then url
      else url.pushChar (if url.contains '?' then '&' else '?') ++ query := by
  unfold addQuery
  by_cases h : query = Word.empty
  · subst h
    rfl
  · rw [if_neg h, Word.isEmpty_eq_false h]
    rfl

/-- A form option is what a form item comes from. -/
theorem forms_eq_nil {settings : List Setting}
    (h : ∀ s ∈ settings, s.flag ≠ .form ∧ s.flag ≠ .formString) :
    (ofSettings settings).forms = [] := by
  refine List.filterMap_eq_nil_iff.2 ?_
  intro s hs
  obtain ⟨hform, hstring⟩ := h s hs
  unfold Setting.formItem?
  split
  next he => exact absurd he hform
  next he => exact absurd he hstring
  · rfl

end Draft

/-! ## From the body to the query -/

namespace Body

/-- What data makes is the empty body if there is none, and else a body that sends it. -/
theorem ofData_cases {data : List DataItem} {contentType : Option Word} {body : Body}
    (hv : ∀ item ∈ data, item.value.IsNormal) (h : ofData data contentType = .ok body) :
    data = [] ∧ body = .empty ∨ data ≠ [] ∧
      ∃ content, DataItem.join data = .ok content ∧ body.dataContent? = some content := by
  unfold ofData at h
  split at h
  next hnil => exact .inl ⟨List.isEmpty_iff.1 hnil, (Except.ok.inj h).symm⟩
  next hne =>
    obtain ⟨content, hjoin, rfl⟩ := Except.map_eq_ok.1 h
    have hnormal : ∀ w, content = .text w → w.IsNormal := by
      rintro w rfl
      exact DataItem.isNormal_join hv hjoin
    refine .inr ⟨fun hnil => hne (List.isEmpty_iff.2 hnil), content, hjoin, ?_⟩
    exact (ofContent_spec _ hnormal).1

end Body

namespace Draft

/-- Without form options, the body is made of data alone. -/
theorem placeInBody_of_forms_nil {d : Draft} (url : Word) (hforms : d.forms = [])
    (hv : ∀ item ∈ d.data, item.value.IsNormal) :
    d.placeInBody url =
      .ofExcept ((Body.ofData d.data (Headers.get? d.headers "Content-Type".toList)).map
        fun body => ⟨url, d.headers, body⟩) := by
  unfold placeInBody Body.classify
  rw [hforms]
  cases hdata : Body.ofData d.data (Headers.get? d.headers "Content-Type".toList) with
  | error e => rfl
  | ok body =>
    cases body with
    | multipart parts =>
      rcases Body.ofData_cases hv hdata with ⟨-, hbody⟩ | ⟨-, content, -, hbody⟩
      · cases hbody
      · cases hbody
    | empty => rfl
    | raw content contentType => rfl
    | urlEncoded pairs => rfl
    | file path contentType => rfl

/-- A draft with a URL is a request if its data makes a body. -/
theorem request_of_ofData {d : Draft} {given : Word} {body : Body} (hurl : d.url = some given)
    (hupload : d.upload = none) (hquery : d.inQuery = false) (hforms : d.forms = [])
    (hv : ∀ item ∈ d.data, item.value.IsNormal)
    (hbody : Body.ofData d.data (Headers.get? d.headers "Content-Type".toList) = .ok body) :
    ∃ r, d.request.result = .ok r ∧ r.body = body := by
  let p : Placement := ⟨(Authority.resolve given).1, d.headers, body⟩
  have hplace : (d.place (Authority.resolve given).1).result = .ok p := by
    rw [place_eq_placeInBody _ hupload hquery, placeInBody_of_forms_nil _ hforms hv, hbody]
    rfl
  exact ⟨_, request_result_eq_ok.2 ⟨given, p, hurl, hplace, rfl⟩, rfl⟩

theorem placeInQuery_of_join {d : Draft} (url : Word) (hforms : d.forms = [])
    (hdata : d.data ≠ []) : d.placeInQuery url = match DataItem.join d.data with
      | .error e => .error e
      | .ok (.file path) => .error (.conflictingBody (.fileInQuery path))
      | .ok (.text query) => .ok ⟨addQuery url query, d.headers, .empty⟩ := by
  unfold placeInQuery
  rw [hforms]
  cases hd : d.data with
  | nil => exact absurd hd hdata
  | cons item rest => rfl

theorem placeInQuery_of_nil {d : Draft} (url : Word) (hforms : d.forms = []) (hdata : d.data = []) :
    d.placeInQuery url = .ok ⟨url, d.headers, .empty⟩ := by
  unfold placeInQuery
  rw [hforms, hdata]

end Draft

namespace Request

/-- The request without a body and with another URL. It is a GET request unless the command asks for
another method. -/
def withDataIn (r : Request) (url : Word) : Request :=
  withVariables
    { r with method := some (r.method.getD (Word.ofString "GET")), url := url, body := .empty }

/-- The request with what its body sends moved into the query of its URL. -/
def toQuery (r : Request) : Except Error Request :=
  match r.body.dataContent? with
  | none => .ok (r.withDataIn r.url)
  | some (.file path) => .error (.conflictingBody (.fileInQuery path))
  | some (.text t) => .ok (r.withDataIn (Draft.addQuery r.url t))

end Request

namespace Draft

theorem askedMethod_eq {d : Draft} (hupload : d.upload = none) (hquery : d.inQuery = false) :
    d.askedMethod = d.method.or (if d.head then some (Word.ofString "HEAD") else none) := by
  unfold askedMethod
  rw [hupload, hquery]
  cases d.method with
  | some method => rfl
  | none => rfl

theorem askedMethod_inUrl {d : Draft} (hupload : d.upload = none) (hquery : d.inQuery = false) :
    d.inUrl.askedMethod = some (d.askedMethod.getD (Word.ofString "GET")) := by
  rw [askedMethod_eq hupload hquery]
  unfold askedMethod inUrl
  rw [hupload]
  cases d.method with
  | some method => rfl
  | none =>
    cases d.head with
    | true => rfl
    | false => rfl

/-- With the data in the query, a draft becomes the request that it becomes otherwise, with what the
body would have sent moved into the query. -/
theorem request_inUrl {d : Draft} (hupload : d.upload = none) (hquery : d.inQuery = false)
    (hforms : d.forms = []) (hv : ∀ item ∈ d.data, item.value.IsNormal) :
    d.inUrl.request = d.request.andThen fun r => .ofExcept r.toQuery := by
  cases hurl : d.url with
  | none =>
    rw [request_eq_missingUrl hurl, request_eq_missingUrl (d := d.inUrl) hurl]
    rfl
  | some given =>
    generalize hresolve : Authority.resolve given = resolved
    obtain ⟨url, found⟩ := resolved
    rw [request_eq hurl, request_eq (d := d.inUrl) hurl, hresolve,
      place_eq_placeInBody url hupload hquery, place_eq_placeInQuery (d := d.inUrl) url hupload rfl,
      placeInBody_of_forms_nil url hforms hv]
    -- the request differs in its method, its URL and its body
    have hat (p : Placement) (target : Word) :
        d.inUrl.requestAt found ⟨target, p.headers, .empty⟩ =
          (d.requestAt found p).withDataIn target := by
      simp only [requestAt, Request.withDataIn, Request.withVariables]
      rw [askedMethod_inUrl hupload hquery]
      rfl
    cases hdata : Body.ofData d.data (Headers.get? d.headers "Content-Type".toList) with
    | error e =>
      have hjoin := Body.ofData_eq_error_iff.1 hdata
      have hne : d.data ≠ [] := by
        intro hnil
        rw [hnil] at hjoin
        cases hjoin
      rw [placeInQuery_of_join (d := d.inUrl) url hforms hne, data_inUrl, hjoin]
      rfl
    | ok body =>
      have hbodyOf (p : Placement) : (d.requestAt found p).body = p.body := rfl
      rcases Body.ofData_cases hv hdata with ⟨hnil, rfl⟩ | ⟨hne, content, hjoin, hbody⟩
      · rw [placeInQuery_of_nil (d := d.inUrl) url hforms hnil]
        exact congrArg Outcome.ok (hat ⟨url, d.headers, .empty⟩ url)
      · rw [placeInQuery_of_join (d := d.inUrl) url hforms hne, data_inUrl, hjoin]
        simp only [Except.map, Outcome.andThen, Outcome.ofExcept, Outcome.ok, Request.toQuery,
          hbodyOf, hbody]
        cases content with
        | file path => rfl
        | text t =>
          exact congrArg Outcome.ok (hat ⟨url, d.headers, body⟩ (addQuery url t))

end Draft

namespace Request

/-- Settings that neither upload a file nor make a form, nor send data in the query. -/
def IsPlain (settings : List Setting) : Prop :=
  ∀ s ∈ settings, s.flag ∉ [.get, .uploadFile, .form, .formString]

section Plain

variable {settings : List Setting} (hplain : IsPlain settings)

include hplain in
theorem IsPlain.draft :
    (Draft.ofSettings settings).upload = none ∧ (Draft.ofSettings settings).inQuery = false ∧
      (Draft.ofSettings settings).forms = [] := by
  have hflag (flag : Flag) (h : flag ∈ [.get, .uploadFile, .form, .formString]) :
      ∀ s ∈ settings, s.flag ≠ flag := by
    rintro s hs rfl
    exact hplain s hs h
  refine ⟨Draft.lastWord?_eq_none (hflag .uploadFile (by simp)),
    Draft.isOn_eq_false (hflag .get (by simp)), Draft.forms_eq_nil ?_⟩
  intro s hs
  exact ⟨hflag .form (by simp) s hs, hflag .formString (by simp) s hs⟩

variable (hw : ∀ s ∈ settings, s.word.IsNormal)

include hplain hw in
/-- Settings with the switch behind them make the request that they make without it, with what its
body would have sent moved into the query. -/
theorem ofSettings_append_get {g : Setting} (hg : g.flag = .get) (hon : g.negated = false) :
    ofSettings (settings ++ [g]) =
      (ofSettings settings).andThen fun r => .ofExcept r.toQuery := by
  obtain ⟨hupload, hquery, hforms⟩ := hplain.draft
  have hrequest := Draft.request_inUrl hupload hquery hforms (Draft.isNormal_data hw)
  have hread := readSettings_append settings (s := g)
    (by simp only [Setting.warning?, Setting.headerField?, hg])
    (by simp [Setting.asksForEmptyMethod, hg])
  rw [ofSettings_eq_readSettings, hread, Draft.ofSettings_append_get settings hg hon, hrequest,
    ← Outcome.andThen_assoc, ← ofSettings_eq_readSettings]

include hplain hw in
/-- The method is the one that the options ask for, and the body is made of the data. -/
theorem method_body_of_ofSettings {r : Request} (h : (ofSettings settings).result = .ok r) :
    r.method = ((Draft.lastWord? .method settings).map Setting.methodOf).or
        (if Draft.isOn .head settings then some (Word.ofString "HEAD") else none) ∧
      Body.ofData (settings.filterMap Setting.dataItem?)
        (Headers.get? (Draft.ofSettings settings).headers "Content-Type".toList) = .ok r.body := by
  obtain ⟨hupload, hquery, hforms⟩ := hplain.draft
  obtain ⟨given, p, -, hp, rfl⟩ := Draft.request_result_eq_ok.1 (draft_of_ofSettings h)
  refine ⟨Draft.askedMethod_eq hupload hquery, ?_⟩
  rw [Draft.place_eq_placeInBody _ hupload hquery,
    Draft.placeInBody_of_forms_nil _ hforms (Draft.isNormal_data hw)] at hp
  obtain ⟨body, hbody, rfl⟩ := Except.map_eq_ok.1 hp
  exact hbody

include hplain hw in
/-- Behind other settings, the switch keeps every error. A request becomes a request without a body
that has the same fields, credentials and warnings, and whose URL is completed by the text that the
body would have sent; a file cannot be sent so. -/
theorem sent_in_query {g : Setting} (hg : g.flag = .get) (hon : g.negated = false) :
    (∀ e, (ofSettings settings).result = .error e →
      (ofSettings (settings ++ [g])).result = .error e) ∧
    ∀ r, (ofSettings settings).result = .ok r →
      r.method = ((Draft.lastWord? .method settings).map Setting.methodOf).or
        (if Draft.isOn .head settings then some (Word.ofString "HEAD") else none) ∧
      (ofSettings (settings ++ [g])).warnings = (ofSettings settings).warnings ∧
      (∀ t, r.body.dataContent? = some (.text t) →
        (ofSettings (settings ++ [g])).result = .ok (r.withDataIn
          (if t = Word.empty then r.url
            else r.url.pushChar (if r.url.contains '?' then '&' else '?') ++ t))) ∧
      (∀ path, r.body.dataContent? = some (.file path) →
        (ofSettings (settings ++ [g])).result =
          .error (.conflictingBody (.fileInQuery path))) ∧
      ((∀ s ∈ settings, s.dataItem? = none) →
        (ofSettings (settings ++ [g])).result = .ok (r.withDataIn r.url)) := by
  -- the run with the switch is the run without it, and then a step on its request
  rw [ofSettings_append_get hplain hw hg hon]
  constructor
  · intro e he
    unfold Outcome.andThen
    rw [he]
  · intro r hr
    obtain ⟨hmethod, hbody⟩ := method_body_of_ofSettings hplain hw hr
    have hthen : (ofSettings settings).andThen (fun r => .ofExcept r.toQuery) =
        ⟨r.toQuery, (ofSettings settings).warnings⟩ := by
      unfold Outcome.andThen
      rw [hr]
      simp [Outcome.ofExcept]
    rw [hthen]
    refine ⟨hmethod, rfl, ?_, ?_, ?_⟩
    · intro t ht
      show r.toQuery = _
      rw [← Draft.addQuery_eq, toQuery, ht]
    · intro path hpath
      show r.toQuery = _
      rw [toQuery, hpath]
    · intro hnone
      have hempty : r.body = .empty := by
        rw [List.filterMap_eq_nil_iff.2 hnone] at hbody
        exact (Except.ok.inj hbody).symm
      show r.toQuery = _
      rw [toQuery, hempty]
      rfl

end Plain

/-- Data in two options, one of which is encoded, behind a query that the URL has already. -/
theorem sent_in_query_reference :
    let url := Word.ofString "http://host/?a=" ++ Word.ofReference ⟨"A".toList, false⟩
    let settings : List Setting := [Setting.positional url,
      ⟨.data .ascii, "-d".toList, some (Word.ofReference ⟨"B".toList, true⟩), false⟩,
      ⟨.data .urlEncode, "--data-urlencode".toList, some (Word.ofString "c=1 2"), false⟩]
    let query := Word.ofReference ⟨"B".toList, true⟩ ++ Word.ofString "&c=1+2"
    ∃ r, (ofSettings settings).result = .ok r ∧ r.body.dataContent? = some (.text query) ∧
      (ofSettings (settings ++ [⟨.get, "-G".toList, none, false⟩])).result =
        .ok (r.withDataIn (url.pushChar '&' ++ query)) := by
  intro url settings query
  let r : Request := {
    method := none
    url := url
    headers := []
    credentials := none
    body := .raw query (Word.ofText MediaType.formUrlEncoded)
    usedVariables := ["A".toList, "B".toList] }
  have hr : (ofSettings settings).result.toOption = some r := by decide +kernel
  have hresult := Except.eq_ok_of_toOption hr
  have hplain : IsPlain settings := by
    unfold IsPlain
    decide
  have hw : ∀ s ∈ settings, s.word.IsNormal := by decide
  obtain ⟨-, hsent⟩ := sent_in_query hplain hw (g := ⟨.get, "-G".toList, none, false⟩) rfl rfl
  obtain ⟨-, -, htext, -⟩ := hsent r hresult
  refine ⟨r, hresult, rfl, ?_⟩
  rw [htext query rfl, if_neg (by decide)]
  rfl

end Request
end CurlScribe
