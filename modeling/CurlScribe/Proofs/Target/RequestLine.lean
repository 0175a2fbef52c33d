import CurlScribe.Conversion
import CurlScribe.Proofs.Target.Framing

/-!
# Request lines of converted commands

A message begins with the method of the request as the command gives it. Header fields with line
breaks are refused, methods with line breaks are not: such a method ends the request line itself.
The request line is the one that was meant just if the method has neither a space nor a line end.
-/

namespace CurlScribe
namespace Message

/-- What stands before the first space of a request line has no space. -/
theorem method_of_readRequestLine? {line method target version : Text}
    (h : readRequestLine? line = some (method, target, version)) :
    ' ' ∉ method ∧ method <+: line := by
  unfold readRequestLine? at h
  split at h
  · cases h
  next hsplit =>
    obtain ⟨⟨target, version⟩, -, he⟩ := Option.map_eq_some_iff.1 h
    obtain ⟨rfl, -⟩ := Prod.mk.inj he
    obtain ⟨rfl, hspace⟩ := Text.splitFirst_eq_some_iff.1 hsplit
    exact ⟨hspace, List.prefix_append _ _⟩

/-- A message begins with its request line. -/
theorem text_eq_requestLine (m : Message) :
    ∃ rest, m.text = requestLineText m.method m.target ++ lineEnd ++ rest := by
  refine ⟨m.fields.flatMap fieldLine ++ lineEnd ++ m.body.getD [], ?_⟩
  simp [text, requestLine, requestLineText]

/-- The first line of a message names its method and target just if the method has neither a space
nor a line end. -/
theorem readRequestLine?_iff {m : Message} (htarget : m.target.OnOneLine) :
    (∃ line rest, Text.splitAround lineEnd m.text = some (line, rest) ∧
        readRequestLine? line = some (m.method, m.target, "HTTP/1.1".toList)) ↔
      ' ' ∉ m.method ∧ ¬lineEnd <:+: m.method := by
  constructor
  · -- the first line begins with the method and holds no line end
    rintro ⟨line, rest, hsplit, hread⟩
    obtain ⟨hspace, hstart⟩ := method_of_readRequestLine? hread
    refine ⟨hspace, ?_⟩
    intro hend
    exact Text.not_infix_of_splitAround (by decide) hsplit (List.IsInfix.trans hend hstart.isInfix)
  · rintro ⟨hspace, hend⟩
    obtain ⟨rest, htext⟩ := text_eq_requestLine m
    -- what stands behind the method cannot complete a line end either
    have hfeed : '\n' ∉ ' ' :: m.target ++ " HTTP/1.1".toList := by
      apply Text.OnOneLine.not_mem_feed
      rw [Text.onOneLine_append]
      exact ⟨List.forall_mem_cons.2 ⟨rfl, htarget⟩, by decide⟩
    have hline : ¬lineEnd <:+: requestLineText m.method m.target := by
      rw [requestLineText, List.append_assoc]
      exact Text.not_infix_pair_append hend hfeed
    refine ⟨requestLineText m.method m.target, rest, ?_, readRequestLine?_text hspace m.target⟩
    rw [htext, List.append_assoc]
    exact Text.splitAround_pair (by decide) hline rest

end Message

namespace Conversion
open Message

/-- A converted command is a request and its source. -/
theorem ofCommand_eq_ok {style : Style} {command : Text} {conversion : Conversion}
    (h : (ofCommand style command).result = .ok conversion) :
    (Request.ofCommand command).result = .ok conversion.request ∧
      conversion.request.render style = .ok conversion.source := by
  obtain ⟨request, hrequest, h⟩ := Outcome.andThen_result_eq_ok.1 h
  obtain ⟨source, hsource, rfl⟩ := Except.map_eq_ok.1 h
  exact ⟨hrequest, hsource⟩

/-- The message of every converted command begins with the method of its request, the target that
its URL names and the version. Its first line is read as these three just if the method has neither
a space nor a line end. -/
theorem requestLine_intact_iff {command : Text} {conversion : Conversion}
    (h : (ofCommand .http command).result = .ok conversion) :
    ∃ method url rest, conversion.request.effectiveMethod.literal? = some method ∧
      urlOf conversion.request = .ok url ∧ (targetOf url).OnOneLine ∧
      conversion.source.text = requestLineText method (targetOf url) ++ lineEnd ++ rest ∧
      ((∃ line rest, Text.splitAround lineEnd conversion.source.text = some (line, rest) ∧
          readRequestLine? line = some (method, targetOf url, "HTTP/1.1".toList)) ↔
        ' ' ∉ method ∧ ¬lineEnd <:+: method) := by
  obtain ⟨m, hm, hsource⟩ := Except.map_eq_ok.1 (ofCommand_eq_ok h).2
  obtain ⟨url, s, hurl, htarget, hmethod, -⟩ := ofRequest_eq_ok hm
  have hline := onOneLine_targetOf (isGraphic_urlOf hurl)
  obtain ⟨rest, htext⟩ := text_eq_requestLine m
  refine ⟨m.method, url, rest, literal_eq_ok.1 hmethod, hurl, hline, ?_, ?_⟩
  · rw [← hsource, ← htarget]
    exact htext
  · rw [← hsource, ← htarget]
    exact readRequestLine?_iff (htarget ▸ hline)

/-- A method that is no standard one, which stays on its line. -/
theorem requestLine_intact_purge :
    let command := "curl -X PURGE http://[::1]/a".toList
    ∃ conversion, (ofCommand .http command).result = .ok conversion ∧
      ∃ line rest, Text.splitAround lineEnd conversion.source.text = some (line, rest) ∧
        readRequestLine? line = some ("PURGE".toList, "/a".toList, "HTTP/1.1".toList) := by
  intro command
  let r : Request := {
    method := some (Word.ofString "PURGE")
    url := Word.ofString "http://[::1]/a"
    headers := []
    credentials := none
    body := .empty
    usedVariables := [] }
  have hconversion : (ofCommand .http command).result.toOption =
      some ⟨r, "PURGE /a HTTP/1.1\r\nHost: [::1]\r\n\r\n".toList, [], []⟩ := by decide +kernel
  have hconverted := Except.eq_ok_of_toOption hconversion
  obtain ⟨method, url, -, hmethod, hurl, -, -, hiff⟩ := requestLine_intact_iff hconverted
  have hparsed : (urlOf r).toOption =
      some ⟨"http".toList, some (.ipv6 [0, 0, 0, 0, 0, 0, 0, 1]), none, "/a".toList, none⟩ := by
    decide +kernel
  obtain rfl := Option.some.inj hmethod
  obtain rfl := Except.ok.inj ((Except.eq_ok_of_toOption hparsed).symm.trans hurl)
  exact ⟨_, hconverted, hiff.2 (by decide)⟩

/-- A method with line ends: what a receiver reads is a request with a field of the method's making,
and a second request behind it. -/
theorem requestLine_injected :
    let command :=
      "curl -X $'GET / HTTP/1.1\\r\\nX-Injected: 1\\r\\n\\r\\nGET' http://[::1]/".toList
    ∃ conversion, (ofCommand .http command).result = .ok conversion ∧
      (∀ c ∈ [' ', '\r', '\n'], conversion.request.effectiveMethod.contains c = true) ∧
      read? conversion.source.text =
        some ⟨"GET".toList, "/".toList, "HTTP/1.1".toList, [("X-Injected".toList, "1".toList)],
          "GET / HTTP/1.1\r\nHost: [::1]\r\n\r\n".toList⟩ := by
  intro command
  let r : Request := {
    method := some (Word.ofString "GET / HTTP/1.1\r\nX-Injected: 1\r\n\r\nGET")
    url := Word.ofString "http://[::1]/"
    headers := []
    credentials := none
    body := .empty
    usedVariables := [] }
  let first := "GET / HTTP/1.1\r\nX-Injected: 1\r\n\r\n".toList
  let second := "GET / HTTP/1.1\r\nHost: [::1]\r\n\r\n".toList
  have hconversion : (ofCommand .http command).result.toOption =
      some ⟨r, first ++ second, [], []⟩ := by decide +kernel
  have hmethod : ∀ c ∈ [' ', '\r', '\n'], r.effectiveMethod.contains c = true := by
    simp only [List.forall_mem_cons]
    exact ⟨rfl, rfl, rfl, nofun⟩
  exact ⟨_, Except.eq_ok_of_toOption hconversion, hmethod, by decide +kernel⟩

end Conversion
end CurlScribe
