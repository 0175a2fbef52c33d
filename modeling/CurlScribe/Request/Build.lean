import CurlScribe.Outcome
import CurlScribe.Request.Authority
import CurlScribe.Request.HeaderField
import CurlScribe.Request.Payload
import CurlScribe.Setting.Basic

/-!
# From settings to a request

Settings are read one by one into a draft, which holds what those read so far ask for. Every kind
of setting has its own place in the draft: the last URL, method, user, file and switch count, while
header fields, data and form fields add up. A method option with a blank value ends the reading.
The request is made of the draft at the end.
-/

namespace CurlScribe
namespace Setting

/-! ## Values of single settings -/

/-- The method that the value of a method option asks for. -/
def methodOf (value : Word) : Word :=
  let verb := value.trim
  match verb.literal? with
  | some t => Word.ofText (Method.normalize t)
  | none => verb

/-- The credentials that the value of a user option gives. -/
def credentialsOf (value : Word) : Credentials :=
  let (user, password) := (value.splitOnce ':').getD (value, Word.empty)
  ⟨user, password⟩

end Setting

/-! ## Drafts -/

/-- What the settings read so far ask for. -/
structure Draft where
  url : Option Word
  method : Option Word
  fields : Headers
  credentials : Option Credentials
  data : List DataItem
  forms : List FormItem
  upload : Option Word
  inQuery : Bool
  head : Bool
deriving DecidableEq, Repr

namespace Draft

/-- The draft before any setting is read. -/
def empty : Draft where
  url := none
  method := none
  fields := []
  credentials := none
  data := []
  forms := []
  upload := none
  inQuery := false
  head := false

/-- The draft with one more header field. -/
def addField (d : Draft) (field : Header) : Draft := { d with fields := d.fields ++ [field] }

/-- The draft with one more setting read into it. -/
def read (d : Draft) (s : Setting) : Outcome Draft :=
  match s.flag with
  | .url => .ok { d with url := some s.word }
  | .method =>
    if s.word.trim.isEmpty then .fail (.invalidArgument s.name .emptyMethod)
    else .ok { d with method := some (Setting.methodOf s.word) }
  | .header =>
    match Header.read s.word with
    | .ok field => .ok (d.addField field)
    | .error remark => ⟨.ok d, [.ofFlag s.name remark]⟩
  | .data kind => .ok { d with data := d.data ++ [⟨kind, s.name, s.word⟩] }
  | .form => .ok { d with forms := d.forms ++ [⟨s.name, s.word, false⟩] }
  | .formString => .ok { d with forms := d.forms ++ [⟨s.name, s.word, true⟩] }
  | .user => .ok { d with credentials := some (Setting.credentialsOf s.word) }
  | .userAgent => .ok (d.addField ⟨Word.ofString "User-Agent", s.word⟩)
  | .referer => .ok (d.addField ⟨Word.ofString "Referer", s.word⟩)
  | .cookie =>
    if s.word.contains '=' then .ok (d.addField ⟨Word.ofString "Cookie", s.word⟩)
    else ⟨.ok d, [.ofFlag s.name ("cookie file ignored: ".toList ++ s.word.written)]⟩
  | .uploadFile => .ok { d with upload := some s.word }
  | .get => .ok { d with inQuery := !s.negated }
  | .head => .ok { d with head := !s.negated }
  | .ignored _ => ⟨.ok d, [.ofFlag s.name "has no effect on the generated request".toList]⟩

/-- Settings read into a draft in order. One that fails ends the reading, and the warnings of those
before it are kept. -/
def readAll (d : Draft) : List Setting → Outcome Draft
  | [] => .ok d
  | s :: rest => (d.read s).andThen fun next => next.readAll rest

/-! ## The parts of the request -/

/-- The header fields with the type to accept that JSON data implies, unless a field gives one. -/
def headers (d : Draft) : Headers :=
  if (d.data.any fun item => item.kind == .json) && !Headers.has d.fields "Accept".toList then
    d.fields ++ [⟨Word.ofString "Accept", Word.ofText MediaType.json⟩]
  else d.fields

/-- The method that the options ask for: `-X` before the methods that `-I`, `-T` and `-G` imply. -/
def askedMethod (d : Draft) : Option Word :=
  match d.method with
  | some method => some method
  | none =>
    if d.head then some (Word.ofString "HEAD")
    else if d.upload.isSome then some (Word.ofString "PUT")
    else if d.inQuery then some (Word.ofString "GET")
    else none

/-- The option of the first data item, or else of the first form item. -/
def firstContentFlag? (d : Draft) : Option Text :=
  match d.data with
  | item :: _ => some item.flag
  | [] => d.forms.head?.map FormItem.flag

/-- A URL with a query added behind it, if the query is not empty. -/
def addQuery (url query : Word) : Word :=
  if query.isEmpty then url
  else url.pushChar (if url.contains '?' then '&' else '?') ++ query

/-- A Content-Type field that announces form data without a boundary. -/
def isUnboundedFormData (h : Header) : Bool :=
  h.name.isTextIgnoringCase "Content-Type".toList
    && match h.value.literal? with
      | some t => MediaType.isUnboundedFormData t
      | none => false

/-- The header fields for a multipart body: the sending program chooses the boundary, so fields
that announce form data without one are dropped, with a warning. -/
def dropUnbounded (headers : Headers) : Headers × List Warning :=
  if headers.any isUnboundedFormData then
    (headers.filter fun h => !isUnboundedFormData h,
      [.ofFlag "-H".toList
        "Content-Type multipart/form-data has no boundary; the generated client sets it".toList])
  else (headers, [])

/-- Where the content of a request ends up. -/
structure Placement where
  url : Word
  headers : Headers
  body : Body
deriving DecidableEq, Repr

/-- The upload of the file `path`: its name completes a URL that ends in a slash. -/
def placeUpload (d : Draft) (url path : Word) : Except Error Placement :=
  match d.firstContentFlag? with
  | some flag => .error (.conflictingBody (.uploadWith path flag))
  | none =>
    let url := if url.written.getLast? == some '/' then url ++ path.basename else url
    .ok ⟨url, d.headers, .file path none⟩

/-- Data as the query of the URL. -/
def placeInQuery (d : Draft) (url : Word) : Except Error Placement :=
  match d.forms, d.data with
  | form :: _, _ => .error (.conflictingBody (.formInQuery form.flag))
  | [], [] => .ok ⟨url, d.headers, .empty⟩
  | [], data =>
    match DataItem.join data with
    | .error e => .error e
    | .ok (.file path) => .error (.conflictingBody (.fileInQuery path))
    | .ok (.text query) => .ok ⟨addQuery url query, d.headers, .empty⟩

/-- Data and form fields as the body. -/
def placeInBody (d : Draft) (url : Word) : Outcome Placement :=
  (Body.classify d.data d.forms (Headers.get? d.headers "Content-Type".toList)).andThen fun body =>
    match body with
    | .multipart parts =>
      let (headers, warnings) := dropUnbounded d.headers
      ⟨.ok ⟨url, headers, .multipart parts⟩, warnings⟩
    | body => .ok ⟨url, d.headers, body⟩

/-- The placement of the content: an upload before the query before the body. -/
def place (d : Draft) (url : Word) : Outcome Placement :=
  match d.upload with
  | some path => .ofExcept (d.placeUpload url path)
  | none => if d.inQuery then .ofExcept (d.placeInQuery url) else d.placeInBody url

/-- The request that a draft describes. Credentials given by an option count before those in the
URL, which loses them either way. -/
def request (d : Draft) : Outcome Request :=
  match d.url with
  | none => .fail .missingUrl
  | some given =>
    let complete := Authority.withScheme given
    let found := Authority.takeCredentials complete
    let url := match found with
      | some (_, stripped) => stripped
      | none => complete
    (d.place url).andThen fun p =>
      .ok (Request.withVariables
        ⟨d.askedMethod, p.url, p.headers, d.credentials.or (found.map Prod.fst), p.body, []⟩)

end Draft

/-! ## The request -/

namespace Request

/-- The request that settings describe. -/
def ofSettings (settings : List Setting) : Outcome Request :=
  (Draft.empty.readAll settings).andThen Draft.request

end Request
end CurlScribe
