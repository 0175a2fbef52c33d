import CurlScribe.Encoding.Base64
import CurlScribe.Error
import CurlScribe.Request.Basic
import CurlScribe.Target.Code
import CurlScribe.Url.Parse

/-!
# Request messages

The bytes that a client would send for a request. All of them have to be known beforehand, so a
request with references to variables, or whose body is in files, has no message. No header field may
contain a line break.
-/

namespace CurlScribe

/-- A request message: the request line, the header fields and the body. -/
structure Message where
  method : Text
  target : Text
  fields : List (Text × Text)
  body : Option Text
deriving DecidableEq, Repr, Inhabited

namespace Message

/-! ## Writing -/

/-- The end of a line. -/
def lineEnd : Text := ['\r', '\n']

def requestLine (m : Message) : Text :=
  m.method ++ ' ' :: m.target ++ " HTTP/1.1".toList ++ lineEnd

def fieldLine (field : Text × Text) : Text := field.1 ++ ": ".toList ++ field.2 ++ lineEnd

/-- The message as it is sent. -/
def text (m : Message) : Text :=
  m.requestLine ++ m.fields.flatMap fieldLine ++ lineEnd ++ m.body.getD []

/-! ## From requests -/

/-- A feature that messages cannot express. -/
def refuse {α : Type} (feature : Feature) : Except Error α := .error (.unsupported .http feature)

/-- The text of a word without references. -/
def literal (w : Word) : Except Error Text :=
  match w.literal? with
  | some t => .ok t
  | none => refuse (.variableIn w)

/-- The body of a message. -/
def bodyText : Body → Except Error (Option Text)
  | .empty => .ok none
  | .raw content _ => (literal content).map some
  | .urlEncoded pairs => (literal (Body.encoded pairs)).map some
  | .multipart _ => refuse .multipartBody
  | .file path _ => refuse (.fileBody path)

/-- A character that ends a line. -/
def isLineBreak (c : Char) : Bool := c == '\r' || c == '\n'

/-- A header field that fits on its line. -/
def field (name value : Word) : Except Error (Text × Text) := do
  let n ← literal name
  let v ← literal value
  if n.any isLineBreak || v.any isLineBreak then refuse (.lineBreakInHeader (Text.trim n))
  return (n, v)

/-- What the request line names: the path and the query of the URL. -/
def targetOf (url : Url) : Text :=
  match url.query with
  | some query => url.path ++ '?' :: query
  | none => url.path

/-- The field that names the host, unless the request has one. -/
def hostFields (headers : Headers) (url : Url) : Except Error (List (Text × Text)) :=
  if Headers.has headers "Host".toList then .ok []
  else match url.host, url.port with
    | none, _ => .error (.invalidArgument "url".toList .urlWithoutHost)
    | some host, some port => .ok [("Host".toList, host.text ++ ':' :: Text.ofNat port)]
    | some host, none => .ok [("Host".toList, host.text)]

/-- The field with the credentials. -/
def credentialsFields : Option Credentials → Except Error (List (Text × Text))
  | none => .ok []
  | some c => do
    let user ← literal c.user
    let password ← literal c.password
    return [("Authorization".toList,
      "Basic ".toList ++ Base64.encode (Utf8.encode (user ++ ':' :: password)))]

/-- The field with the size of the body, unless the request has one. -/
def lengthFields (headers : Headers) : Option Text → List (Text × Text)
  | none => []
  | some body =>
    if Headers.has headers "Content-Length".toList then []
    else [("Content-Length".toList, Text.ofNat (Text.byteSize body))]

/-- The URL of a request. -/
def urlOf (r : Request) : Except Error Url := do
  match Url.parse (← literal r.url) with
  | .ok url => return url
  | .error fault => throw (.invalidArgument "url".toList (.url fault))

/-- The message that sends a request. -/
def ofRequest (r : Request) : Except Error Message :=
  match r.usedVariables with
  | name :: _ => refuse (.variable name)
  | [] => do
    let body ← bodyText r.body
    let url ← urlOf r
    let method ← literal r.effectiveMethod
    let host ← hostFields r.headers url
    let given ← r.headers.mapM fun h => field h.name h.value
    let implied ← r.impliedContentType?.toList.mapM (field (Word.ofString "Content-Type"))
    let credentials ← credentialsFields r.credentials
    return ⟨method, targetOf url,
      host ++ given ++ implied ++ credentials ++ lengthFields r.headers body, body⟩

/-- A message as a source, which imports and needs nothing. -/
def source (m : Message) : Source := ⟨m.text, [], []⟩

end Message
end CurlScribe
