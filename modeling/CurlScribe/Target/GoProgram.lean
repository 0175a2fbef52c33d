import CurlScribe.Request.Basic
import CurlScribe.Target.GoLiteral
import CurlScribe.Target.GoSyntax

/-!
# Go clients

The program that sends a request with the standard library's client. A multipart body is written
to a buffer first; then the request is made, given its header fields and sent, and the body of the
answer is printed. Every call that can fail is checked.
-/

namespace CurlScribe

namespace Go

open CurlScribe.Go.Expr (ofWord ofText ofVariable)

/-! ## Calls -/

/-- A call of a function of a package. -/
def callPackage (p : Package) (function : String) (args : List Expr) : Expr :=
  .call (.ofPackage p function) args

/-- A call of a method of a variable, or of a member of it. -/
def callMethod (v : Variable) (members : List String) (args : List Expr) : Expr :=
  .call (.ofVariable v members) args

/-- The variable and the error that a call returns: declared if the variable is new. -/
def bindResult (declared : List Variable) (v : Variable) (value : Expr) : Statement :=
  if declared.contains v then .assign [some v, some .err] value else .define [v, .err] value

/-! ## Multipart bodies -/

/-- The contents of the file `path` copied to `target`. -/
def copyFile (declared : List Variable) (target : Variable) (path : Word) : List Statement :=
  [bindResult declared .fd (callPackage .os "Open" [ofWord path]),
    .checkError,
    .later (callMethod .fd ["Close"] []),
    .assign [none, some .err] (callPackage .io "Copy" [ofVariable target, ofVariable .fd]),
    .checkError]

/-- The file name of an attachment, computed by the program if it is that of the path. -/
def fileNameExpr (filename path : Word) : Expr :=
  if FormPart.isNamedByPath filename path then callPackage .filepath "Base" [ofWord path]
  else ofWord filename

/-- The variables that the statements for a part declare. -/
def partVariables : FormPart → List Variable
  | .field _ _ => [.formField]
  | .file _ _ _ => [.fw, .fd]
  | .fileContent _ _ => [.formField, .fd]

/-- The statements that write one part, where `declared` are the variables of earlier parts. -/
def partStatements (declared : List Variable) : FormPart → List Statement
  | .field name value =>
    [bindResult declared .formField (callMethod .writer ["CreateFormField"] [ofWord name]),
      .checkError,
      .assign [none, some .err] (callMethod .formField ["Write"] [.bytesOf (ofWord value)]),
      .gap]
  | .file name filename path =>
    [bindResult declared .fw
        (callMethod .writer ["CreateFormFile"] [ofWord name, fileNameExpr filename path]),
      .checkError] ++ copyFile declared .fw path ++ [.gap]
  | .fileContent name path =>
    [bindResult declared .formField (callMethod .writer ["CreateFormField"] [ofWord name]),
      .checkError] ++ copyFile declared .formField path ++ [.gap]

/-- The statements that write all parts in order. -/
def partsStatements (declared : List Variable) : List FormPart → List Statement
  | [] => []
  | part :: rest =>
    partStatements declared part ++ partsStatements (declared ++ partVariables part) rest

/-- The statements before the client: those that write a multipart body. -/
def formStatements : Body → List Statement
  | .multipart parts =>
    [.define [.form] (.call ⟨.builtin "new".toList, []⟩ [.select (.ofPackage .bytes "Buffer")]),
      .define [.writer] (callPackage .multipart "NewWriter" [ofVariable .form])]
      ++ partsStatements [] parts
      ++ [.run (callMethod .writer ["Close"] []), .gap]
  | _ => []

/-! ## The request -/

/-- The reader of a text. -/
def textReader (content : Word) : List Statement :=
  [.declare .data (callPackage .strings "NewReader" [ofWord content])]

/-- The statements that provide the body of the request. -/
def bodyStatements : Body → List Statement
  | .raw content _ => textReader content
  | .urlEncoded pairs => textReader (Body.encoded pairs)
  | .file path _ =>
    [.define [.data, .err] (callPackage .os "Open" [ofWord path]),
      .checkError,
      .later (callMethod .data ["Close"] [])]
  | _ => []

/-- The body of the request as an argument. -/
def bodyArgument : Body → Expr
  | .empty => .nil
  | .multipart _ => ofVariable .form
  | _ => ofVariable .data

/-- The statement that sets a header field, or adds it if there is one of the name. -/
def setHeader (isRepeated : Bool) (name value : Expr) : Statement :=
  .run (callMethod .req ["Header", if isRepeated then "Add" else "Set"] [name, value])

/-- The statements that give the request its header fields, those of `earlier` being set. -/
def headerStatements (earlier : Headers) : Headers → List Statement
  | [] => []
  | h :: rest =>
    setHeader (Headers.hasNameOf earlier h) (ofWord h.name) (ofWord h.value)
      :: headerStatements (earlier ++ [h]) rest

/-- The statement that sets the content type, if the header fields do not. -/
def contentTypeStatements (r : Request) : List Statement :=
  match r.impliedContentType?, r.explicitContentType?, r.body with
  | some contentType, _, _ => [setHeader false (ofText "Content-Type") (ofWord contentType)]
  | none, none, .multipart _ =>
    [setHeader false (ofText "Content-Type") (callMethod .writer ["FormDataContentType"] [])]
  | _, _, _ => []

def credentialsStatements (c : Credentials) : List Statement :=
  [.run (callMethod .req ["SetBasicAuth"] [ofWord c.user, ofWord c.password])]

/-- The statements that send the request and print the answer. -/
def sendStatements : List Statement :=
  [.define [.resp, .err] (callMethod .client ["Do"] [ofVariable .req]),
    .checkError,
    .later (callMethod .resp ["Body", "Close"] []),
    .define [.bodyText, .err] (callPackage .io "ReadAll" [.select (.ofVariable .resp ["Body"])]),
    .checkError,
    .run (callPackage .fmt "Printf" [ofText "%s\n", ofVariable .bodyText])]

/-- The statements of the program for a request. -/
def statementsOf (r : Request) : List Statement :=
  formStatements r.body
    ++ [.define [.client] (.newValue (.ofPackage .http "Client"))]
    ++ bodyStatements r.body
    ++ [.define [.req, .err] (callPackage .http "NewRequest"
        [ofWord r.effectiveMethod, ofWord r.url, bodyArgument r.body]), .checkError]
    ++ headerStatements [] r.headers
    ++ contentTypeStatements r
    ++ r.credentials.toList.flatMap credentialsStatements
    ++ sendStatements

/-! ## Imports -/

/-- The packages that the statements for a part need, beside those of all programs. -/
def partPackages : FormPart → List Package
  | .field _ _ => []
  | .file _ filename path =>
    (if FormPart.isNamedByPath filename path then [.filepath] else []) ++ [.os]
  | .fileContent _ _ => [.os]

/-- The packages that the body of a request needs, as its statements come to need them. -/
def bodyPackages : Body → List Package
  | .empty => []
  | .raw _ _ => [.strings]
  | .urlEncoded _ => [.strings]
  | .multipart parts => [.bytes, .multipart] ++ parts.flatMap partPackages
  | .file _ _ => [.os]

/-- The packages that the program for a request needs. -/
def packagesOf (r : Request) : List Package :=
  [.fmt, .io, .log, .http] ++ (if r.usedVariables.isEmpty then [] else [.os])
    ++ bodyPackages r.body

/-- The program that sends a request. -/
def Program.ofRequest (r : Request) : Program :=
  ⟨sortedOnce Package.path (packagesOf r), statementsOf r⟩

/-- The source of a program, which needs nothing beyond the standard library. -/
def Program.source (p : Program) : Source :=
  ⟨p.code.text GoLiteral.quote, p.imports.map Package.path, []⟩

end Go
end CurlScribe
