import CurlScribe.Error
import CurlScribe.Request.Basic
import CurlScribe.Target.PythonLiteral
import CurlScribe.Target.PythonSyntax

/-!
# Python clients

The program that sends a request with the `requests` package. Its header fields are a dictionary,
so a request that repeats a name has no such program. Files are opened around the call, in the order
in which the body names them.
-/

namespace CurlScribe
namespace Python

/-- The methods that have a function of their own. -/
def shortcuts : List Text :=
  ["GET", "POST", "PUT", "PATCH", "DELETE", "HEAD", "OPTIONS"].map String.toList

/-- The call for a method. -/
def Call.ofMethod (method : Word) : Call :=
  match method.literal? with
  | some verb => if shortcuts.contains verb then .shortcut (Text.lower verb) else .general method
  | none => .general method

/-- The form entries of parts, where `opened` files belong to earlier parts. -/
def entriesOf (opened : Nat) : List FormPart → List Entry
  | [] => []
  | .field name value :: rest => ⟨name, .text value⟩ :: entriesOf opened rest
  | .file name filename _ :: rest =>
    ⟨name, .attachment filename opened⟩ :: entriesOf (opened + 1) rest
  | .fileContent name _ :: rest => ⟨name, .contents opened⟩ :: entriesOf (opened + 1) rest

/-- The files that have to be open for a body. -/
def filesOf : Body → List Word
  | .file path _ => [path]
  | .multipart parts => parts.filterMap FormPart.path?
  | _ => []

/-- What the call sends for a body. -/
def Content.ofBody : Body → Content
  | .empty => .nothing
  | .raw content _ => .data content
  | .urlEncoded pairs => .data (Body.encoded pairs)
  | .file _ _ => .openFile
  | .multipart parts => .entries (entriesOf 0 parts)

/-- The header fields, and the content type that the body implies. -/
def headersOf (r : Request) : List (Word × Word) :=
  (r.headers.map fun h => (h.name, h.value))
    ++ r.impliedContentType?.toList.map fun type => (Word.ofString "Content-Type", type)

/-- The modules that a program imports. -/
def importsOf (r : Request) : List Text :=
  sortedOnce id (["requests".toList] ++ if r.usedVariables.isEmpty then [] else ["os".toList])

/-- The program that sends a request, if no header name is repeated. -/
def Program.ofRequest (r : Request) : Except Error Program :=
  match Headers.firstRepeated? [] r.headers with
  | some h => .error (.unsupported .python (.repeatedHeader h.name))
  | none => .ok {
      imports := importsOf r
      headers := headersOf r
      files := filesOf r.body
      content := Content.ofBody r.body
      call := Call.ofMethod r.effectiveMethod
      url := r.url
      credentials := r.credentials.map fun c => (c.user, c.password) }

/-! ## Sources -/

/-- Lines as they are written, each with its end. -/
def written (lines : List Code) : Text :=
  lines.flatMap fun line => line.text PythonLiteral.quote ++ ['\n']

/-- A text with four spaces in front of each of its lines. -/
def indentText (t : Text) : Text :=
  (Text.lines t).flatMap fun line => "    ".toList ++ line ++ ['\n']

/-- The text of a program. What makes the request is written first and moved to the right where it
stands in the block of the open files. -/
def Program.text (p : Program) : Text :=
  let block := written p.requestLines
  written p.frontLines
    ++ (if p.files.isEmpty then block else written [withLine p.files] ++ indentText block)
    ++ written backLines

/-- The source of a program. -/
def Program.source (p : Program) : Source := ⟨p.text, p.imports, ["requests".toList]⟩

end Python
end CurlScribe
