import CurlScribe.Request.Basic
import CurlScribe.Target.RustLiteral
import CurlScribe.Target.RustSyntax

/-!
# Rust clients

The program that sends a request with the blocking client of the `reqwest` package.
-/

namespace CurlScribe
namespace Rust

/-- The methods that have a function of the client. -/
def shortcuts : List Text := ["GET", "POST", "PUT", "PATCH", "DELETE", "HEAD"].map String.toList

/-- The other standard methods, which are constants. -/
def constants : List Text := ["OPTIONS", "TRACE", "CONNECT"].map String.toList

/-- The beginning of the chain for a method. -/
def Start.ofMethod (method : Word) : Start :=
  match method.literal? with
  | some verb =>
    if shortcuts.contains verb then .shortcut (Text.lower verb)
    else if constants.contains verb then .constant verb
    else .general method
  | none => .general method

/-- The call that adds a part. -/
def FormCall.ofPart : FormPart → FormCall
  | .field name value => .text name value
  | .file name filename path =>
    if FormPart.isNamedByPath filename path then .file name path else .renamed name path filename
  | .fileContent name path => .contents name path

/-- The calls that add the body. -/
def bodyCalls : Body → List RequestCall
  | .empty => []
  | .raw content _ => [.body content]
  | .urlEncoded pairs => [.body (Body.encoded pairs)]
  | .file path _ => [.bodyFile path]
  | .multipart _ => [.form]

/-- The form of a multipart body. -/
def formOf : Body → Option (List FormCall)
  | .multipart parts => some (parts.map FormCall.ofPart)
  | _ => none

/-- The calls between the beginning of the chain and its end. -/
def callsOf (r : Request) : List RequestCall :=
  (r.headers.map fun h => .header h.name h.value)
    ++ (r.impliedContentType?.toList.map fun type => .header (Word.ofString "Content-Type") type)
    ++ (r.credentials.toList.map fun c => .credentials c.user c.password)
    ++ bodyCalls r.body

/-- The modules that a program imports. -/
def importsOf (r : Request) : List Text :=
  sortedOnce id (["reqwest::blocking::Client".toList]
    ++ if (formOf r.body).isSome then ["reqwest::blocking::multipart".toList] else [])

/-- The program that sends a request. -/
def Program.ofRequest (r : Request) : Program where
  imports := importsOf r
  form := formOf r.body
  start := Start.ofMethod r.effectiveMethod
  url := r.url
  calls := callsOf r

/-- The source of a program. -/
def Program.source (p : Program) : Source :=
  ⟨p.code.text RustLiteral.quote, p.imports, ["reqwest".toList]⟩

end Rust
end CurlScribe
