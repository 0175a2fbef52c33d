import CurlScribe.Http.Method
import CurlScribe.Request.Body
import CurlScribe.Request.Headers

/-!
# Requests

The call that a command makes, free of the command's spelling and of any target style.
-/

namespace CurlScribe

/-- Credentials of basic authentication. -/
structure Credentials where
  user : Word
  password : Word
deriving DecidableEq, Repr, Inhabited

/-- A request. `method` is the one that the command asks for, if it does; `usedVariables` are the
names of the environment variables that the request refers to, the first use first. -/
structure Request where
  method : Option Word
  url : Word
  headers : Headers
  credentials : Option Credentials
  body : Body
  usedVariables : List Text
deriving DecidableEq, Repr, Inhabited

namespace Request

/-- The method to send: the one asked for, else the default one. -/
def effectiveMethod (r : Request) : Word :=
  match r.method with
  | some method => method
  | none => Word.ofText (Method.default (!r.body.isEmpty))

/-- The value of the first Content-Type field. -/
def explicitContentType? (r : Request) : Option Word :=
  Headers.get? r.headers "Content-Type".toList

/-- The content type to add to the header fields: the body's own, unless a field gives one. -/
def impliedContentType? (r : Request) : Option Word :=
  match r.explicitContentType? with
  | some _ => none
  | none => r.body.contentType?

/-- All words of the request. -/
def words (r : Request) : List Word :=
  r.method.toList ++ [r.url] ++ (r.headers.flatMap fun h => [h.name, h.value])
    ++ (r.credentials.toList.flatMap fun c => [c.user, c.password]) ++ r.body.words

/-- The names of the variables that words refer to, each once, the first use first. -/
def variablesOf (words : List Word) : List Text := (words.flatMap Word.variableNames).eraseDups

/-- The request with `usedVariables` taken from its words. -/
def withVariables (r : Request) : Request := { r with usedVariables := variablesOf r.words }

end Request
end CurlScribe
