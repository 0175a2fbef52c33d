import CurlScribe.Text.CharClass

/-!
# Request methods
-/

namespace CurlScribe
namespace Method

/-- The methods that every client library knows by name. -/
def standard : List Text :=
  ["GET", "POST", "PUT", "PATCH", "DELETE", "HEAD", "OPTIONS", "TRACE", "CONNECT"].map String.toList

/-- Is this a standard method in any case? -/
def isStandard (method : Text) : Bool := standard.any fun m => Text.sameIgnoringCase m method

/-- The method that a command asks for by `verb`: standard ones in upper case, others as written,
neither with blanks around it. -/
def normalize (verb : Text) : Text :=
  let verb := Text.trim verb
  if isStandard verb then Text.upper verb else verb

/-- The method of a request for which the command names none. -/
def default (hasBody : Bool) : Text := if hasBody then "POST".toList else "GET".toList

end Method
end CurlScribe
