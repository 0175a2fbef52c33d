import CurlScribe.Text.Basic

/-!
# Target styles

The kinds of client code that a command can be turned into, with their names, the short names that
are also understood, and the extension of files that hold such code.
-/

namespace CurlScribe

/-- A kind of client code. -/
inductive Style where
  | go
  | python
  | rust
  | http
deriving DecidableEq, Repr, Inhabited

namespace Style

/-- All styles, in the order in which they are listed. -/
def all : List Style := [go, python, rust, http]

def name : Style → Text
  | go => "go".toList
  | python => "python".toList
  | rust => "rust".toList
  | http => "http".toList

/-- A second name that is understood wherever a style is named. -/
def shortName : Style → Text
  | go => "golang".toList
  | python => "py".toList
  | rust => "rs".toList
  | http => "raw".toList

/-- The extension of a file of generated code. -/
def extension : Style → Text
  | go => "go".toList
  | python => "py".toList
  | rust => "rs".toList
  | http => "http".toList

/-- The style with exactly this name or short name. -/
def ofName? (n : Text) : Option Style := all.find? fun s => s.name == n || s.shortName == n

/-- The style with this name or short name in any case. -/
def ofNameIgnoringCase? (n : Text) : Option Style := ofName? (Text.lower n)

/-- What is said of a name that no style has. -/
def unknownMessage (n : Text) : Text :=
  "Unknown style '".toList ++ n ++ "'. Supported: ".toList ++ Text.join ", ".toList (all.map name)

end Style
end CurlScribe
