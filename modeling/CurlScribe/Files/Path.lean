import CurlScribe.Text.Basic

/-!
# Paths

Paths as text: names with slashes between them.
-/

namespace CurlScribe
namespace Path

/-- Does the path begin at the root? -/
def isAbsolute (path : Text) : Bool := path.head? == some '/'

/-- The names of a path in order. -/
def names (path : Text) : List Text := (Text.split (· == '/') path).filter fun name => !name.isEmpty

/-- What follows the last slash. -/
def lastName (path : Text) : Text :=
  match Text.splitLast (· == '/') path with
  | some (_, name) => name
  | none => path

/-- The last name without its extension. A dot at the very beginning does not start one. -/
def stem (path : Text) : Text :=
  let name := lastName path
  match Text.splitLast (· == '.') name with
  | none => name
  | some (before, _) => if before.isEmpty then name else before

/-- The path of something in a directory. -/
def join (directory name : Text) : Text :=
  match directory.getLast? with
  | none => name
  | some '/' => directory ++ name
  | some _ => directory ++ '/' :: name

end Path
end CurlScribe
