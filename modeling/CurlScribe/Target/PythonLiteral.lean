import CurlScribe.Text.CharClass

/-!
# Python string literals

Text is written between single quotes, or between double quotes if it contains single quotes and
no double ones. Control characters are escaped, so that a literal never spans lines.
-/

namespace CurlScribe
namespace PythonLiteral

/-- The quote at both ends of the literal for a text. -/
def delimiter (t : Text) : Char := if t.contains '\'' && !t.contains '"' then '"' else '\''

/-- A character between two quotes `d`. -/
def escape (d c : Char) : Text :=
  if c = '\\' then ['\\', '\\']
  else if c = '\n' then ['\\', 'n']
  else if c = '\r' then ['\\', 'r']
  else if c = '\t' then ['\\', 't']
  else if c = d then ['\\', c]
  else if Text.isControl c then '\\' :: 'x' :: Text.hex 2 c.toNat
  else [c]

/-- The literal for a text. -/
def quote (t : Text) : Text :=
  delimiter t :: (t.flatMap (escape (delimiter t)) ++ [delimiter t])

end PythonLiteral
end CurlScribe
