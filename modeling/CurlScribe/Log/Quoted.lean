import CurlScribe.Text.CharClass
import CurlScribe.Unicode.Visible

/-!
# Quoted texts in log fields

A list of texts as the value of a field: each text in double quotes, with escapes for what could not
be told from its surroundings or not be seen.
-/

namespace CurlScribe
namespace Log

/-- A character of a quoted text. -/
def quotedChar (c : Char) : Text :=
  if c == '\x00' then ['\\', '0']
  else if c == '\t' then ['\\', 't']
  else if c == '\n' then ['\\', 'n']
  else if c == '\r' then ['\\', 'r']
  else if c == '"' then ['\\', '"']
  else if c == '\\' then ['\\', '\\']
  else if Unicode.isVisible c then [c]
  else ['\\', 'u', '\x7b'] ++ Text.hex 1 c.toNat ++ ['\x7d']

/-- A text in quotes. -/
def quoted (t : Text) : Text := '"' :: (t.flatMap quotedChar ++ ['"'])

/-- A list of texts in quotes. -/
def quotedList (ts : List Text) : Text := '[' :: (Text.join ", ".toList (ts.map quoted) ++ [']'])

end Log
end CurlScribe
