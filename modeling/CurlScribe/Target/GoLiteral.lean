import CurlScribe.Text.CharClass

/-!
# Go string literals

Text is written between double quotes with escapes. Text that contains a double quote is written
between back quotes instead if that form can hold it as it is. A byte order mark is not allowed
anywhere in a Go source, so it is always escaped.
-/

namespace CurlScribe
namespace GoLiteral

/-- The byte order mark. -/
def byteOrderMark : Char := Char.ofNat 0xFEFF

/-- A character that a literal between back quotes cannot hold. -/
def needsEscape (c : Char) : Bool :=
  c == '\x60' || c == byteOrderMark || (Text.isControl c && c != '\n' && c != '\t')

/-- A character between double quotes. -/
def escape (c : Char) : Text :=
  if c = '"' then ['\\', '"']
  else if c = '\\' then ['\\', '\\']
  else if c = '\n' then ['\\', 'n']
  else if c = '\r' then ['\\', 'r']
  else if c = '\t' then ['\\', 't']
  else if c = byteOrderMark || Text.isControl c then '\\' :: 'u' :: Text.hex 4 c.toNat
  else [c]

/-- The literal for a text. -/
def quote (t : Text) : Text :=
  if t.contains '"' && !t.any needsEscape then '\x60' :: (t ++ ['\x60'])
  else '"' :: (t.flatMap escape ++ ['"'])

end GoLiteral
end CurlScribe
