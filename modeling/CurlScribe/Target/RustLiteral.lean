import CurlScribe.Text.CharClass

/-!
# Rust string literals

Text is written between double quotes with escapes. Text that contains a double quote or a
backslash is written as a raw literal between `r#"` and `"#` instead if that form can hold it as it
is.
-/

namespace CurlScribe
namespace RustLiteral

/-- A character that a raw literal should not hold. -/
def needsEscape (c : Char) : Bool := Text.isControl c && c != '\n' && c != '\t'

/-- Can the text stand in a raw literal as it is? -/
def fitsRaw (t : Text) : Bool := !Text.hasInfix ['"', '#'] t && !t.any needsEscape

/-- A character between double quotes. -/
def escape (c : Char) : Text :=
  if c = '"' then ['\\', '"']
  else if c = '\\' then ['\\', '\\']
  else if c = '\n' then ['\\', 'n']
  else if c = '\r' then ['\\', 'r']
  else if c = '\t' then ['\\', 't']
  else if Text.isControl c then ['\\', 'u', '\x7b'] ++ Text.hex 1 c.toNat ++ ['\x7d']
  else [c]

/-- The literal for a text. -/
def quote (t : Text) : Text :=
  if (t.contains '"' || t.contains '\\') && fitsRaw t then ['r', '#', '"'] ++ t ++ ['"', '#']
  else '"' :: (t.flatMap escape ++ ['"'])

end RustLiteral
end CurlScribe
