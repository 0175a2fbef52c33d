import CurlScribe.Encoding.Utf8
import CurlScribe.Text.CharClass

/-!
# Percent coding

A byte is written as `%` and two upper-case hexadecimal digits. Which characters stand for
themselves differs from one part of a URL to another, so the writer takes them as a predicate;
characters outside ASCII are always written as their UTF-8 bytes. The reader takes any `%` that is
followed by two hexadecimal digits for a byte and leaves all other text as it is.
-/

namespace CurlScribe
namespace Percent

/-- `%` and the two digits of a byte. -/
def escapeByte (b : UInt8) : Text :=
  '%' :: (Text.hex 2 b.toNat).map Char.toUpper

/-- A character by itself if it is ASCII and `keep` holds, else its escaped bytes. -/
def escapeChar (keep : Char → Bool) (c : Char) : Text :=
  if Text.isAscii c && keep c then [c] else (String.utf8EncodeChar c).flatMap escapeByte

/-- The text with every character that `keep` refuses written as escaped bytes. -/
def encode (keep : Char → Bool) (t : Text) : Text := t.flatMap (escapeChar keep)

/-- The bytes that a percent-encoded text stands for. -/
def decodeBytes : Text → Bytes
  | [] => []
  | '%' :: a :: b :: rest =>
    match Text.hexValue? a, Text.hexValue? b with
    | some x, some y => UInt8.ofNat (16 * x + y) :: decodeBytes rest
    | _, _ => 0x25 :: decodeBytes (a :: b :: rest)
  | c :: rest => String.utf8EncodeChar c ++ decodeBytes rest

/-- The text that a percent-encoded text stands for, malformed UTF-8 replaced. -/
def decode (t : Text) : Text := Utf8.decodeLossy (decodeBytes t)

end Percent
end CurlScribe
