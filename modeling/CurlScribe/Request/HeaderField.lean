import CurlScribe.Request.Headers
import CurlScribe.Word.Cut

/-!
# Reading header fields

The value of a header option is `Name: value`, or `Name;` for a field without a value. Every other
form is dropped with a remark.
-/

namespace CurlScribe
namespace Header

/-- The field that `raw` describes, or the remark on why there is none. -/
def read (raw : Word) : Except Text Header :=
  if raw.startsWith '@' then .error ("header file ignored: ".toList ++ raw.written)
  else match raw.splitOnce ':' with
    | some (name, value) =>
      if name.trim.isEmpty then .error ("header without a name ignored: ".toList ++ raw.written)
      else if value.trimStart.isEmpty then
        .error (raw.written ++ " removes a header curl would add".toList)
      else .ok ⟨name.trim, value.trimStart⟩
    | none =>
      match raw.trimEnd.dropTrailing? ';' with
      | none => .error ("malformed header ignored: ".toList ++ raw.written)
      | some name =>
        if name.trim.isEmpty then .error ("malformed header ignored: ".toList ++ raw.written)
        else .ok ⟨name.trim, Word.empty⟩

end Header
end CurlScribe
