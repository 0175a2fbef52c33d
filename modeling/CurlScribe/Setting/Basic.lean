import CurlScribe.Flag.Basic
import CurlScribe.Word.Basic

/-!
# Settings

A setting is one option of a command with its value.
-/

namespace CurlScribe

/-- An option that a command gives. `name` is the option as the command writes it, empty for a
positional URL; `value` is absent for switches; `negated` holds of a switch that is turned off. -/
structure Setting where
  flag : Flag
  name : Text
  value : Option Word
  negated : Bool
deriving DecidableEq, Repr

namespace Setting

/-- The value, empty for a switch. -/
def word (s : Setting) : Word := s.value.getD Word.empty

/-- A positional URL. -/
def positional (url : Word) : Setting := ⟨.url, [], some url, false⟩

end Setting
end CurlScribe
