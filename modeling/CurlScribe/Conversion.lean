import CurlScribe.Request.Build
import CurlScribe.Setting.Resolve
import CurlScribe.Target.Render

/-!
# From a command to a source
-/

namespace CurlScribe
namespace Request

/-- The words of a command without a leading `curl`, which is optional. -/
def withoutProgram : List Word → List Word
  | [] => []
  | w :: rest => if w.isTextIgnoringCase "curl".toList then rest else w :: rest

/-- The settings that a command gives. -/
def settingsOf (command : Text) : Except Error (List Setting) :=
  match Shell.tokenize command with
  | .error e => .error (.malformed e)
  | .ok tokens => Setting.resolve (withoutProgram (tokens.map Shell.Token.word))

/-- The request that a command makes, with the warnings on the way. -/
def ofCommand (command : Text) : Outcome Request :=
  (Outcome.ofExcept (settingsOf command)).andThen ofSettings

end Request

/-- A command that has been converted: its request and the source that sends it. -/
structure Conversion where
  request : Request
  source : Source
deriving DecidableEq, Repr

/-- Convert a command into a source in the given style. -/
def Conversion.ofCommand (style : Style) (command : Text) : Outcome Conversion :=
  (Request.ofCommand command).andThen fun request =>
    .ofExcept ((request.render style).map fun source => ⟨request, source⟩)

end CurlScribe
