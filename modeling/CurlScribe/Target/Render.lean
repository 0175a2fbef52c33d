import CurlScribe.Outcome
import CurlScribe.Target.GoProgram
import CurlScribe.Target.Message
import CurlScribe.Target.PythonProgram
import CurlScribe.Target.RustProgram

/-!
# Rendering
-/

namespace CurlScribe

/-- The source in a style that sends a request. -/
def Request.render (r : Request) : Style → Except Error Source
  | .go => .ok (Go.Program.ofRequest r).source
  | .python => (Python.Program.ofRequest r).map Python.Program.source
  | .rust => .ok (Rust.Program.ofRequest r).source
  | .http => (Message.ofRequest r).map Message.source

end CurlScribe
