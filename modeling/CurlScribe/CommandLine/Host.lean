import CurlScribe.Encoding.Utf8
import CurlScribe.Error

/-!
# Surroundings of a run

What a run of the program asks of its surroundings: variables, files, standard input, and places to
write to. A run is the same in every monad that grants this.
-/

namespace CurlScribe
namespace CommandLine

/-- Surroundings in which the program can run. -/
class Host (m : Type → Type) where
  /-- The value of a variable of the environment. -/
  lookup? : Text → m (Option Text)
  /-- The content of a file. -/
  readFile : Text → m (Except FileFault Bytes)
  /-- All of standard input. -/
  readInput : m (Except FileFault Bytes)
  /-- Make a file, or replace its content. -/
  writeFile : Text → Text → m (Except FileFault Unit)
  /-- Make a directory, and those that lead to it. -/
  makeDirectories : Text → m (Except FileFault Unit)
  /-- Write to standard output. -/
  putOut : Text → m Unit
  /-- Write to standard error. -/
  putErr : Text → m Unit

/-- The text that bytes spell, if there are bytes and they spell one. -/
def textOf (content : Except FileFault Bytes) : Except FileFault Text :=
  match content with
  | .error fault => .error fault
  | .ok bytes =>
    match Utf8.decode? bytes with
    | some t => .ok t
    | none => .error .notText

end CommandLine
end CurlScribe
