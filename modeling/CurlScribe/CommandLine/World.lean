import CurlScribe.CommandLine.Host
import CurlScribe.Files.Tree

/-!
# Surroundings as a value

A world holds all that a run can see and all that it leaves behind, so that a run is a function from
one world to another.
-/

namespace CurlScribe
namespace CommandLine

open Files

/-- The surroundings of a run as a value. -/
structure World where
  environment : List (Text × Text)
  tree : Tree
  current : Place
  input : Bytes
  out : Text
  err : Text
deriving DecidableEq, Repr

namespace World

/-- The world after an attempt to change its files. -/
def attempt (w : World) (change : Except FileFault Tree) : Except FileFault Unit × World :=
  match change with
  | .ok tree => (.ok (), { w with tree := tree })
  | .error fault => (.error fault, w)

end World

instance : Host (StateM World) where
  lookup? name := fun w => ((w.environment.find? fun v => v.1 == name).map Prod.snd, w)
  readFile path := fun w => (w.tree.read w.current path, w)
  readInput := fun w => (.ok w.input, w)
  writeFile path content := fun w =>
    w.attempt (w.tree.write w.current path (Utf8.encode content))
  makeDirectories path := fun w => w.attempt (w.tree.makeDirectories w.current path)
  putOut t := fun w => ((), { w with out := w.out ++ t })
  putErr t := fun w => ((), { w with err := w.err ++ t })

end CommandLine
end CurlScribe
