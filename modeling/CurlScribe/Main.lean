import CurlScribe.CommandLine.Run

/-!
# The program

The surroundings of the running program, and its entry. Everything else is in the run itself.
-/

namespace CurlScribe
namespace CommandLine

/-- The fault behind one of the system's numbers for errors, which it explains as `details`. Some
calls give the number with its sign turned. -/
def faultOfNumber (number : UInt32) (details : String) : FileFault :=
  match if number < 0x80000000 then number else 0 - number with
  | 20 => .notDirectory
  | 21 => .isDirectory
  | 36 => .nameTooLong
  | other => .refused (details ++ " (os error " ++ toString other ++ ")").toList

/-- The fault that an error of the system stands for. -/
def faultOf (e : IO.Error) : FileFault :=
  match e with
  | .noFileOrDirectory _ _ _ => .notFound
  | .alreadyExists _ _ _ => .exists
  | .inappropriateType _ code details => faultOfNumber code details
  | .otherError code details => faultOfNumber code details
  | .permissionDenied _ code details => faultOfNumber code details
  | .resourceExhausted _ code details => faultOfNumber code details
  | .invalidArgument _ code details => faultOfNumber code details
  | other => .refused other.toString.toList

/-- An action with its errors as faults. -/
def attempted {α : Type} (action : IO α) : IO (Except FileFault α) := do
  try
    return .ok (← action)
  catch e =>
    return .error (faultOf e)

/-- All that is left in a stream, behind `before`. -/
partial def readRest (stream : IO.FS.Stream) (before : ByteArray) : IO ByteArray := do
  let chunk ← stream.read 65536
  if chunk.isEmpty then return before
  readRest stream (before ++ chunk)

instance : Host IO where
  lookup? name := do
    return (← IO.getEnv (String.ofList name)).map String.toList
  readFile path := attempted do
    return (← IO.FS.readBinFile (String.ofList path)).toList
  readInput := attempted do
    return (← readRest (← IO.getStdin) ByteArray.empty).toList
  writeFile path content := attempted do
    IO.FS.writeBinFile (String.ofList path) (String.ofList content).toUTF8
  makeDirectories path := attempted do
    IO.FS.createDirAll (String.ofList path)
  putOut t := do
    let out ← IO.getStdout
    out.putStr (String.ofList t)
    out.flush
  putErr t := do
    let err ← IO.getStderr
    err.putStr (String.ofList t)

end CommandLine
end CurlScribe

/-- The program, called with its arguments. -/
def main (args : List String) : IO UInt32 := do
  let status ← CurlScribe.CommandLine.run (m := IO) (args.map String.toList)
  return status.code.toUInt32
