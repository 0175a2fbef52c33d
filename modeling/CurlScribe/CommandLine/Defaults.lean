import CurlScribe.CommandLine.Reader
import CurlScribe.Config
import CurlScribe.Files.Path
import CurlScribe.CommandLine.Host

/-!
# Defaults for a run

Where the configuration lies, and how the options that it sets come before the arguments of a run.
-/

namespace CurlScribe
namespace CommandLine

/-! ## Default options -/

/-- Why default options are left out. -/
inductive DefaultsFault where
  | namesFiles
  | unusable (stop : Stop)
deriving DecidableEq, Repr

def DefaultsFault.message : DefaultsFault → Text
  | namesFiles => "default options must not name input files".toList
  | unusable stop => stop.reason

/-- Why options cannot come before every row of arguments, if they cannot: they have to be an option
list of their own, without files. -/
def defaultsFault? (options : List Text) : Option DefaultsFault :=
  if options.isEmpty then none
  else match Args.parse options with
    | .error stop => some (.unusable stop)
    | .ok parsed => if parsed.files.isEmpty then none else some .namesFiles

/-- The arguments of a run behind the default options, if these can be used. -/
def withDefaults (options args : List Text) : List Text :=
  match defaultsFault? options with
  | none => options ++ args
  | some _ => args

/-! ## Configuration -/

variable {m : Type → Type} [Monad m] [Host m]

/-- The directory with the user's configurations, if the environment tells one: `shared` where that
is an absolute path, or else a directory in the user's home. -/
def userConfigDirectory? (shared home : Option Text) : Option Text :=
  match shared.filter Path.isAbsolute with
  | some directory => some directory
  | none => (home.filter fun h => !h.isEmpty).map fun h => Path.join h ".config".toList

/-- The directory of the configuration. -/
def configDirectory : m Text := do
  match ← Host.lookup? "CURLGEN_CONFIG_DIR".toList with
  | some directory => return directory
  | none =>
    let shared ← Host.lookup? "XDG_CONFIG_HOME".toList
    let home ← Host.lookup? "HOME".toList
    match userConfigDirectory? shared home with
    | some directory => return Path.join directory "curlgen".toList
    | none => return ".curlgen".toList

/-- The configuration that a file holds. Where there is no file there are no defaults. -/
def configOf (content : Except FileFault Bytes) : Except ConfigFault Config :=
  match textOf content with
  | .ok t => Config.ofText t
  | .error fault => if fault.isAbsence then .ok Config.empty else .error (.unreadable fault)

/-- The configuration in a directory. -/
def loadConfig (directory : Text) : m (Except ConfigFault Config) := do
  return configOf (← Host.readFile (Path.join directory "config.toml".toList))

end CommandLine
end CurlScribe
