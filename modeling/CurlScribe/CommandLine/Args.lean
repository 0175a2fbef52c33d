import CurlScribe.CommandLine.Terminal
import CurlScribe.Log.Event
import CurlScribe.Target.Style

/-!
# Arguments of the program

What the arguments of the program ask for, and the ways in which they can be wrong.
-/

namespace CurlScribe
namespace CommandLine

/-! ## Options -/

/-- The options that take a value. -/
inductive ValueOption where
  | command
  | language
  | output
  | logFormat
deriving DecidableEq, Repr, Inhabited

/-- The options that take none. -/
inductive Switch where
  | deps
  | listStyles
  | verbose
  | quiet
  | help
  | version
deriving DecidableEq, Repr, Inhabited

/-- An option of the program. -/
inductive ArgOption where
  | value (o : ValueOption)
  | switch (s : Switch)
deriving DecidableEq, Repr, Inhabited

namespace ArgOption

/-- All options with their long names and, where they have one, their letters. -/
def table : List (ArgOption × String × Option Char) := [
  (value .command, "command", some 'c'),
  (value .language, "language", some 'l'),
  (value .output, "output", some 'o'),
  (value .logFormat, "log-format", none),
  (switch .deps, "deps", none),
  (switch .listStyles, "list-styles", none),
  (switch .verbose, "verbose", some 'v'),
  (switch .quiet, "quiet", some 'q'),
  (switch .help, "help", some 'h'),
  (switch .version, "version", some 'V')]

/-- The option with this long name. -/
def ofLong? (name : Text) : Option ArgOption :=
  (table.find? fun (_, long, _) => long.toList == name).map Prod.fst

/-- The option with this letter. -/
def ofLetter? (c : Char) : Option ArgOption :=
  (table.find? fun (_, _, letter) => letter == some c).map Prod.fst

end ArgOption

/-- Something that messages name. -/
inductive ArgName where
  | files
  | option (o : ArgOption)
deriving DecidableEq, Repr, Inhabited

/-- The name of an argument as messages show it. -/
def ArgName.shown : ArgName → Text
  | files => "[FILE]...".toList
  | option (.value .command) => "--command <COMMAND>".toList
  | option (.value .language) => "--language <STYLE>".toList
  | option (.value .output) => "--output <PATH>".toList
  | option (.value .logFormat) => "--log-format <FORMAT>".toList
  | option (.switch .deps) => "--deps".toList
  | option (.switch .listStyles) => "--list-styles".toList
  | option (.switch .verbose) => "--verbose...".toList
  | option (.switch .quiet) => "--quiet".toList
  | option (.switch .help) => "--help".toList
  | option (.switch .version) => "--version".toList

/-! ## Results -/

/-- What the arguments ask for. -/
structure Args where
  files : List Text
  command : Option Text
  style : Option Style
  output : Option Text
  deps : Bool
  listStyles : Bool
  verbose : Nat
  quiet : Bool
  logFormat : Option Log.Format
deriving DecidableEq, Repr, Inhabited

namespace Args

/-- What no arguments ask for. -/
def none : Args := ⟨[], .none, .none, .none, false, false, 0, false, .none⟩

/-- The level down to which events are logged. -/
def logLevel (a : Args) : Log.Level :=
  if a.quiet then .error
  else match a.verbose with
    | 0 => .warn
    | 1 => .info
    | 2 => .debug
    | _ => .trace

end Args

/-- Why arguments do not lead to a run. -/
inductive Stop where
  /-- A value that the argument does not take; an empty one counts as missing. -/
  | invalidValue (arg : ArgName) (value : Text)
  /-- An option that there is not, as written. -/
  | unknownArgument (written : Text)
  /-- A value for an option that takes none. -/
  | unexpectedValue (arg : ArgName) (value : Text)
  /-- Two arguments that exclude each other, the first one given first. -/
  | conflict (first second : ArgName)
  | helpWanted
  | versionWanted
deriving DecidableEq, Repr

namespace Stop

/-- Is this an answer to a question, and not a mistake? -/
def isAnswer : Stop → Bool
  | helpWanted => true
  | versionWanted => true
  | _ => false

/-- What the program prints first. -/
def line : Stop → Text
  | invalidValue arg [] =>
    "error: a value is required for '".toList ++ arg.shown ++ "' but none was supplied".toList
  | invalidValue arg value =>
    "error: invalid value '".toList ++ Terminal.shown value ++ "' for '".toList ++ arg.shown
      ++ "'".toList
  | unknownArgument written =>
    "error: unexpected argument '".toList ++ Terminal.shown written ++ "' found".toList
  | unexpectedValue arg value =>
    "error: unexpected value '".toList ++ Terminal.shown value ++ "' for '".toList ++ arg.shown
      ++ "' found; no more were expected".toList
  | conflict first second =>
    "error: the argument '".toList ++ first.shown ++ "' cannot be used with '".toList
      ++ second.shown ++ "'".toList
  | helpWanted => "Convert curl commands into equivalent HTTP client code".toList
  | versionWanted => "curlgen 0.1.0".toList

/-- All that the program prints: but for the version, the first line goes before the usage. -/
def text (s : Stop) : Text :=
  match s with
  | versionWanted => s.line ++ ['\n']
  | _ => s.line ++ "\n\nUsage: curlgen [OPTIONS] [FILE]...\n".toList

/-- The kind of mistake, in words. -/
def reason : Stop → Text
  | invalidValue _ _ => "one of the values isn't valid for an argument".toList
  | unknownArgument _ => "unexpected argument found".toList
  | unexpectedValue _ _ => "unexpected value for an argument found".toList
  | conflict _ _ =>
    "an argument cannot be used with one or more of the other specified arguments".toList
  | helpWanted => "invalid options".toList
  | versionWanted => "invalid options".toList

end Stop
end CommandLine
end CurlScribe
