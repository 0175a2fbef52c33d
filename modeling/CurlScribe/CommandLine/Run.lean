import CurlScribe.CommandLine.Batch
import CurlScribe.CommandLine.Defaults
import CurlScribe.CommandLine.ExitStatus
import CurlScribe.Log.Quoted

/-!
# Runs

A run reads the configuration and the arguments, gathers its inputs, converts each of them, and
writes what comes out: to standard output, to one file, or to a directory with a file for each
input. A failed input does not stop the others.
-/

namespace CurlScribe
namespace CommandLine

/-! ## Logging -/

/-- How a run logs: as the variable `CURLGEN_LOG` says, if its value is a filter, or else down to
the level that the arguments ask for. -/
def loggingFor (wanted : Option Text) (args : Args) (config : Config) : Logging where
  filter := (wanted.bind Log.Filter.ofText?).getD (Log.Filter.ofLimit (some args.logLevel))
  format := (args.logFormat.or config.logFormat).getD .text

/-- What there is to say about a configuration that was not used, or not all of it. -/
def configNotes (directory : Text) (loaded : Except ConfigFault Config) : List Note :=
  match loaded with
  | .error fault =>
    [.event ⟨.warn, "Failed to load config: ".toList ++ (Error.config fault).message,
      [("dir".toList, .text directory)]⟩]
  | .ok config =>
    match defaultsFault? config.options with
    | none => []
    | some fault =>
      [.event ⟨.warn, "Ignoring default options from config: ".toList ++ fault.message,
        [("options".toList, .text (Log.quotedList config.options))]⟩]

/-- The log line for the style of a run. -/
def styleNote (style : Style) : Note :=
  .event ⟨.debug, "Target style selected".toList, [("style".toList, .text style.name)]⟩

/-- The log line for a file that has been written. -/
def wroteNote (path : Text) : Note :=
  .event ⟨.info, "Wrote output".toList, [("path".toList, .text path)]⟩

/-! ## Choices -/

/-- The style of a run. -/
def chosenStyle (args : Args) (config : Config) : Style :=
  (args.style.or config.style).getD .python

/-- The list of all styles. -/
def styleList : Text :=
  Style.all.flatMap fun s => s.name ++ "\t.".toList ++ s.extension ++ ['\n']

variable {m : Type → Type} [Monad m] [Host m]

/-! ## Inputs and outputs -/

/-- The inputs in files. -/
def readInputs : List Text → m (List Input)
  | [] => return []
  | name :: rest => do
    let content ← Host.readFile name
    return ⟨name, textOf content⟩ :: (← readInputs rest)

/-- The inputs that arguments ask for: a command among them, files, or else standard input. -/
def gatherInputs (args : Args) : m (Except FileFault (List Input)) :=
  match args.command, args.files with
  | some command, _ => return .ok [⟨"<command>".toList, .ok command⟩]
  | none, [] => do
    match textOf (← Host.readInput) with
    | .ok command => return .ok [⟨"<stdin>".toList, .ok command⟩]
    | .error fault => return .error fault
  | none, files => return .ok (← readInputs files)

/-- Write texts to files, in order, until one cannot be written. -/
def writeFiles (logging : Logging) : List (Text × Text) → m (Except FileFault Unit)
  | [] => return .ok ()
  | (path, text) :: rest => do
    match ← Host.writeFile path text with
    | .error fault => return .error fault
    | .ok () =>
      logging.write [wroteNote path]
      writeFiles logging rest

/-- Write outputs where the arguments say. -/
def writeOutputs (logging : Logging) (args : Args) (style : Style) (amongSeveral : Bool)
    (outputs : List Output) : m (Except FileFault Unit) :=
  match args.output with
  | none => do
    Host.putOut (joinOutputs args.deps outputs)
    return .ok ()
  | some path =>
    if amongSeveral then do
      match ← Host.makeDirectories path with
      | .error fault => return .error fault
      | .ok () =>
        writeFiles logging (outputs.map fun o => (o.path path style args.deps, o.text args.deps))
    else writeFiles logging (outputs.map fun o => (path, o.text args.deps))

/-! ## Runs -/

/-- Convert all inputs that the arguments ask for. -/
def convertInputs (logging : Logging) (args : Args) (style : Style) : m ExitStatus := do
  match ← gatherInputs args with
  -- standard input is the only input that there is, so nothing is left to do without it
  | .error fault =>
    logging.write [.complaint (Error.file fault).message]
    return .failure
  | .ok inputs =>
    let report := reportAll style (isBatch inputs) inputs
    logging.write report.notes
    match ← writeOutputs logging args style (isBatch inputs) report.outputs with
    | .ok () => return .ofFailures report.failures
    | .error fault =>
      logging.write [.complaint (Error.file fault).message]
      return .ofFailures (report.failures + 1)

/-- Do what arguments ask for. -/
def obey (args : Args) (directory : Text) (loaded : Except ConfigFault Config)
    (config : Config) : m ExitStatus := do
  let logging := loggingFor (← Host.lookup? "CURLGEN_LOG".toList) args config
  logging.write (configNotes directory loaded)
  if args.listStyles then
    Host.putOut styleList
    return .success
  else
    let style := chosenStyle args config
    logging.write [styleNote style]
    convertInputs logging args style

/-- Run the program with arguments. -/
def run (arguments : List Text) : m ExitStatus := do
  let directory ← configDirectory
  let loaded ← loadConfig directory
  -- a broken configuration counts as an empty one; what is wrong is told once logging is set up
  let config := loaded.toOption.getD Config.empty
  match Args.parse (withDefaults config.options arguments) with
  | .ok args => obey args directory loaded config
  | .error stop =>
    if stop.isAnswer then
      Host.putOut stop.text
      return .success
    else
      Host.putErr stop.text
      return .failure

end CommandLine
end CurlScribe
