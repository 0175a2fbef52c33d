import CurlScribe.CommandLine.Note
import CurlScribe.Conversion
import CurlScribe.Files.Path

/-!
# Batches

The inputs of a run, each with its own command, and what becomes of them. Every input is converted
on its own: one that fails leads to a complaint, and the others are not touched by that.
-/

namespace CurlScribe
namespace CommandLine

/-! ## Inputs -/

/-- Something that holds a command, under the name that messages give it. -/
structure Input where
  name : Text
  content : Except FileFault Text

/-- A conversion under the name of its input. -/
structure Output where
  name : Text
  conversion : Conversion
deriving DecidableEq, Repr

/-- What has become of inputs: what there is to say, the outputs of those that were converted, and
how many were not. -/
structure Report where
  notes : List Note
  outputs : List Output
  failures : Nat
deriving DecidableEq, Repr

namespace Report

/-- Nothing has become of no inputs. -/
def empty : Report := ⟨[], [], 0⟩

/-- One report after another. -/
def append (r s : Report) : Report :=
  ⟨r.notes ++ s.notes, r.outputs ++ s.outputs, r.failures + s.failures⟩

/-- An input that has failed. -/
def ofFailure (complaint : Text) : Report := ⟨[.complaint complaint], [], 1⟩

end Report

/-! ## Conversion -/

/-- The log line for a warning. -/
def warningNote (name : Text) (w : Warning) : Note :=
  .event ⟨.warn, w.shown, [("input".toList, .text name)]⟩

/-- The log line for a conversion. -/
def convertedNote (name : Text) (c : Conversion) : Note :=
  .event ⟨.info, "Converted".toList, [("input".toList, .text name),
    ("method".toList, .text c.request.effectiveMethod.written),
    ("env_refs".toList, .number c.request.usedVariables.length)]⟩

namespace Input

/-- What becomes of an input. Among several inputs its name is put before an error. -/
def report (style : Style) (amongSeveral : Bool) (i : Input) : Report :=
  match i.content with
  | .error fault => .ofFailure (i.name ++ ": ".toList ++ (Error.file fault).message)
  | .ok command =>
    let outcome := Conversion.ofCommand style command
    match outcome.result with
    | .error e =>
      .ofFailure (if amongSeveral then i.name ++ ": ".toList ++ e.message else e.message)
    | .ok c =>
      ⟨outcome.warnings.map (warningNote i.name) ++ [convertedNote i.name c], [⟨i.name, c⟩], 0⟩

end Input

/-- Is this more than one input? -/
def isBatch (inputs : List Input) : Bool := inputs.length > 1

/-- What becomes of inputs, in order. -/
def reportAll (style : Style) (amongSeveral : Bool) : List Input → Report
  | [] => .empty
  | i :: rest => (i.report style amongSeveral).append (reportAll style amongSeveral rest)

/-! ## Outputs -/

namespace Output

/-- The text of an output: its source, or the packages that this needs, one a line. -/
def text (deps : Bool) (o : Output) : Text :=
  if deps then o.conversion.source.dependencies.flatMap fun d => d ++ ['\n']
  else o.conversion.source.text

/-- Where in a directory an output is written: a file with the stem of its input's name. -/
def path (directory : Text) (style : Style) (deps : Bool) (o : Output) : Text :=
  let extension := if deps then "deps".toList else style.extension
  Path.join directory (Path.stem o.name ++ '.' :: extension)

end Output

/-- All outputs as one text. Sources have a line break between them, and packages do not. -/
def joinOutputs (deps : Bool) (outputs : List Output) : Text :=
  Text.join (if deps then [] else ['\n']) (outputs.map (Output.text deps))

end CommandLine
end CurlScribe
