import CurlScribe.Error
import CurlScribe.Log.Event
import CurlScribe.Toml.Document

/-!
# Configuration

The defaults that a configuration file may set: a style, a log format and further options. The file
is a TOML document with nothing in it but these, in its table `defaults`.
-/

namespace CurlScribe

/-- Defaults for what the arguments leave open. -/
structure Config where
  style : Option Style
  logFormat : Option Log.Format
  options : List Text
deriving DecidableEq, Repr, Inhabited

namespace Config

open Toml (Node Fields)

/-- No defaults. -/
def empty : Config := ⟨none, none, []⟩

/-! ## Values -/

/-- The style that a value names, in any case. -/
def style? : Node → Option Style
  | .string name => Style.ofNameIgnoringCase? name
  | _ => none

/-- A value without any content. -/
def isEmptyNode : Node → Bool
  | .array [] => true
  | .table _ [] => true
  | _ => false

/-- The log format that a value names: a string, or a table whose only key is the name. -/
def logFormat? : Node → Option Log.Format
  | .string name => Log.Format.ofName? name
  | .table _ [(name, value)] => if isEmptyNode value then Log.Format.ofName? name else none
  | _ => none

/-- The text of a string. -/
def text? : Node → Option Text
  | .string t => some t
  | _ => none

/-- The options that a value lists. -/
def options? : Node → Option (List Text)
  | .array items => items.mapM text?
  | _ => none

/-! ## Documents -/

/-- The defaults with one key set. -/
def setField (c : Config) (key : Text) (value : Node) : Option Config :=
  if key == "style".toList then (style? value).map fun s => { c with style := some s }
  else if key == "log_format".toList then
    (logFormat? value).map fun f => { c with logFormat := some f }
  else if key == "options".toList then (options? value).map fun os => { c with options := os }
  else none

/-- The defaults with all keys of a table set. -/
def setFields (c : Config) : Fields → Option Config
  | [] => some c
  | (key, value) :: rest =>
    match c.setField key value with
    | some c => c.setFields rest
    | none => none

/-- The defaults that a value gives: by key in a table, or by place in an array, which names a
style, a format and, if it goes on, options. -/
def ofNode? : Node → Option Config
  | .table _ fields => empty.setFields fields
  -- items behind the options are not looked at
  | .array (style :: format :: rest) => do
    let s ← style? style
    let f ← logFormat? format
    let os ← match rest with
      | [] => some []
      | options :: _ => options? options
    return ⟨some s, some f, os⟩
  | _ => none

/-- The defaults that a document sets. -/
def ofText? (t : Text) : Option Config :=
  match Toml.parse? t with
  | some [] => some empty
  | some [(key, value)] => if key == "defaults".toList then ofNode? value else none
  | _ => none

/-- The defaults that a document sets, or why there are none. -/
def ofText (t : Text) : Except ConfigFault Config :=
  match ofText? t with
  | some c => .ok c
  | none => .error (.invalid "not a table of defaults".toList)

end Config
end CurlScribe
