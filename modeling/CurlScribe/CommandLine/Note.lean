import CurlScribe.CommandLine.Host
import CurlScribe.Log.Filter

/-!
# Standard error

A run writes two kinds of lines to standard error: log lines, of which a filter drops some, and
complaints, which are always written.
-/

namespace CurlScribe
namespace CommandLine

/-- Something that a run has to say besides its output. -/
inductive Note where
  | event (e : Log.Event)
  | complaint (message : Text)
deriving DecidableEq, Repr

/-- Which log lines are written, and how. -/
structure Logging where
  filter : Log.Filter
  format : Log.Format
deriving DecidableEq, Repr

namespace Logging

/-- What is written for a note. -/
def shown (l : Logging) : Note → Text
  | .event e => if l.filter.allows e.level then e.line l.format else []
  | .complaint message => "curlgen: ".toList ++ message ++ ['\n']

/-- Write notes in order. -/
def write {m : Type → Type} [Host m] (l : Logging) (notes : List Note) : m Unit :=
  Host.putErr (notes.flatMap l.shown)

end Logging
end CommandLine
end CurlScribe
