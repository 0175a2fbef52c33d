/-!
# Exit status
-/

namespace CurlScribe
namespace CommandLine

/-- How a run ends. -/
inductive ExitStatus where
  | success
  | failure
deriving DecidableEq, Repr, Inhabited

namespace ExitStatus

/-- A run succeeds if nothing in it failed. -/
def ofFailures (count : Nat) : ExitStatus := if count = 0 then success else failure

/-- The number that a run hands to its caller. -/
def code : ExitStatus → UInt8
  | success => 0
  | failure => 1

end ExitStatus
end CommandLine
end CurlScribe
