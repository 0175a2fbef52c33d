import CurlScribe.Log.Event

/-!
# Which events are logged

A filter is a row of directives with commas between them: a level for everything, or a level for the
parts of the program whose name begins with a target. The longest target that fits decides.
-/

namespace CurlScribe
namespace Log

/-- The least important level that is logged, if any is. -/
abbrev Limit := Option Level

/-- A limit for the parts of the program whose names begin with `target`. -/
structure Directive where
  target : Text
  limit : Limit
deriving DecidableEq, Repr

/-- Directives in the order given. -/
abbrev Filter := List Directive

namespace Filter

/-- The part of the program that reports events. -/
def ownTarget : Text := "curlgen::core".toList

/-- The number that decimal digits spell, which a plus may precede. -/
def number? (t : Text) : Option Nat :=
  let digits := (Text.stripPrefix? ['+'] t).getD t
  if !digits.isEmpty && digits.all Char.isDigit then
    some (digits.foldl (fun n c => n * 10 + (c.toNat - '0'.toNat)) 0)
  else none

/-- The limit with this name in any case, or with this number. -/
def limit? (t : Text) : Option Limit :=
  if Text.sameIgnoringCase t "off".toList || number? t == some 0 then some none
  else match Level.all.find? fun l =>
      Text.sameIgnoringCase t l.name || number? t == some l.rank with
    | some level => some (some level)
    | none => none

/-- The filter with one limit for everything. -/
def ofLimit (limit : Limit) : Filter := [⟨[], limit⟩]

/-- May a directive begin with this character? Beyond ASCII every character counts as a letter. -/
def isDirectiveStart (c : Char) : Bool :=
  c.isAlphanum || c == '_' || c == ':' || c == '-' || !Text.isAscii c

/-- The directive that a text spells; a target without a level means everything from it. -/
def directive? (t : Text) : Option Directive :=
  if !t.head?.any isDirectiveStart then none
  else match limit? t, Text.splitFirst (· == '=') t with
    | some limit, _ => some ⟨[], limit⟩
    | none, none => some ⟨t, some .trace⟩
    | none, some (target, []) => some ⟨target, some .trace⟩
    | none, some (target, level) => (limit? level).map fun limit => ⟨target, limit⟩

/-- The filter that a text spells. Without any directive only errors are logged. -/
def ofText? (t : Text) : Option Filter :=
  match ((Text.split (· == ',') t).filter fun part => !part.isEmpty).mapM directive? with
  | some [] => some (ofLimit (some .error))
  | directives => directives

/-- The directive with the longest target that fits; of equal ones the last. -/
def decisive (name : Text) : Filter → Option Directive
  | [] => none
  | d :: rest =>
    match decisive name rest with
    | some e =>
      if d.target.isPrefixOf name && d.target.length > e.target.length then some d else some e
    | none => if d.target.isPrefixOf name then some d else none

/-- Is an event of this level logged? -/
def allows (f : Filter) (level : Level) : Bool :=
  match decisive ownTarget f with
  | some ⟨_, some limit⟩ => level.rank ≤ limit.rank
  | _ => false

end Filter
end Log
end CurlScribe
