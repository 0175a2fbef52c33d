import CurlScribe.Text.Basic

/-!
# TOML documents

The tree that a document describes. Tables remember how they came about, because that decides what
may be added to them later: a table may be given by one header only, and a table written in one
place, inline or by dotted keys, is closed to headers.
-/

namespace CurlScribe
namespace Toml

/-- How a table came about. -/
inductive Origin where
  /-- By the header of a table inside it. -/
  | parent
  /-- By its own header. -/
  | header
  /-- By a dotted key. -/
  | dotted
  /-- Between braces. -/
  | inlined
deriving DecidableEq, Repr

/-- A value. -/
inductive Node where
  | string (t : Text)
  /-- A number, a date or a truth value, whichever it is. -/
  | scalar
  | array (items : List Node)
  | table (origin : Origin) (fields : List (Text × Node))
  /-- Tables that are given one by one, the last first. -/
  | tables (items : List (List (Text × Node)))
deriving Repr

/-- The fields of a table in order. -/
abbrev Fields := List (Text × Node)

namespace Fields

/-- The value of a key. -/
def get? (fields : Fields) (key : Text) : Option Node :=
  (fields.find? fun (k, _) => k == key).map Prod.snd

/-- The fields with another value for a key. -/
def set (fields : Fields) (key : Text) (value : Node) : Fields :=
  fields.map fun (k, v) => if k == key then (k, value) else (k, v)

/-- A value under a dotted key that is not in use yet. Tables on the way are made, or must have
been made by dotted keys. -/
def define (value : Node) : List Text → Fields → Option Fields
  | [], _ => none
  | [key], fields =>
    match get? fields key with
    | none => some (fields ++ [(key, value)])
    | some _ => none
  | key :: keys, fields =>
    match get? fields key with
    | none => (define value keys []).map fun inner => fields ++ [(key, .table .dotted inner)]
    | some (.table .dotted inner) =>
      (define value keys inner).map fun changed => set fields key (.table .dotted changed)
    | _ => none

/-- The table that a header opens: a new one, or one that only the headers of tables inside it have
made. -/
def openTable : List Text → Fields → Option Fields
  | [], _ => none
  | [key], fields =>
    match get? fields key with
    | none => some (fields ++ [(key, .table .header [])])
    | some (.table .parent inner) => some (set fields key (.table .header inner))
    | _ => none
  | key :: keys, fields =>
    match get? fields key with
    | none => (openTable keys []).map fun inner => fields ++ [(key, .table .parent inner)]
    | some (.table .inlined _) => none
    | some (.table origin inner) =>
      (openTable keys inner).map fun changed => set fields key (.table origin changed)
    | some (.tables (last :: items)) =>
      (openTable keys last).map fun changed => set fields key (.tables (changed :: items))
    | _ => none

/-- The table that the header of an array of tables adds. -/
def addTable : List Text → Fields → Option Fields
  | [], _ => none
  | [key], fields =>
    match get? fields key with
    | none => some (fields ++ [(key, .tables [[]])])
    | some (.tables items) => some (set fields key (.tables ([] :: items)))
    | _ => none
  | key :: keys, fields =>
    match get? fields key with
    | none => (addTable keys []).map fun inner => fields ++ [(key, .table .parent inner)]
    | some (.table .inlined _) => none
    | some (.table origin inner) =>
      (addTable keys inner).map fun changed => set fields key (.table origin changed)
    | some (.tables (last :: items)) =>
      (addTable keys last).map fun changed => set fields key (.tables (changed :: items))
    | _ => none

/-- Change the table that the last header with these keys has opened. -/
def change (f : Fields → Option Fields) : List Text → Fields → Option Fields
  | [], fields => f fields
  | key :: keys, fields =>
    match get? fields key with
    | some (.table origin inner) =>
      (change f keys inner).map fun changed => set fields key (.table origin changed)
    | some (.tables (last :: items)) =>
      (change f keys last).map fun changed => set fields key (.tables (changed :: items))
    | _ => none

end Fields
end Toml
end CurlScribe
