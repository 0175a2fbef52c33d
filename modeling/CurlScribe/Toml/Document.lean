import CurlScribe.Toml.Lexeme
import CurlScribe.Toml.Node
import CurlScribe.Toml.Scalar

/-!
# Reading TOML documents

A document is a row of headers and of keys with values.
-/

namespace CurlScribe
namespace Toml

/-! ## Values -/

/-- Arrays and tables between braces are nested at most this deep. -/
def nestingLimit : Nat := 80

/-- The key of a field between braces and the text from its value on. Line ends may stand around the
equals sign. -/
def inlineKey? (t : Text) : Option (List Text × Text) :=
  match key? t with
  | none => none
  | some (keys, after) =>
    match skipLines false after with
    | some ('=' :: rest) => (skipLines false rest).map fun rest => (keys, rest)
    | _ => none

mutual

/-- The value that a text begins with. In it `levels` arrays and tables may still be nested; `fuel`
bounds the values and commas on the way to any of its ends. -/
def value? (levels : Nat) : Nat → Text → Option (Node × Text)
  | 0, _ => none
  | fuel + 1, t =>
    match t with
    | '[' :: rest =>
      if levels = 0 then none
      else (items? (levels - 1) fuel rest).map fun (items, after) => (.array items, after)
    | '\x7b' :: rest =>
      if levels = 0 then none
      else (fields? (levels - 1) fuel [] rest).map fun (fields, after) =>
        (.table .inlined fields, after)
    | t =>
      match string? t with
      | some (s, after) => some (.string s, after)
      | none => (scalar? t).map fun after => (.scalar, after)

/-- The items of an array after its bracket or a comma, and the text after the array. -/
def items? (levels : Nat) : Nat → Text → Option (List Node × Text)
  | 0, _ => none
  | fuel + 1, t =>
    match skipLines false t with
    | none => none
    | some (']' :: after) => some ([], after)
    | some t =>
      match value? levels fuel t with
      | none => none
      | some (item, rest) =>
        match skipLines false rest with
        | some (',' :: more) =>
          (items? levels fuel more).map fun (items, after) => (item :: items, after)
        | some (']' :: after) => some ([item], after)
        | _ => none

/-- The fields of a table between braces, after its brace or a comma, added to `fields`. -/
def fields? (levels : Nat) : Nat → Fields → Text → Option (Fields × Text)
  | 0, _, _ => none
  | fuel + 1, fields, t =>
    match skipLines false t with
    | none => none
    | some ('\x7d' :: after) => some (fields, after)
    | some t =>
      match inlineKey? t with
      | none => none
      | some (keys, rest) =>
        match value? levels fuel rest with
        | none => none
        | some (value, rest) =>
          match Fields.define value keys fields, skipLines false rest with
          | some fields, some (',' :: more) => fields? levels fuel fields more
          | some fields, some ('\x7d' :: after) => some (fields, after)
          | _, _ => none

end

/-! ## Statements -/

/-- A statement of a document. -/
inductive Statement where
  | assign (keys : List Text) (value : Node)
  | header (keys : List Text)
  | arrayHeader (keys : List Text)
deriving Repr

/-- The statement that a text begins with, and the text after its line. -/
def statement? (t : Text) : Option (Statement × Text) :=
  match t with
  | '[' :: '[' :: rest =>
    match key? rest with
    | some (keys, ']' :: ']' :: after) => (endLine false after).map fun t => (.arrayHeader keys, t)
    | _ => none
  | '[' :: rest =>
    match key? rest with
    | some (keys, ']' :: after) => (endLine false after).map fun t => (.header keys, t)
    | _ => none
  | t =>
    match key? t with
    | some (keys, '=' :: rest) =>
      match value? nestingLimit (t.length + 1) (skipBlank rest) with
      | some (value, after) => (endLine false after).map fun t => (.assign keys value, t)
      | none => none
    | _ => none

/-- The statements of a document, of which there are at most `fuel`. -/
def statements? : Nat → Text → Option (List Statement)
  | 0, _ => none
  | fuel + 1, t =>
    match skipLines false t with
    | none => none
    | some [] => some []
    | some t =>
      match statement? t with
      | none => none
      | some (s, rest) => (statements? fuel rest).map (s :: ·)

/-! ## Documents -/

/-- The fields of the root once all statements have been applied to `root`, where `current` is the
key of the table that the last header has opened. -/
def apply (root : Fields) (current : List Text) : List Statement → Option Fields
  | [] => some root
  | .assign keys value :: rest =>
    match Fields.change (Fields.define value keys) current root with
    | some root => apply root current rest
    | none => none
  | .header keys :: rest =>
    match Fields.openTable keys root with
    | some root => apply root keys rest
    | none => none
  | .arrayHeader keys :: rest =>
    match Fields.addTable keys root with
    | some root => apply root keys rest
    | none => none

/-- The text without a byte order mark at its start. -/
def dropByteOrderMark : Text → Text
  | [] => []
  | c :: rest => if c.toNat = 0xFEFF then rest else c :: rest

/-- The fields of the document that a text spells. -/
def parse? (t : Text) : Option Fields :=
  match statements? (t.length + 1) (dropByteOrderMark t) with
  | some statements => apply [] [] statements
  | none => none

end Toml
end CurlScribe
