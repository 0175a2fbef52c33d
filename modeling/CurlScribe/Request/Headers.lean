import CurlScribe.Word.Basic

/-!
# Headers

The header fields of a request in the order in which the command gives them. Fields of one name
stay apart; names are compared without regard to case.
-/

namespace CurlScribe

/-- A header field. -/
structure Header where
  name : Word
  value : Word
deriving DecidableEq, Repr, Inhabited

/-- Header fields in order. -/
abbrev Headers := List Header

/-- Do two words name the same header? Literal names are compared without regard to case, names
with references as they are. -/
def Header.sameName (a b : Word) : Bool :=
  match a.literal?, b.literal? with
  | some s, some t => Text.sameIgnoringCase s t
  | _, _ => a == b

namespace Headers

/-- The values of all fields called `name`. -/
def getAll (hs : Headers) (name : Text) : List Word :=
  (hs.filter fun h => h.name.isTextIgnoringCase name).map Header.value

/-- The value of the first field called `name`. -/
def get? (hs : Headers) (name : Text) : Option Word :=
  (hs.find? fun h => h.name.isTextIgnoringCase name).map Header.value

/-- Is there a field called `name`? -/
def has (hs : Headers) (name : Text) : Bool := hs.any fun h => h.name.isTextIgnoringCase name

/-- The fields that are not called `name`. -/
def remove (hs : Headers) (name : Text) : Headers :=
  hs.filter fun h => !h.name.isTextIgnoringCase name

/-- Is there a field with the same name as `h`? -/
def hasNameOf (hs : Headers) (h : Header) : Bool := hs.any fun g => Header.sameName g.name h.name

/-- The first field whose name an earlier field has, if `earlier` are the fields before these. -/
def firstRepeated? (earlier : Headers) : Headers → Option Header
  | [] => none
  | h :: rest => if hasNameOf earlier h then some h else firstRepeated? (earlier ++ [h]) rest

/-- Do two fields have the same name? -/
def hasRepeatedNames (hs : Headers) : Bool := (firstRepeated? [] hs).isSome

end Headers
end CurlScribe
