import CurlScribe.Encoding.Utf8
import CurlScribe.Error
import CurlScribe.Files.Path

/-!
# Trees of files

Files and directories as a value: the rules by which a path leads to a place, and reading, writing
and making directories there. A path is followed name by name, and each name but the last has to be
that of a directory.
-/

namespace CurlScribe
namespace Files

/-- A place in a tree: the names that lead there from the root. -/
abbrev Place := List Text

/-- What stands at a place. -/
inductive Entry where
  | file (content : Bytes)
  | directory
deriving DecidableEq, Repr

/-- The entries of a tree below its root, which is a directory. -/
structure Tree where
  entries : List (Place × Entry)
deriving DecidableEq, Repr

namespace Tree

/-- A tree with nothing in it. -/
def empty : Tree := ⟨[]⟩

/-- What stands at a place. -/
def get? (t : Tree) (place : Place) : Option Entry :=
  if place.isEmpty then some .directory
  else (t.entries.find? fun entry => entry.1 == place).map Prod.snd

/-- The tree with another entry at a place. -/
def set (t : Tree) (place : Place) (entry : Entry) : Tree :=
  ⟨(place, entry) :: t.entries.filter fun other => other.1 != place⟩

/-- The tree with directories at all places from one along the names, as far as nothing stands
there. -/
def withDirectories (t : Tree) (place : Place) : List Text → Tree
  | [] => t
  | name :: rest =>
    let next := place ++ [name]
    let grown := match t.get? next with
      | none => t.set next .directory
      | some _ => t
    grown.withDirectories next rest

/-- The tree with a file at a place and the directories that lead there. -/
def withFile (t : Tree) (place : Place) (content : Bytes) : Tree :=
  (t.withDirectories [] place.dropLast).set place (.file content)

/-! ## Following paths -/

/-- The place that one name leads to. -/
def move (place : Place) (name : Text) : Place :=
  if name == ['.'] then place
  else if name == ['.', '.'] then place.dropLast
  else place ++ [name]

/-- Why no step can be taken from a place, if it cannot. -/
def obstacle? (t : Tree) (place : Place) (name : Text) : Option FileFault :=
  match t.get? place with
  | none => some .notFound
  | some (.file _) => some .notDirectory
  | some .directory => if Text.byteSize name > 255 then some .nameTooLong else none

/-- The place that names lead to from another. -/
def follow (t : Tree) (place : Place) : List Text → Except FileFault Place
  | [] => .ok place
  | name :: rest =>
    match t.obstacle? place name with
    | some fault => .error fault
    | none => t.follow (move place name) rest

/-- Where a path begins, seen from the directory `current`. -/
def origin (current : Place) (path : Text) : Place := if Path.isAbsolute path then [] else current

/-- Paths have fewer bytes than this. -/
def pathLimit : Nat := 4096

/-- Why a text is no path, if it is none. -/
def pathFault? (path : Text) : Option FileFault :=
  if path.isEmpty then some .notFound
  else if path.contains '\x00' then some .nulInPath
  else if pathLimit ≤ Text.byteSize path then some .nameTooLong
  else none

/-- The place that all names but the last lead to, which must be that of a directory, and the last
name if there is one. -/
def followParent (t : Tree) (place : Place) (names : List Text) :
    Except FileFault (Place × List Text) :=
  match t.follow place names.dropLast with
  | .error fault => .error fault
  | .ok parent =>
    match t.obstacle? parent ['.'] with
    | some fault => .error fault
    | none => .ok (parent, names.drop (names.length - 1))

/-- Does the path end in a slash? -/
def endsInSlash (path : Text) : Bool := path.getLast? == some '/'

/-! ## Reading and writing -/

/-- The content of the file that a path leads to. A slash at the end asks for a directory. -/
def read (t : Tree) (current : Place) (path : Text) : Except FileFault Bytes :=
  match pathFault? path with
  | some fault => .error fault
  | none =>
    -- one more step, which only a directory allows
    let last := if endsInSlash path then [['.']] else []
    match t.follow (origin current path) (Path.names path ++ last) with
    | .error fault => .error fault
    | .ok place =>
      match t.get? place with
      | none => .error .notFound
      | some .directory => .error .isDirectory
      | some (.file content) => .ok content

/-- The tree with a file, new or not, where a path leads to. A slash at the end is refused before
the last name is looked at. -/
def write (t : Tree) (current : Place) (path : Text) (content : Bytes) : Except FileFault Tree :=
  match pathFault? path with
  | some fault => .error fault
  | none =>
    match t.followParent (origin current path) (Path.names path) with
    | .error fault => .error fault
    | .ok (parent, last) =>
      if endsInSlash path then .error .isDirectory
      else match t.follow parent last with
        | .error fault => .error fault
        | .ok place =>
          if t.get? place = some .directory then .error .isDirectory
          else .ok (t.set place (.file content))

/-! ## Making directories -/

/-- The tree with one more directory, where names lead to from a place. -/
def makeAt (t : Tree) (place : Place) (names : List Text) : Except FileFault Tree :=
  match t.followParent place names with
  | .error fault => .error fault
  | .ok (parent, last) =>
    match t.follow parent last with
    | .error fault => .error fault
    | .ok place =>
      match t.get? place with
      | some _ => .error .exists
      | none => .ok (t.set place .directory)

/-- The tree with one more directory, or unchanged if it is there. -/
def ensureAt (t : Tree) (place : Place) (names : List Text) : Except FileFault Tree :=
  match t.makeAt place names, t.follow place names with
  | .error .exists, .ok found =>
    if t.get? found = some .directory then .ok t else .error .exists
  | result, _ => result

/-- The names without single dots at the end. -/
def dropDots (names : List Text) : List Text := (names.reverse.dropWhile (· == ['.'])).reverse

theorem length_dropDots_le (names : List Text) : (dropDots names).length ≤ names.length := by
  have h := (List.dropWhile_sublist (l := names.reverse) fun name => name == ['.']).length_le
  simpa [dropDots] using h

/-- The names that lead to the directory around the one that names lead to. -/
def outerNames (names : List Text) : List Text := dropDots (dropDots names).dropLast

theorem length_outerNames_lt {names : List Text} (h : names ≠ []) :
    (outerNames names).length < names.length := by
  have h₁ := length_dropDots_le (dropDots names).dropLast
  have h₂ := length_dropDots_le names
  have h₃ := List.length_pos_iff.2 h
  rw [List.length_dropLast] at h₁
  unfold outerNames
  omega

/-- The tree with the directory that names lead to from a place. Where something on the way is
missing, the directory around it is made first. -/
def makeAll (t : Tree) (place : Place) (names : List Text) : Except FileFault Tree :=
  if _h : names = [] then .ok t
  else match t.ensureAt place names with
    | .error .notFound =>
      match t.makeAll place (outerNames names) with
      | .error fault => .error fault
      | .ok t => t.ensureAt place names
    | result => result
termination_by names.length
decreasing_by exact length_outerNames_lt _h

/-- The tree with the directory that a path leads to, and those around it. -/
def makeDirectories (t : Tree) (current : Place) (path : Text) : Except FileFault Tree :=
  if path.isEmpty then .ok t
  else match pathFault? path with
    | some fault => .error fault
    | none => t.makeAll (origin current path) (Path.names path)

end Tree
end Files
end CurlScribe
