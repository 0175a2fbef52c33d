import CurlScribe.Encoding.Percent

/-!
# Paths of URLs

A path is cut into segments at slashes. A segment of one dot stands for nothing and one of two dots
takes back the segment before it, unless that is a drive letter; a dot may be written as `%2e`. The
first segment of a file may be a drive letter, which is then written with a colon.
-/

namespace CurlScribe
namespace Url

/-! ## Characters -/

/-- A character that is left out of a URL wherever it stands. -/
def isBreak (c : Char) : Bool := c == '\t' || c == '\n' || c == '\r'

def withoutBreaks (t : Text) : Text := t.filter fun c => !isBreak c

/-- A character that stands for itself in a path. -/
def keptInPath (c : Char) : Bool :=
  !Text.isAsciiControl c && !" \"#<>?\x60\x7b\x7d".toList.contains c

/-- A character that stands for itself in a query; a quote does not in the schemes of the web. -/
def keptInQuery (isSpecial : Bool) (c : Char) : Bool :=
  !Text.isAsciiControl c && !" \"#<>".toList.contains c && !(isSpecial && c == '\'')

/-- A character that stands for itself in a path without segments, or in a host that is not looked
into. -/
def keptOpaque (c : Char) : Bool := !Text.isAsciiControl c

/-! ## Dots and drive letters -/

/-- Is the segment one dot? -/
def isSingleDot (t : Text) : Bool := ["." , "%2e"].any fun s => Text.lower t == s.toList

/-- Is the segment two dots? -/
def isDoubleDot (t : Text) : Bool :=
  ["..", "%2e%2e", "%2e.", ".%2e"].any fun s => Text.lower t == s.toList

/-- A letter and a colon or bar. -/
def isDriveLetter : Text → Bool
  | [c, d] => c.isAlpha && (d == ':' || d == '|')
  | _ => false

/-- Does a drive letter begin the segment and end at its end or at a backslash? -/
def beginsWithDrive (t : Text) : Bool := isDriveLetter (t.takeWhile (· != '\\'))

/-- The drive letter that a segment begins with and the rest of the segment, if the drive letter has
its colon and a break behind that. -/
def brokenDrive? (t : Text) : Option (Text × Text) :=
  match t.dropWhile isBreak with
  | [] => none
  | c :: rest =>
    match rest.dropWhile isBreak with
    | ':' :: b :: rest =>
      let rest := withoutBreaks rest
      if c.isAlpha && isBreak b && !rest.isEmpty then some ([c, ':'], rest) else none
    | _ => none

/-! ## Segments -/

/-- The segments of a path as far as it has been read, the last first, and whether the first segment
of a file has been a drive letter. -/
structure Segments where
  reversed : List Text
  onDrive : Bool
deriving DecidableEq, Repr

namespace Segments

/-- No segments. -/
def empty : Segments := ⟨[], false⟩

/-- One more segment, which is kept as it is but for its encoding. -/
def push (s : Segments) (t : Text) : Segments :=
  { s with reversed := Percent.encode keptInPath t :: s.reversed }

/-- The segments without the last; a drive letter stays. -/
def takeBack (s : Segments) : Segments :=
  match s.reversed with
  | [] => s
  | last :: rest => if beginsWithDrive last then s else { s with reversed := rest }

/-- The first segment of a file. A drive letter gets its colon; what stands behind a drive letter
and a break is a segment of its own. -/
def pushFirst (s : Segments) (t : Text) : Segments :=
  match brokenDrive? t with
  | some (drive, rest) => (s.push drive).push rest
  | none =>
    let t := withoutBreaks t
    if isDriveLetter t then { s.push (t.take 1 ++ [':']) with onDrive := true } else s.push t

/-- One more segment that is no dots. -/
def add (isFile : Bool) (s : Segments) (t : Text) : Segments :=
  if isFile && s.reversed.isEmpty then s.pushFirst t else s.push (withoutBreaks t)

/-- The segments with more of them applied in order. Dots at the end leave an empty segment. -/
def addAll (isFile : Bool) (s : Segments) : List Text → Segments
  | [] => s
  | [last] =>
    if isDoubleDot (withoutBreaks last) then s.takeBack.push []
    else if isSingleDot (withoutBreaks last) then s.push []
    else s.add isFile last
  | t :: rest =>
    if isDoubleDot (withoutBreaks t) then s.takeBack.addAll isFile rest
    else if isSingleDot (withoutBreaks t) then s.addAll isFile rest
    else (s.add isFile t).addAll isFile rest

/-- The segments of a path with the given slashes, without the slash at its start. -/
def ofText (isFile : Bool) (isSlash : Char → Bool) (t : Text) : Segments :=
  empty.addAll isFile (Text.split isSlash t)

/-- The segments with slashes between them. -/
def text (s : Segments) : Text := Text.join ['/'] s.reversed.reverse

end Segments
end Url
end CurlScribe
