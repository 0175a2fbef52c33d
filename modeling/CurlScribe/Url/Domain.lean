import CurlScribe.Unicode.Direction
import CurlScribe.Unicode.DomainMapping
import CurlScribe.Unicode.Joining
import CurlScribe.Unicode.Mark
import CurlScribe.Url.Punycode

/-!
# Domain names

The ASCII form of a domain name in any script. Its characters are mapped and composed; each label
between its dots is then checked and, where it is not ASCII, coded.
-/

namespace CurlScribe
namespace Domain

open Unicode (Direction JoiningType)

/-! ## Joiners -/

/-- Marks between two letters that join or do not. -/
def nonJoiner : Char := Char.ofNat 0x200C

def joiner : Char := Char.ofNat 0x200D

/-- Is the first of these characters that is not transparent one of the given joining types? -/
def meets (types : List JoiningType) : Text → Bool
  | [] => false
  | c :: rest =>
    match Unicode.joiningType c with
    | .transparent => meets types rest
    | type => types.contains type

/-- Are all joiners in place? `before` holds the characters before `t`, the nearest first. A joiner
follows a virama; one that keeps letters apart may also stand between letters that would join. -/
def joinersFit (before : Text) : Text → Bool
  | [] => true
  | c :: rest =>
    let afterVirama := match before with
      | [] => false
      | last :: _ => Unicode.isVirama last
    let fits :=
      if c == nonJoiner then
        afterVirama || (meets [.left, .dual] before && meets [.right, .dual] rest)
      else if c == joiner then afterVirama
      else true
    fits && joinersFit (c :: before) rest

/-! ## Directions -/

/-- Does the character make a domain one that is written in both directions? -/
def isRightToLeft (c : Char) : Bool :=
  match Unicode.direction c with
  | .rightToLeft => true
  | .arabicLetter => true
  | .arabicNumber => true
  | _ => false

/-- The classes that may stand in a label that begins from the left. -/
def fromLeft : List Direction :=
  [.leftToRight, .europeanNumber, .europeanSeparator, .commonSeparator, .europeanTerminator,
    .otherNeutral, .boundaryNeutral, .nonspacingMark]

/-- The classes that may stand in a label that begins from the right. -/
def fromRight : List Direction :=
  [.rightToLeft, .arabicLetter, .arabicNumber, .europeanNumber, .europeanSeparator,
    .commonSeparator, .europeanTerminator, .otherNeutral, .boundaryNeutral, .nonspacingMark]

/-- The last class of a label, apart from marks. -/
def lastDirection? (classes : List Direction) : Option Direction :=
  (classes.reverse.dropWhile (· == .nonspacingMark)).head?

/-- May a label with characters of these classes stand in a domain that is written in both
directions? -/
def directionsFit (classes : List Direction) : Bool :=
  let endsIn (allowed : List Direction) : Bool :=
    match lastDirection? classes with
    | none => false
    | some d => allowed.contains d
  match classes with
  | [] => true
  | .leftToRight :: _ =>
    classes.all fromLeft.contains && endsIn [.leftToRight, .europeanNumber]
  | first :: _ =>
    (first == .rightToLeft || first == .arabicLetter)
      && classes.all fromRight.contains
      && endsIn [.rightToLeft, .arabicLetter, .europeanNumber, .arabicNumber]
      -- digits of one kind only
      && !(classes.contains .europeanNumber && classes.contains .arabicNumber)

/-! ## Labels -/

/-- The lead of a coded label. -/
def codedLead : Text := "xn--".toList

/-- Labels are not longer than this. -/
def labelLimit : Nat := 1000

/-- The coded forms of labels are not longer than this, without their lead. -/
def codedLimit : Nat := 2000

/-- The mapped and composed form of a text, if no character of it is refused. -/
def normal? (t : Text) : Option Text := (t.mapM Unicode.mapForDomain).map fun ts =>
  Unicode.composed ts.flatten

/-- May the label stand in a domain, as far as it alone decides? -/
def isLabel (label : Text) : Bool :=
  label.all Text.isAscii
    || (label.length ≤ labelLimit && !(label.head?.any Unicode.isMark) && joinersFit [] label)

/-- The label that is meant by one that may be coded. A coded one must be in normal form and not all
ASCII. -/
def meant? (label : Text) : Option Text :=
  match Text.stripPrefix? codedLead label with
  | none => if isLabel label then some label else none
  | some coded =>
    if codedLimit < coded.length then none
    else match Punycode.decode? coded with
    | none => none
    | some decoded =>
      if !decoded.all Text.isAscii && normal? decoded == some decoded && !decoded.contains '.'
          && isLabel decoded then some decoded
      else none

/-- The form of a label in ASCII. -/
def asciiLabel (label : Text) : Text :=
  if label.all Text.isAscii then label else codedLead ++ Punycode.encode label

/-! ## Domains -/

/-- A character that no domain contains. -/
def isForbidden (c : Char) : Bool :=
  c.toNat ≤ 0x20 || c.toNat == 0x7F || "%#/:<>?@[\\]^|".toList.contains c

/-- The labels of a domain. -/
def labels? (t : Text) : Option (List Text) :=
  match normal? t with
  | none => none
  | some t => (Text.split (· == '.') t).mapM meant?

/-- Do labels stand together? -/
def labelsFit (labels : List Text) : Bool :=
  !labels.any (fun l => l.any isForbidden)
    && (!labels.any (fun l => l.any isRightToLeft)
      || labels.all fun l => directionsFit (l.map Unicode.direction))

/-- The ASCII form of a domain. -/
def toAscii? (t : Text) : Option Text :=
  match labels? t with
  | none => none
  | some labels =>
    if labelsFit labels then some (Text.join ['.'] (labels.map asciiLabel)) else none

end Domain
end CurlScribe
