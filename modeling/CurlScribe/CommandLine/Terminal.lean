import CurlScribe.Text.Basic

/-!
# Terminals

A message may repeat an argument, and an argument may contain what steers a terminal: control
characters, and sequences that an escape character begins. Only what is left without them is shown.
-/

namespace CurlScribe
namespace Terminal

/-- Where a character stands. -/
inductive Position where
  | outside
  /-- Behind an escape character; `inside` tells whether the sequence has begun to continue. -/
  | escape (inside : Bool)
  /-- In a sequence that a bracket begins and a letter ends. -/
  | control
  /-- In a string, which a bell may end. -/
  | string (endsAtBell : Bool)
deriving DecidableEq, Repr

namespace Position

/-- The position behind a character of a sequence that an escape character begins. -/
def afterEscape (inside : Bool) (c : Char) : Position :=
  if ' ' ≤ c && c ≤ '/' then escape true
  else if inside then outside
  else if c == '[' then control
  else if c == ']' then string true
  else if c == 'P' || c == 'X' || c == '^' || c == '_' then string false
  else outside

/-- The position behind a character that can be seen, and whether it is shown. -/
def passVisible (p : Position) (c : Char) : Position × Bool :=
  match p with
  | outside => (outside, true)
  | escape inside => (afterEscape inside c, false)
  | control => (if '@' ≤ c then outside else control, false)
  | string endsAtBell => (string endsAtBell, false)

/-- The position behind a control character, and whether it is shown. Blank ones break a sequence
off, unless it is a string. -/
def passControl (p : Position) (c : Char) : Position × Bool :=
  match p with
  | string endsAtBell => (if endsAtBell && c == '\x07' then outside else p, false)
  | p => if "\t\n\x0c\r".toList.contains c then (outside, true) else (p, false)

/-- The position behind a character, and whether the character is shown. -/
def pass (p : Position) (c : Char) : Position × Bool :=
  if c == '\x1b' then (escape false, false)
  else if c == '\x18' || c == '\x1a' then (outside, false)
  else if c.toNat < 0x20 || c == '\x7f' then p.passControl c
  -- in a sequence, characters beyond ASCII count for nothing
  else if 0x80 ≤ c.toNat then (p, p == outside)
  else p.passVisible c

end Position

/-- What is shown of a text that begins at a position. -/
def shownFrom (p : Position) : Text → Text
  | [] => []
  | c :: rest =>
    let (next, isShown) := p.pass c
    if isShown then c :: shownFrom next rest else shownFrom next rest

/-- What is shown of a text. -/
def shown (t : Text) : Text := shownFrom .outside t

end Terminal
end CurlScribe
