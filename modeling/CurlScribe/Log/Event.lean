import CurlScribe.Text.CharClass

/-!
# Log lines

What the program reports besides its output: a level, a message and named values. A line is plain
text, or one JSON object.
-/

namespace CurlScribe
namespace Log

/-! ## Events -/

/-- How important an event is. -/
inductive Level where
  | error
  | warn
  | info
  | debug
  | trace
deriving DecidableEq, Repr, Inhabited

namespace Level

/-- Place in the order from the most important level on. -/
def rank : Level → Nat
  | error => 1
  | warn => 2
  | info => 3
  | debug => 4
  | trace => 5

def name : Level → Text
  | error => "error".toList
  | warn => "warn".toList
  | info => "info".toList
  | debug => "debug".toList
  | trace => "trace".toList

def all : List Level := [error, warn, info, debug, trace]

end Level

/-- The value of a field. -/
inductive Value where
  | text (t : Text)
  | number (n : Nat)
deriving DecidableEq, Repr, Inhabited

/-- An event with its fields in order. -/
structure Event where
  level : Level
  message : Text
  fields : List (Text × Value)
deriving DecidableEq, Repr, Inhabited

/-! ## Formats -/

/-- How events are written. -/
inductive Format where
  | text
  | json
deriving DecidableEq, Repr, Inhabited

namespace Format

def name : Format → Text
  | text => "text".toList
  | json => "json".toList

/-- The format with exactly this name. -/
def ofName? (n : Text) : Option Format := [text, json].find? fun f => f.name == n

end Format

/-- A character of a message in plain text. Those that steer a terminal are escaped. -/
def shownChar (c : Char) : Text :=
  if c == '\x1b' || c == '\x07' || c == '\x08' || c == '\x0c' || c == '\x7f' then
    '\\' :: 'x' :: Text.hex 2 c.toNat
  else if 0x80 ≤ c.toNat && c.toNat ≤ 0x9F then
    ['\\', 'u', '\x7b'] ++ Text.hex 1 c.toNat ++ ['\x7d']
  else [c]

/-- A character of a JSON string. -/
def jsonChar (c : Char) : Text :=
  if c == '"' then ['\\', '"']
  else if c == '\\' then ['\\', '\\']
  else if c == '\n' then ['\\', 'n']
  else if c == '\r' then ['\\', 'r']
  else if c == '\t' then ['\\', 't']
  else if c == '\x08' then ['\\', 'b']
  else if c == '\x0c' then ['\\', 'f']
  else if c.toNat < 0x20 then '\\' :: 'u' :: Text.hex 4 c.toNat
  else [c]

/-- A JSON string. -/
def jsonString (t : Text) : Text := '"' :: (t.flatMap jsonChar ++ ['"'])

namespace Value

def shown : Value → Text
  | text t => t
  | number n => Text.ofNat n

def json : Value → Text
  | text t => jsonString t
  | number n => Text.ofNat n

end Value

namespace Event

/-- The event as plain text: the level in five columns, the message and the fields. -/
def textLine (e : Event) : Text :=
  let level := Text.upper e.level.name
  List.replicate (5 - level.length) ' ' ++ level ++ ' ' :: e.message.flatMap shownChar
    ++ e.fields.flatMap (fun (name, value) => ' ' :: name ++ '=' :: value.shown) ++ ['\n']

/-- The event as a JSON object. -/
def jsonLine (e : Event) : Text :=
  "\x7b\"level\":".toList ++ jsonString (Text.upper e.level.name) ++ ",\"fields\":\x7b".toList
    ++ "\"message\":".toList ++ jsonString e.message
    ++ e.fields.flatMap (fun (name, value) => ',' :: jsonString name ++ ':' :: value.json)
    ++ "\x7d\x7d\n".toList

/-- The line of an event. -/
def line (e : Event) : Format → Text
  | .text => e.textLine
  | .json => e.jsonLine

end Event
end Log
end CurlScribe
