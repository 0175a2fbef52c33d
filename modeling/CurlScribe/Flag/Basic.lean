import CurlScribe.Text.Basic

/-!
# Flags

What an option of a command means, whichever of its spellings the command uses.
-/

namespace CurlScribe

/-- How the value of a data option is read. -/
inductive DataKind where
  /-- Text, or `@path` for the contents of a file. -/
  | ascii
  /-- Text without special characters. -/
  | raw
  /-- As `ascii`, line breaks kept. -/
  | binary
  /-- Text that is encoded before it is sent. -/
  | urlEncode
  /-- As `ascii`, and the request speaks JSON. -/
  | json
deriving DecidableEq, Repr, Inhabited

/-- The meaning of an option. -/
inductive Flag where
  /-- The URL, positional or after `--url`. -/
  | url
  | method
  | header
  | data (kind : DataKind)
  | form
  | formString
  | user
  | userAgent
  | referer
  | cookie
  | uploadFile
  | get
  | head
  /-- Without effect on the request; the option has this long name. -/
  | ignored (long : Text)
deriving DecidableEq, Repr, Inhabited

/-- An option that commands may use: its names, its meaning, and whether it takes a value. -/
structure FlagSpec where
  long : Text
  short : Option Char
  flag : Flag
  takesValue : Bool
deriving DecidableEq, Repr

end CurlScribe
