import CurlScribe.Flag.Basic

/-!
# The table of flags

All options that commands may use. Those that only change how a transfer is carried out or shown
are known, so that their values are not taken for URLs, but have no effect on the request.
-/

namespace CurlScribe
namespace FlagSpec

/-! ## Rows -/

def value (long : String) (short : Option Char) (flag : Flag) : FlagSpec :=
  ⟨long.toList, short, flag, true⟩

def switch (long : String) (short : Option Char) (flag : Flag) : FlagSpec :=
  ⟨long.toList, short, flag, false⟩

def ignoredSwitch (long : String) (short : Option Char) : FlagSpec :=
  ⟨long.toList, short, .ignored long.toList, false⟩

def ignoredValue (long : String) (short : Option Char) : FlagSpec :=
  ⟨long.toList, short, .ignored long.toList, true⟩

/-! ## The table -/

/-- Options that shape the request. -/
def effective : List FlagSpec := [
  value "url" none .url,
  value "request" (some 'X') .method,
  value "header" (some 'H') .header,
  value "data" (some 'd') (.data .ascii),
  value "data-ascii" none (.data .ascii),
  value "data-raw" none (.data .raw),
  value "data-binary" none (.data .binary),
  value "data-urlencode" none (.data .urlEncode),
  value "json" none (.data .json),
  value "form" (some 'F') .form,
  value "form-string" none .formString,
  value "user" (some 'u') .user,
  value "user-agent" (some 'A') .userAgent,
  value "referer" (some 'e') .referer,
  value "cookie" (some 'b') .cookie,
  value "upload-file" (some 'T') .uploadFile,
  switch "get" (some 'G') .get,
  switch "head" (some 'I') .head]

/-- Switches without effect on the request. -/
def ignoredSwitches : List FlagSpec := [
  ignoredSwitch "silent" (some 's'),
  ignoredSwitch "show-error" (some 'S'),
  ignoredSwitch "verbose" (some 'v'),
  ignoredSwitch "include" (some 'i'),
  ignoredSwitch "location" (some 'L'),
  ignoredSwitch "location-trusted" none,
  ignoredSwitch "insecure" (some 'k'),
  ignoredSwitch "compressed" none,
  ignoredSwitch "fail" (some 'f'),
  ignoredSwitch "fail-with-body" none,
  ignoredSwitch "globoff" (some 'g'),
  ignoredSwitch "no-buffer" (some 'N'),
  ignoredSwitch "progress-bar" (some '#'),
  ignoredSwitch "remote-name" (some 'O'),
  ignoredSwitch "remote-header-name" (some 'J'),
  ignoredSwitch "http1.0" (some '0'),
  ignoredSwitch "http1.1" none,
  ignoredSwitch "http2" none,
  ignoredSwitch "http2-prior-knowledge" none,
  ignoredSwitch "http3" none,
  ignoredSwitch "ipv4" (some '4'),
  ignoredSwitch "ipv6" (some '6'),
  ignoredSwitch "basic" none,
  ignoredSwitch "digest" none,
  ignoredSwitch "ntlm" none,
  ignoredSwitch "anyauth" none,
  ignoredSwitch "path-as-is" none,
  ignoredSwitch "raw" none,
  ignoredSwitch "tr-encoding" none,
  ignoredSwitch "keepalive" none,
  ignoredSwitch "disable" (some 'q')]

/-- Options with a value and without effect on the request. -/
def ignoredValues : List FlagSpec := [
  ignoredValue "output" (some 'o'),
  ignoredValue "max-time" (some 'm'),
  ignoredValue "connect-timeout" none,
  ignoredValue "max-redirs" none,
  ignoredValue "retry" none,
  ignoredValue "retry-delay" none,
  ignoredValue "retry-max-time" none,
  ignoredValue "proxy" (some 'x'),
  ignoredValue "proxy-user" (some 'U'),
  ignoredValue "cacert" none,
  ignoredValue "capath" none,
  ignoredValue "cert" (some 'E'),
  ignoredValue "key" none,
  ignoredValue "cookie-jar" (some 'c'),
  ignoredValue "dump-header" (some 'D'),
  ignoredValue "write-out" (some 'w'),
  ignoredValue "trace" none,
  ignoredValue "trace-ascii" none,
  ignoredValue "stderr" none,
  ignoredValue "limit-rate" none,
  ignoredValue "resolve" none,
  ignoredValue "connect-to" none,
  ignoredValue "interface" none,
  ignoredValue "keepalive-time" none,
  ignoredValue "speed-limit" (some 'Y'),
  ignoredValue "speed-time" (some 'y')]

/-- All options. -/
def table : List FlagSpec := effective ++ ignoredSwitches ++ ignoredValues

/-! ## Look-up -/

/-- The option with this long name. -/
def ofLong? (name : Text) : Option FlagSpec := table.find? fun spec => spec.long == name

/-- The option with this short name. -/
def ofShort? (c : Char) : Option FlagSpec := table.find? fun spec => spec.short == some c

/-- The option with this long name, or the switch that the name turns off, being the switch's name
after `no-`; the flag tells whether it is turned off. -/
def ofLongOrNegated? (name : Text) : Option (FlagSpec × Bool) :=
  match ofLong? name with
  | some spec => some (spec, false)
  | none =>
    match (Text.stripPrefix? "no-".toList name).bind ofLong? with
    | some spec => if spec.takesValue then none else some (spec, true)
    | none => none

end FlagSpec
end CurlScribe
