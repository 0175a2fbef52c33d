import CurlScribe.Url.Host

/-!
# URLs

The reader of absolute URLs, as far as a request depends on it: the host, the port, the path and the
query. Some schemes are special: they always have a host, take a backslash for a slash, and look
into their hosts.
-/

namespace CurlScribe

/-- An absolute URL without its user information and fragment. The port is absent where it is that
of the scheme. -/
structure Url where
  scheme : Text
  host : Option Url.Host
  port : Option Nat
  path : Text
  query : Option Text
deriving DecidableEq, Repr

namespace Url

/-! ## Schemes -/

/-- How a scheme reads what follows it. -/
inductive SchemeKind where
  | file
  /-- A scheme of the web. -/
  | web
  | other
deriving DecidableEq, Repr

def SchemeKind.ofScheme (scheme : Text) : SchemeKind :=
  if scheme == "file".toList then file
  else if ["http", "https", "ws", "wss", "ftp"].any fun s => scheme == s.toList then web
  else other

def SchemeKind.isSpecial : SchemeKind → Bool
  | file => true
  | web => true
  | other => false

/-- The port that a scheme uses unless a URL names one. -/
def defaultPort? (scheme : Text) : Option Nat :=
  if scheme == "http".toList || scheme == "ws".toList then some 80
  else if scheme == "https".toList || scheme == "wss".toList then some 443
  else if scheme == "ftp".toList then some 21
  else none

/-- A character that may continue a scheme. -/
def isSchemeChar (c : Char) : Bool := c.isAlphanum || c == '+' || c == '-' || c == '.'

/-- The scheme of a text in lower case, and the text after its colon. -/
def scheme? (t : Text) : Option (Text × Text) :=
  match t with
  | [] => none
  | c :: _ =>
    if c.isAlpha then
      match t.dropWhile isSchemeChar with
      | ':' :: rest => some (Text.lower (t.takeWhile isSchemeChar), rest)
      | _ => none
    else none

/-! ## Delimiters -/

/-- The characters that separate the segments of a path. -/
def isSlash (kind : SchemeKind) (c : Char) : Bool := c == '/' || (kind.isSpecial && c == '\\')

/-- The characters that end the authority. -/
def endsAuthority (kind : SchemeKind) (c : Char) : Bool := isSlash kind c || c == '?' || c == '#'

/-- The text before the first character that satisfies `p`, and the text from it on. -/
def cutBefore (p : Char → Bool) (t : Text) : Text × Text :=
  (t.takeWhile fun c => !p c, t.dropWhile fun c => !p c)

/-! ## The end of a URL -/

/-- The path text, and the query text if there is one; a fragment is dropped. -/
def splitTail (t : Text) : Text × Option Text :=
  let (shown, _) := cutBefore (· == '#') t
  match cutBefore (· == '?') shown with
  | (path, []) => (path, none)
  | (path, _ :: query) => (path, some query)

/-- The query as it is sent. -/
def queryText (kind : SchemeKind) (query : Option Text) : Option Text :=
  query.map (Percent.encode (keptInQuery kind.isSpecial))

/-- The path as it is sent, read from the text between the authority and the query. In special
schemes it is never empty. -/
def pathText (kind : SchemeKind) (t : Text) : Text :=
  match t with
  | [] => if kind.isSpecial then ['/'] else []
  | c :: rest =>
    '/' :: (Segments.ofText false (isSlash kind) (if isSlash kind c then rest else c :: rest)).text

/-! ## The authority -/

/-- What follows the user information at the start of an authority, and whether there is any. User
information ends at the last `@` before the end of the authority. -/
def afterUserinfo (kind : SchemeKind) (t : Text) : Except Fault (Bool × Text) :=
  let (authority, tail) := cutBefore (endsAuthority kind) t
  match Text.splitLast (· == '@') authority with
  | none => .ok (false, t)
  | some ([], host) =>
    if host.isEmpty && !tail.isEmpty then .error .emptyHost else .ok (false, host ++ tail)
  | some (userinfo, host) => .ok (userinfo != [':'], host ++ tail)

/-- The host text at the start of an authority and the text after it. A colon between brackets does
not end the host. -/
def hostText (kind : SchemeKind) (inBrackets : Bool) : Text → Text × Text
  | [] => ([], [])
  | c :: rest =>
    if endsAuthority kind c || (c == ':' && !inBrackets) then ([], c :: rest)
    else
      let (host, after) := hostText kind (c == '[' || (inBrackets && c != ']')) rest
      (c :: host, after)

/-- The number of a port, if it is one. -/
def portNumber? (digits : Text) : Option Nat :=
  let n := digits.foldl (fun n c => n * 10 + (c.toNat - '0'.toNat)) 0
  if digits.all Char.isDigit && n < 65536 then some n else none

/-- The port after a host, unless it is that of the scheme, and the text after it. -/
def readPort (scheme : Text) (t : Text) : Except Fault (Option Nat × Text) :=
  match t with
  | ':' :: rest =>
    let (digits, after) := cutBefore (fun c => c == '/' || c == '\\' || c == '?' || c == '#') rest
    match portNumber? digits with
    | none => .error .invalidPort
    | some n =>
      .ok (if digits.isEmpty || defaultPort? scheme == some n then none else some n, after)
  | _ => .ok (none, t)

/-- The host that a host text names; only schemes that are not special may leave it out. -/
def readHost (kind : SchemeKind) (t after : Text) : Except Fault (Option Host) :=
  match kind with
  | .other =>
    if t.isEmpty then
      if after.head? == some ':' then .error .emptyHost else .ok none
    else (Host.ofOpaque t).map some
  | _ => if t.isEmpty then .error .emptyHost else (Host.ofText t).map some

/-- A URL whose authority begins at `t`. -/
def ofAuthority (kind : SchemeKind) (scheme t : Text) : Except Fault Url := do
  let (hasUserinfo, rest) ← afterUserinfo kind t
  let (name, rest) := hostText kind false rest
  let host ← readHost kind name rest
  let (port, rest) ← readPort scheme rest
  if host.isNone && hasUserinfo then throw .emptyHost
  let (path, query) := splitTail rest
  return ⟨scheme, host, port, pathText kind path, queryText kind query⟩

/-! ## Files -/

/-- The host that the authority of a file names: none if it is this machine. -/
def fileHost (t : Text) : Except Fault (Option Host) :=
  if t.isEmpty then .ok none
  else match Host.ofText t with
    | .error e => .error e
    | .ok host => .ok (if host = .domain "localhost".toList then none else some host)

/-- A file whose path begins at `t`, on the given host. A path with a drive letter is on this
machine. Slashes at the start of the path count as one. -/
def fileOn (host : Option Host) (t : Text) : Url :=
  let (path, query) := splitTail t
  let segments := Segments.ofText true (isSlash .file) path
  ⟨"file".toList, if segments.onDrive then none else host, none,
    '/' :: segments.text.dropWhile (· == '/'), queryText .file (query.map withoutBreaks)⟩

/-- What follows the slash that a text begins with. -/
def afterSlash? (t : Text) : Option Text :=
  match t.dropWhile isBreak with
  | [] => none
  | c :: rest => if isSlash .file c then some rest else none

/-- A file, given by what follows its two slashes. Without a host the slash before the path begins
an empty segment, so that no drive letter comes first. -/
def ofFileAuthority (t : Text) : Except Fault Url :=
  let (name, after) := cutBefore (endsAuthority .file) t
  if isDriveLetter (withoutBreaks name) then .ok (fileOn none t)
  else match fileHost (withoutBreaks name) with
    | .error e => .error e
    | .ok none => .ok (fileOn none after)
    | .ok (some host) => .ok (fileOn (some host) ((afterSlash? after).getD after))

/-- A file, given by what follows the scheme, which may still contain breaks. -/
def ofFile (t : Text) : Except Fault Url :=
  match afterSlash? t with
  | none => .ok (fileOn none t)
  | some path =>
    match afterSlash? path with
    | none => .ok (fileOn none path)
    | some authority => ofFileAuthority authority

/-! ## Whole URLs -/

/-- The text without what a URL may not begin or end with. -/
def trimmed (t : Text) : Text := Text.trimWhere (fun c => c.toNat ≤ 0x20) t

/-- A URL of another scheme without an authority. Its path has segments if it begins with a
slash. -/
def ofPathOnly (scheme t : Text) : Url :=
  let (path, query) := splitTail t
  match path with
  | '/' :: rest =>
    ⟨scheme, none, none, '/' :: (Segments.ofText false (isSlash .other) rest).text,
      queryText .other query⟩
  | path => ⟨scheme, none, none, Percent.encode keptOpaque path, queryText .other query⟩

/-- The absolute URL that a text spells. Breaks in it count for nothing, unless they stand behind a
drive letter. -/
def parse (t : Text) : Except Fault Url :=
  match scheme? (withoutBreaks (trimmed t)) with
  | none => .error .noScheme
  | some (scheme, rest) =>
    match SchemeKind.ofScheme scheme with
    | .file => ofFile (((trimmed t).dropWhile (· != ':')).drop 1)
    | .web => ofAuthority .web scheme (rest.dropWhile (isSlash .web))
    | .other =>
      match rest with
      | '/' :: '/' :: authority => ofAuthority .other scheme authority
      | rest => .ok (ofPathOnly scheme rest)

end Url
end CurlScribe
