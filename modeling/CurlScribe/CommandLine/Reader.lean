import CurlScribe.CommandLine.Args

/-!
# Reading arguments

Options may stand between files, short ones may be joined, and a value may be attached to its
option or follow it; a value that follows does not begin with a dash, unless it is a dash. A
repeated option counts as its last occurrence. A value that follows its option, and a row of files,
is looked at when the next option or file begins, so an unknown option right behind is noticed
first.
-/

namespace CurlScribe
namespace CommandLine

/-! ## What single arguments change -/

/-- Something that waits for more arguments, or to be looked at. -/
inductive Pending where
  | nothing
  /-- A row of files. -/
  | files (names : List Text)
  /-- An option, and its value once that has come. -/
  | option (o : ValueOption) (value : Option Text)
deriving DecidableEq, Repr

/-- How far arguments have been read. `commandLast` tells whether the command came after a file. -/
structure Reader where
  args : Args
  pending : Pending
  commandLast : Bool
  onlyFiles : Bool
deriving DecidableEq, Repr

namespace Reader

/-- The arguments with a value for an option. -/
def setValue (r : Reader) (o : ValueOption) (value : Text) : Except Stop Reader :=
  let invalid : Except Stop Reader := .error (.invalidValue (.option (.value o)) value)
  match o with
  | .command =>
    .ok { r with args.command := some value, commandLast := !r.args.files.isEmpty }
  | .language =>
    match Style.ofName? value with
    | some style => .ok { r with args.style := some style }
    | none => invalid
  | .output => if value.isEmpty then invalid else .ok { r with args.output := some value }
  | .logFormat =>
    match Log.Format.ofName? value with
    | some format => .ok { r with args.logFormat := some format }
    | none => invalid

/-- Look at what is pending. -/
def settle (r : Reader) : Except Stop Reader :=
  match r.pending with
  | .nothing => .ok r
  | .files names =>
    if names.any List.isEmpty then .error (.invalidValue .files [])
    else .ok { r with args.files := r.args.files ++ names, pending := .nothing }
  | .option o none => .error (.invalidValue (.option (.value o)) [])
  | .option o (some value) => { r with pending := .nothing }.setValue o value

/-- The arguments with a switch turned on. -/
def turnOn (r : Reader) (s : Switch) : Except Stop Reader :=
  match r.settle with
  | .error e => .error e
  | .ok r =>
    match s with
    | .deps => .ok { r with args.deps := true }
    | .listStyles => .ok { r with args.listStyles := true }
    | .verbose => .ok { r with args.verbose := min 255 (r.args.verbose + 1) }
    | .quiet => .ok { r with args.quiet := true }
    | .help => .error .helpWanted
    | .version => .error .versionWanted

/-- The arguments with an option whose value is attached, or will follow. -/
def beginOption (r : Reader) (o : ValueOption) (attached : Option Text) : Except Stop Reader :=
  match r.settle with
  | .error e => .error e
  | .ok r =>
    match attached with
    | some value => r.setValue o value
    | none => .ok { r with pending := .option o none }

/-- The arguments with a file. -/
def addFile (r : Reader) (name : Text) : Except Stop Reader :=
  match r.pending with
  | .files names => .ok { r with pending := .files (names ++ [name]) }
  | _ => r.settle.map fun r => { r with pending := .files [name] }

/-! ## Arguments by their form -/

/-- The arguments with a long option, given without its dashes. -/
def readLong (r : Reader) (t : Text) : Except Stop Reader :=
  let (name, attached) := match Text.splitFirst (· == '=') t with
    | some (name, value) => (name, some value)
    | none => (t, none)
  match ArgOption.ofLong? name, attached with
  | none, _ => .error (.unknownArgument ('-' :: '-' :: name))
  | some (.value o), attached => r.beginOption o attached
  | some (.switch s), none => r.turnOn s
  | some (.switch s), some value => .error (.unexpectedValue (.option (.switch s)) value)

/-- The value that is attached to a letter, without the `=` that may stand before it. -/
def attachedValue : Text → Option Text
  | [] => none
  | '=' :: value => some value
  | value => some value

/-- The arguments with joined short options, given without their dash. -/
def readLetters (r : Reader) : Text → Except Stop Reader
  | [] => .ok r
  | c :: rest =>
    match ArgOption.ofLetter? c with
    | none => .error (.unknownArgument ['-', c])
    | some (.value o) => r.beginOption o (attachedValue rest)
    | some (.switch s) =>
      match r.turnOn s with
      | .error e => .error e
      | .ok r => r.readLetters rest

/-- The arguments with one that is no option: the value of the last option, or a file. -/
def readPlain (r : Reader) (t : Text) : Except Stop Reader :=
  match r.pending with
  | .option o none => .ok { r with pending := .option o (some t) }
  | _ => r.addFile t

/-- The arguments with one more. -/
def read (r : Reader) (t : Text) : Except Stop Reader :=
  if r.onlyFiles then r.addFile t
  else match t with
    | ['-', '-'] => .ok { r with onlyFiles := true }
    | '-' :: '-' :: long => r.readLong long
    | '-' :: c :: letters => r.readLetters (c :: letters)
    | t => r.readPlain t

/-- The arguments with more of them, in order. -/
def readAll (r : Reader) : List Text → Except Stop Reader
  | [] => .ok r
  | t :: rest =>
    match r.read t with
    | .error e => .error e
    | .ok r => r.readAll rest

/-- The arguments at the end, if no two of them exclude each other. -/
def finish (r : Reader) : Except Stop Args :=
  match r.settle with
  | .error e => .error e
  | .ok r =>
    let command : ArgName := .option (.value .command)
    -- the argument that came first is the one that is blamed
    if r.args.command.isSome && !r.args.files.isEmpty then
      if r.commandLast then .error (.conflict .files command)
      else .error (.conflict command .files)
    else .ok r.args

end Reader

/-- What arguments ask for. -/
def Args.parse (args : List Text) : Except Stop Args :=
  match (Reader.mk .none .nothing false false).readAll args with
  | .error e => .error e
  | .ok r => r.finish

end CommandLine
end CurlScribe
