import CurlScribe.Target.Code

/-!
# Python programs

The shape of the generated Python programs: a dictionary of header fields, the body, the files that
are held open while the request is made, the entries of a multipart body, and one call. The code of
a program is lines in three rows: those that make the request, which stand deeper while files are
open, and those in front of them and behind them.
-/

namespace CurlScribe
namespace Python

/-! ## Parts of programs -/

/-- The value of a form entry. Files are named by their place among the open files. -/
inductive EntryValue where
  | text (value : Word)
  | attachment (filename : Word) (file : Nat)
  | contents (file : Nat)
deriving DecidableEq, Repr, Inhabited

/-- An entry of a multipart body. -/
structure Entry where
  name : Word
  value : EntryValue
deriving DecidableEq, Repr, Inhabited

/-- What the call sends as the body. -/
inductive Content where
  | nothing
  /-- The text `data`, assigned beforehand. -/
  | data (content : Word)
  /-- The first open file. -/
  | openFile
  /-- The entries of a multipart body. -/
  | entries (entries : List Entry)
deriving DecidableEq, Repr, Inhabited

/-- The function that makes the request. -/
inductive Call where
  /-- The function named for the method. -/
  | shortcut (function : Text)
  /-- The function that takes any method. -/
  | general (method : Word)
deriving DecidableEq, Repr, Inhabited

/-- A program. `headers` are the entries of the header dictionary and `files` the paths of the files
that are open during the call. -/
structure Program where
  imports : List Text
  headers : List (Word × Word)
  files : List Word
  content : Content
  call : Call
  url : Word
  credentials : Option (Word × Word)
deriving DecidableEq, Repr, Inhabited

/-! ## Expressions -/

/-- An operand: a literal, or a call that looks the variable up. -/
def operandCode : Operand → Code
  | .literal t => Code.quoted t
  | .lookup name =>
    Code.fixed "os.getenv" ++ Code.arguments [Code.quoted name, Code.quoted []]

/-- The expression for a word. -/
def exprCode (w : Word) : Code := Code.join " + " (w.operands.map operandCode)

/-- The variable that holds the open file of the given place. -/
def fileName (n : Nat) : Code := [.code ("file_".toList ++ Text.ofNat n)]

def EntryValue.code : EntryValue → Code
  | .text value => Code.fixed "(None, " ++ exprCode value ++ Code.fixed ")"
  | .attachment filename file => Code.arguments [exprCode filename, fileName file]
  | .contents file => Code.fixed "(None, " ++ fileName file ++ Code.fixed ".read())"

/-! ## Lines -/

def Entry.line (e : Entry) : Code :=
  Code.fixed "    (" ++ exprCode e.name ++ Code.fixed ", " ++ e.value.code ++ Code.fixed "),"

/-- The lines that assign the header dictionary, if there are any header fields. -/
def headerLines (headers : List (Word × Word)) : List Code :=
  if headers.isEmpty then []
  else [Code.fixed "headers = \x7b"]
    ++ (headers.map fun (name, value) =>
      Code.fixed "    " ++ exprCode name ++ Code.fixed ": " ++ exprCode value ++ Code.fixed ",")
    ++ [Code.fixed "\x7d", []]

/-- The lines that assign the body, if it is a text. -/
def dataLines : Content → List Code
  | .data content => [Code.fixed "data = " ++ exprCode content, []]
  | _ => []

/-- The lines that assign the entries of a multipart body. -/
def entryLines : Content → List Code
  | .entries entries => [Code.fixed "files = ["] ++ entries.map Entry.line ++ [Code.fixed "]"]
  | _ => []

/-- The arguments of the call that follow the URL. -/
def Program.argumentCodes (p : Program) : List Code :=
  (if p.headers.isEmpty then [] else [Code.fixed "headers=headers"])
    ++ (match p.content with
      | .nothing => []
      | .data _ => [Code.fixed "data=data"]
      | .openFile => [Code.fixed "data=" ++ fileName 0]
      | .entries _ => [Code.fixed "files=files"])
    ++ p.credentials.toList.map fun (user, password) =>
      Code.fixed "auth=" ++ Code.arguments [exprCode user, exprCode password]

/-- The line that makes the request. -/
def Program.callLine (p : Program) : Code :=
  let args := exprCode p.url :: p.argumentCodes
  Code.fixed "response = requests." ++ match p.call with
    | .shortcut function => [.code function] ++ Code.arguments args
    | .general method => Code.fixed "request" ++ Code.arguments (exprCode method :: args)

/-- The lines that make the request, as they stand without open files. -/
def Program.requestLines (p : Program) : List Code := entryLines p.content ++ [p.callLine]

/-- The line that opens the files. -/
def withLine (files : List Word) : Code :=
  Code.fixed "with "
    ++ Code.join ", " (files.mapIdx fun i path =>
      Code.fixed "open" ++ Code.arguments [exprCode path, Code.quoted "rb".toList]
        ++ Code.fixed " as " ++ fileName i)
    ++ Code.fixed ":"

/-- The lines in front of those that make the request. -/
def Program.frontLines (p : Program) : List Code :=
  (p.imports.map fun name => Code.fixed "import " ++ [.code name]) ++ [[]]
    ++ headerLines p.headers ++ dataLines p.content

/-- The lines behind those that make the request. -/
def backLines : List Code := [[], Code.fixed "print(response.text)"]

end Python
end CurlScribe
