import CurlScribe.Target.Code

/-!
# Rust programs

The shape of the generated Rust programs: the parts of a form, and one chain of calls that begins
at the client and ends by sending the request.
-/

namespace CurlScribe
namespace Rust

/-! ## Parts of programs -/

/-- A call that adds a part to a form. -/
inductive FormCall where
  | text (name value : Word)
  /-- The file `path` under its own name. -/
  | file (name path : Word)
  /-- The file `path` under the name `filename`. -/
  | renamed (name path filename : Word)
  /-- The contents of the file `path` as text. -/
  | contents (name path : Word)
deriving DecidableEq, Repr, Inhabited

/-- The call that begins a request to a URL. -/
inductive Start where
  /-- The function of the client that is named for the method. -/
  | shortcut (function : Text)
  /-- The method is a constant of the library. -/
  | constant (name : Text)
  /-- The method is made from its name. -/
  | general (method : Word)
deriving DecidableEq, Repr, Inhabited

/-- A call that adds something to a request. -/
inductive RequestCall where
  | header (name value : Word)
  | credentials (user password : Word)
  | body (content : Word)
  /-- The contents of the file `path` as the body. -/
  | bodyFile (path : Word)
  | form
deriving DecidableEq, Repr, Inhabited

/-- A program. -/
structure Program where
  imports : List Text
  form : Option (List FormCall)
  start : Start
  url : Word
  calls : List RequestCall
deriving DecidableEq, Repr, Inhabited

/-! ## Expressions -/

/-- The look-up of a variable, as an owned string. -/
def lookupCode (name : Text) : Code :=
  Code.fixed "std::env::var" ++ Code.arguments [Code.quoted name]
    ++ Code.fixed ".unwrap_or_default()"

/-- An operand beside others: always a borrowed string. -/
def operandCode : Operand → Code
  | .literal t => Code.quoted t
  | .lookup name => lookupCode name ++ Code.fixed ".as_str()"

/-- The expression for a word. -/
def exprCode (w : Word) : Code :=
  match w.operands with
  | [.literal t] => Code.quoted t
  | [.lookup name] => lookupCode name
  | operands =>
    Code.fixed "[" ++ Code.join ", " (operands.map operandCode) ++ Code.fixed "].concat()"

/-! ## Calls -/

def FormCall.code : FormCall → Code
  | .text name value => Code.fixed ".text" ++ Code.arguments [exprCode name, exprCode value]
  | .file name path =>
    Code.fixed ".file" ++ Code.arguments [exprCode name, exprCode path] ++ Code.fixed "?"
  | .renamed name path filename =>
    Code.fixed ".part" ++ Code.arguments [exprCode name,
      Code.fixed "multipart::Part::file" ++ Code.arguments [exprCode path]
        ++ Code.fixed "?.file_name" ++ Code.arguments [exprCode filename]]
  | .contents name path =>
    Code.fixed ".text" ++ Code.arguments [exprCode name,
      Code.fixed "std::fs::read_to_string" ++ Code.arguments [exprCode path] ++ Code.fixed "?"]

def Start.code (url : Word) : Start → Code
  | .shortcut function =>
    Code.fixed "client." ++ [.code function] ++ Code.arguments [exprCode url]
  | .constant name =>
    Code.fixed "client.request" ++ Code.arguments
      [Code.fixed "reqwest::Method::" ++ [.code name], exprCode url]
  | .general method =>
    Code.fixed "client.request" ++ Code.arguments
      [Code.fixed "reqwest::Method::from_bytes(" ++ exprCode method
        ++ Code.fixed ".as_bytes())?", exprCode url]

def RequestCall.code : RequestCall → Code
  | .header name value => Code.fixed ".header" ++ Code.arguments [exprCode name, exprCode value]
  | .credentials user password =>
    Code.fixed ".basic_auth" ++ Code.arguments [exprCode user,
      Code.fixed "Some" ++ Code.arguments [exprCode password]]
  | .body content => Code.fixed ".body" ++ Code.arguments [exprCode content]
  | .bodyFile path =>
    Code.fixed ".body" ++ Code.arguments
      [Code.fixed "std::fs::File::open" ++ Code.arguments [exprCode path] ++ Code.fixed "?"]
  | .form => Code.fixed ".multipart(form)"

/-! ## Programs -/

/-- The statement that makes the form. -/
def formCode : Option (List FormCall) → Code
  | none => []
  | some calls =>
    Code.fixed "    let form = multipart::Form::new()"
      ++ (calls.flatMap fun call => Code.fixed "\n        " ++ call.code) ++ Code.fixed ";\n"

/-- The calls of the chain, one a line. -/
def chainCode (calls : List RequestCall) : Code :=
  calls.flatMap fun call => Code.fixed "        " ++ call.code ++ Code.fixed "\n"

def Program.code (p : Program) : Code :=
  (p.imports.flatMap fun path => Code.fixed "use " ++ [.code path] ++ Code.fixed ";\n")
    ++ Code.fixed "\nfn main() -> Result<(), Box<dyn std::error::Error>> \x7b\n"
    ++ Code.fixed "    let client = Client::new();\n"
    ++ formCode p.form
    ++ Code.fixed "    let response = " ++ p.start.code p.url ++ Code.fixed "\n"
    ++ chainCode p.calls
    ++ Code.fixed "        .send()?;\n    println!(" ++ Code.quoted "\x7b\x7d".toList
    ++ Code.fixed ", response.text()?);\n    Ok(())\n\x7d\n"

end Rust
end CurlScribe
