import CurlScribe.Target.Code

/-!
# Go programs

The statements and expressions that generated Go programs are made of, and the code that each is
written as. A program is one function; its statements declare, assign and use variables and call
functions of packages, and both can be read off the statements.
-/

namespace CurlScribe
namespace Go

/-! ## Names -/

/-- The packages that programs may import. -/
inductive Package where
  | bytes
  | fmt
  | io
  | log
  | multipart
  | http
  | os
  | filepath
  | strings
deriving DecidableEq, Repr, Inhabited

namespace Package

/-- The path under which a package is imported. -/
def path : Package → Text
  | bytes => "bytes".toList
  | fmt => "fmt".toList
  | io => "io".toList
  | log => "log".toList
  | multipart => "mime/multipart".toList
  | http => "net/http".toList
  | os => "os".toList
  | filepath => "path/filepath".toList
  | strings => "strings".toList

/-- The name by which the program calls a package. -/
def name : Package → Text
  | bytes => "bytes".toList
  | fmt => "fmt".toList
  | io => "io".toList
  | log => "log".toList
  | multipart => "multipart".toList
  | http => "http".toList
  | os => "os".toList
  | filepath => "filepath".toList
  | strings => "strings".toList

end Package

/-- The variables of a program. -/
inductive Variable where
  | form
  | writer
  | formField
  | fw
  | fd
  | client
  | data
  | req
  | resp
  | bodyText
  | err
deriving DecidableEq, Repr, Inhabited

def Variable.name : Variable → Text
  | form => "form".toList
  | writer => "writer".toList
  | formField => "formField".toList
  | fw => "fw".toList
  | fd => "fd".toList
  | client => "client".toList
  | data => "data".toList
  | req => "req".toList
  | resp => "resp".toList
  | bodyText => "bodyText".toList
  | err => "err".toList

/-! ## Expressions -/

/-- Where a dotted name begins. -/
inductive Root where
  | package (p : Package)
  | variable (v : Variable)
  /-- A function that the language itself defines. -/
  | builtin (name : Text)
deriving DecidableEq, Repr, Inhabited

/-- A dotted name: a package or variable, and the members selected from it. -/
structure Selector where
  root : Root
  members : List Text
deriving DecidableEq, Repr, Inhabited

namespace Selector

/-- A member of a package. -/
def ofPackage (p : Package) (member : String) : Selector := ⟨.package p, [member.toList]⟩

/-- A variable with members selected from it. -/
def ofVariable (v : Variable) (members : List String) : Selector :=
  ⟨.variable v, members.map String.toList⟩

end Selector

/-- An expression. -/
inductive Expr where
  /-- Operands joined into one string. -/
  | string (operands : List Operand)
  | nil
  | select (s : Selector)
  | call (function : Selector) (arguments : List Expr)
  /-- The address of a new empty value of a type. -/
  | newValue (type : Selector)
  /-- The bytes of a string. -/
  | bytesOf (e : Expr)

namespace Expr

/-- The string that a word stands for. -/
def ofWord (w : Word) : Expr := string w.operands

/-- Fixed text. -/
def ofText (s : String) : Expr := string [.literal s.toList]

def ofVariable (v : Variable) : Expr := select ⟨.variable v, []⟩

end Expr

/-! ## Statements -/

/-- A statement. -/
inductive Statement where
  /-- `a, b := e`, which declares those of the variables that are new. -/
  | define (targets : List Variable) (value : Expr)
  /-- `a, b = e`; nothing stands for the blank identifier. -/
  | assign (targets : List (Option Variable)) (value : Expr)
  /-- `var a = e`. -/
  | declare (target : Variable) (value : Expr)
  /-- The end of the program if the last call failed. -/
  | checkError
  /-- A call to make when the program ends. -/
  | later (value : Expr)
  | run (value : Expr)
  /-- An empty line. -/
  | gap

/-! ## Code -/

def Root.code : Root → Code
  | .package p => [.code p.name]
  | .variable v => [.code v.name]
  | .builtin name => [.code name]

def Selector.code (s : Selector) : Code :=
  s.root.code ++ s.members.flatMap fun member => [.code ('.' :: member)]

/-- An operand: a literal, or a call that looks the variable up. -/
def operandCode : Operand → Code
  | .literal t => Code.quoted t
  | .lookup name =>
    (Selector.ofPackage .os "Getenv").code ++ Code.arguments [Code.quoted name]

mutual

def Expr.code : Expr → Code
  | .string operands => Code.join " + " (operands.map operandCode)
  | .nil => Code.fixed "nil"
  | .select s => s.code
  | .call f args => f.code ++ Code.arguments (Expr.codes args)
  | .newValue type => Code.fixed "&" ++ type.code ++ Code.fixed "\x7b\x7d"
  | .bytesOf e => Code.fixed "[]byte(" ++ e.code ++ Code.fixed ")"

def Expr.codes : List Expr → List Code
  | [] => []
  | e :: rest => e.code :: Expr.codes rest

end

/-- The names of variables with commas between them, the blank identifier for none. -/
def targetsCode (targets : List (Option Variable)) : Code :=
  Code.join ", " (targets.map fun
    | some v => [.code v.name]
    | none => Code.fixed "_")

/-- A statement with its indentation and line end. -/
def Statement.code : Statement → Code
  | .define targets value =>
    Code.fixed "\t" ++ targetsCode (targets.map some) ++ Code.fixed " := " ++ value.code
      ++ Code.fixed "\n"
  | .assign targets value =>
    Code.fixed "\t" ++ targetsCode targets ++ Code.fixed " = " ++ value.code ++ Code.fixed "\n"
  | .declare target value =>
    Code.fixed "\tvar " ++ [.code target.name] ++ Code.fixed " = " ++ value.code
      ++ Code.fixed "\n"
  | .checkError =>
    Code.fixed "\tif err != nil \x7b\n\t\tlog.Fatal(err)\n\t\x7d\n"
  | .later value => Code.fixed "\tdefer " ++ value.code ++ Code.fixed "\n"
  | .run value => Code.fixed "\t" ++ value.code ++ Code.fixed "\n"
  | .gap => Code.fixed "\n"

/-- A program: the packages that it imports and the statements of its main function. -/
structure Program where
  imports : List Package
  statements : List Statement

def Program.code (p : Program) : Code :=
  Code.fixed "package main\n\nimport (\n"
    ++ (p.imports.flatMap fun package =>
      Code.fixed "\t" ++ Code.quoted package.path ++ Code.fixed "\n")
    ++ Code.fixed ")\n\nfunc main() \x7b\n" ++ p.statements.flatMap Statement.code
    ++ Code.fixed "\x7d\n"

end Go
end CurlScribe
