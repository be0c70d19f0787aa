import StackScript.CompileError
import StackScript.Instruction
import StackScript.Program.Names
import StackScript.Program.Literal
import StackScript.Program.OfTree

set_option autoImplicit false

namespace StackScript

def Expr.code (names : Names) : Expr → Except CompileError Code
  | number span value =>
    if Decimal.fits value then .ok [.const (Int32.ofInt value)]
    else .error (.fault (.constantOutOfRange value) span)
  | identifier span name =>
    if name ∈ names then .ok [.get (.named name)] else .error (.reference name span)
  | binary _ operator left right => do
    return (← left.code names) ++ (← right.code names) ++ [.arith operator]
  | unaryCall _ builtin argument => do
    return (← argument.code names) ++ [.call builtin]
  | binaryCall _ builtin first second => do
    return (← first.code names) ++ (← second.code names) ++ [.call builtin]

namespace Statement

def code (names : Names) : Statement → Except CompileError Code
  | define _ name value => do
    return (← value.code names) ++ [.set (.named name)]
  | expression _ value => do
    return (← value.code names) ++ [.set .scratch]

def codeAll (names : Names) : List Statement → Except CompileError Code
  | [] => .ok []
  | first :: rest => do
    return (← first.code names) ++ (← codeAll (first.defines names) rest)

def generate (names : Names) (statement : Statement) : Except CompileError Code × Names :=
  match statement.code names with
  | .ok code => (.ok code, statement.defines names)
  | .error error => (.error error, names)

def generateEach (names : Names) : List Statement → List (Except CompileError Code) × Names
  | [] => ([], names)
  | first :: rest =>
    let (result, known) := generate names first
    let (results, last) := generateEach known rest
    (result :: results, last)

end Statement

namespace Program

def body (program : Program) : Except CompileError Code :=
  Statement.codeAll [] program.statements

def compile (program : Program) : Except CompileError Code := do
  let slots := Slot.scratch :: program.definitions.map .named
  return slots.map .declare ++ (← program.body)

end Program

def compile (source : List Char) : Except CompileError Code := do
  (← Program.ofSource source).compile

end StackScript
