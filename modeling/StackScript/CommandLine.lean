import StackScript.CommandLine.Options
import StackScript.Program.Code
import StackScript.Machine
import StackScript.Program.View
import StackScript.Text.Lines

set_option autoImplicit false

namespace StackScript.CommandLine

structure Report where
  status : Nat
  stdout : String := ""
  stderr : String := ""
deriving DecidableEq, Repr

inductive ReadFailure where
  | missing
  | denied
  | notDirectory
  | isDirectory
  | nameTooLong
  | notText
  | other (words : String)
deriving DecidableEq, Repr

def ReadFailure.words : ReadFailure → String
  | missing => "No such file or directory (os error 2)"
  | denied => "Permission denied (os error 13)"
  | notDirectory => "Not a directory (os error 20)"
  | isDirectory => "Is a directory (os error 21)"
  | nameTooLong => "File name too long (os error 36)"
  | notText => "stream did not contain valid UTF-8"
  | other words => words

def Input.describe : Input → String
  | sample => "sample"
  | standard => "stdin"
  | file path => "file '" ++ path ++ "'"

/-- What is compiled when no file is given. -/
def sampleSource : String :=
  "x = 5\ny = pow(x, 2) - 3 * x\nprint(max(x, y))\nabs(-7) + min(x, y)"

structure Execution where
  output : String
  value : Int32

structure Snapshot where
  error : Option String := none
  program : Option Program := none
  code : Option Code := none
  execution : Option Execution := none

def Snapshot.json (snapshot : Snapshot) : Json :=
  .object [
    ("success", .bool snapshot.error.isNone),
    ("error", .ofOption (snapshot.error.map .string)),
    ("ast", .ofOption (snapshot.program.map Program.json)),
    ("wat", .ofOption (snapshot.code.map fun code =>
      .array ((Text.lines code.text.toList).map fun line => .string (String.ofList line)))),
    ("result", .ofOption (snapshot.code.map Code.json)),
    ("output", .ofOption (snapshot.execution.map fun execution => .string execution.output)),
    ("value", .ofOption (snapshot.execution.map fun execution =>
      .number execution.value.toInt))]

namespace Options

def failed (options : Options) (source : List Char) (error : CompileError) : Report :=
  if options.json then
    { status := 1
      stdout := Json.pretty 0 (Snapshot.json { error := some error.message }) ++ "\n" }
  else { status := 1, stderr := "Compilation error: " ++ error.report source ++ "\n" }

def plain (options : Options) (program : Program) (code : Code) (execution : Option Execution) :
    String :=
  let listing :=
    if options.ast then
      String.join (program.statements.map fun statement =>
        statement.record.pretty 0 ++ "\n") ++ "\n"
    else ""
  let outcome :=
    match execution with
    | some execution =>
      "\n\n" ++ execution.output ++ "=> " ++ toString execution.value.toInt
    | none => ""
  listing ++ code.text ++ outcome

def compiled (options : Options) (program : Program) (code : Code)
    (execution : Option Execution) : Report :=
  let text :=
    if options.json then
      let program := if options.ast then some program else none
      Json.pretty 0 (Snapshot.json { program, code := some code, execution })
    else options.plain program code execution
  { status := 0, stdout := text ++ "\n" }

def answer (options : Options) (source : List Char) : Report :=
  match Program.ofSource source with
  | .error error => options.failed source error
  | .ok program =>
    match program.compile with
    | .error error => options.failed source error
    | .ok code =>
      if options.run then
        let outcome := Machine.run code {} {}
        match outcome.result with
        | .ok value => options.compiled program code (some ⟨outcome.console.output, value⟩)
        | .error error => { status := 1, stderr := "Runtime error: " ++ error.message ++ "\n" }
      else options.compiled program code none

def report (options : Options) : Except ReadFailure String → Report
  | .ok source => options.answer source.toList
  | .error failure =>
    { status := 1
      stderr := "Error: Error reading " ++ options.input.describe ++ ": " ++ failure.words ++ "\n" }

end Options

def decode (bytes : ByteArray) : Except ReadFailure String :=
  match String.fromUTF8? bytes with
  | some text => .ok text
  | none => .error .notText

def respond {m : Type → Type} [Monad m] (read : Input → m (Except ReadFailure String))
    (words : List String) : m Report :=
  match Request.ofWords words with
  | .error error =>
    pure { status := 2, stderr := "error: " ++ error.message ++ "\n\n" ++ usage ++ "\n" }
  | .ok .help => pure { status := 0, stdout := usage ++ "\n" }
  | .ok (.compile options) => do
    return options.report (← read options.input)

end StackScript.CommandLine
