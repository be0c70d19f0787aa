import StackScript.Fault

set_option autoImplicit false

namespace StackScript

inductive CompileError where
  | lexical (error : LexicalError)
  | fault (cause : Fault) (span : Span)
  | reference (name : String) (span : Span)
deriving DecidableEq, Repr

namespace CompileError

inductive Category where
  | emptyInput
  | shape
  | literalRange
  | unresolvedReference
deriving DecidableEq, Repr

def category : CompileError → Category
  | lexical _ => .shape
  | fault cause _ =>
    match cause.kind with
    | .emptyProgram => .emptyInput
    | .nonIntegerLiteral | .literalOutOfRange => .literalRange
    | _ => .shape
  | reference _ _ => .unresolvedReference

def span : CompileError → Span
  | lexical error => error.span
  | fault _ span => span
  | reference _ span => span

def message : CompileError → String
  | lexical error => "Lexical error: " ++ error.message
  | fault cause span =>
    "ParseError: " ++ cause.kind.name ++ " at " ++ span.text ++ " - " ++ cause.message
  | reference name span =>
    "ReferenceError: variable '" ++ name ++ "' used before defined at " ++ span.text

def about (complaint : Fault.Complaint) (span : Span) (source : List Char) : CompileError :=
  fault (.shape complaint (String.ofList (span.slice source))) span

/-- The message with the line and the column where the error starts, and the text of that line
unless it is blank. -/
def report (error : CompileError) (source : List Char) : String :=
  match error with
  | lexical error => error.message
  | error =>
    let start := error.span.start
    let position := Position.ofOffset source start
    let line := Position.lineAround source start
    error.message ++ "\n  --> line " ++ toString position.line ++ ", column " ++
      toString position.column ++ if line.isEmpty then "" else "\n  | " ++ String.ofList line

end CompileError

end StackScript
