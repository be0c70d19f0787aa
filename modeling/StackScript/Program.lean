import StackScript.Builtin
import StackScript.Span

set_option autoImplicit false

namespace StackScript

inductive Expr where
  | number (span : Span) (value : Int)
  | identifier (span : Span) (name : String)
  | binary (span : Span) (operator : Operator) (left right : Expr)
  | unaryCall (span : Span) (builtin : Builtin) (argument : Expr)
  | binaryCall (span : Span) (builtin : Builtin) (first second : Expr)
deriving DecidableEq, Repr

inductive Statement where
  | define (span : Span) (name : String) (value : Expr)
  | expression (span : Span) (value : Expr)
deriving DecidableEq, Repr

structure Program where
  statements : List Statement
deriving DecidableEq, Repr

end StackScript
