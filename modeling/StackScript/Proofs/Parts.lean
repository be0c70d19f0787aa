import StackScript.Program

set_option autoImplicit false

namespace StackScript

namespace Expr

def Every (holds : Expr → Prop) : Expr → Prop
  | number span value => holds (number span value)
  | identifier span name => holds (identifier span name)
  | binary span operator left right =>
    holds (binary span operator left right) ∧ left.Every holds ∧ right.Every holds
  | unaryCall span builtin argument =>
    holds (unaryCall span builtin argument) ∧ argument.Every holds
  | binaryCall span builtin first second =>
    holds (binaryCall span builtin first second) ∧ first.Every holds ∧ second.Every holds

instance decidableEvery (holds : Expr → Prop) [DecidablePred holds] :
    (expr : Expr) → Decidable (expr.Every holds)
  | number span value => inferInstanceAs (Decidable (holds (number span value)))
  | identifier span name => inferInstanceAs (Decidable (holds (identifier span name)))
  | binary _ _ left right =>
    have := decidableEvery holds left
    have := decidableEvery holds right
    instDecidableAnd
  | unaryCall _ _ argument =>
    have := decidableEvery holds argument
    instDecidableAnd
  | binaryCall _ _ first second =>
    have := decidableEvery holds first
    have := decidableEvery holds second
    instDecidableAnd

def Saturated : Expr → Prop
  | unaryCall _ builtin _ => builtin.arity = 1
  | binaryCall _ builtin _ _ => builtin.arity = 2
  | _ => True

end Expr

def Statement.value : Statement → Expr
  | define _ _ value => value
  | expression _ value => value

def Program.Every (holds : Expr → Prop) (program : Program) : Prop :=
  ∀ statement ∈ program.statements, statement.value.Every holds

end StackScript
