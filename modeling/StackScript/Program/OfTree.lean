import StackScript.Program
import StackScript.Program.Literal
import StackScript.Tree.Walk
import StackScript.Phrase.Grammar

/-!
Reading programs off trees. The grammar of trees is wider than the language: what has no meaning in
it is refused here. A call or an operation is one level deeper than what it stands in; `levels` is
how many levels are left.
-/

set_option autoImplicit false

namespace StackScript

namespace Walk

def tooDeep {α : Type} : Walk α := do
  fail (.fault .nestingTooDeep (← here).span)

/-- The arguments from the current node on: it is the opening parenthesis or a comma. -/
def argumentsUpTo (source : List Char) (argument : Walk Expr) : (bound : Nat) → Walk (List Expr)
  | 0 => pure []
  | bound + 1 => do
    if !(← move .next) || (← here).kind = .closeParen then
      return []
    let first ← argument
    if !(← move .next) then
      return [first]
    match (← here).kind with
    | .comma => return first :: (← argumentsUpTo source argument bound)
    | .closeParen => return [first]
    | _ => complain source .argumentSeparator

def arguments (source : List Char) (argument : Walk Expr) : Walk (List Expr) := do
  if (← here).kind = .argumentList then
    descend source do
      argumentsUpTo source argument (← here).siblingsLeft
  else complain source .noArgumentList

def applied (source : List Char) (span callee : Span) : List Expr → Except CompileError Expr
  | [argument] =>
    match Builtin.lookup? (String.ofList (callee.slice source)) 1 with
    | some builtin => .ok (.unaryCall span builtin argument)
    | none => .error (.about .noUnaryBuiltin callee source)
  | [first, second] =>
    match Builtin.lookup? (String.ofList (callee.slice source)) 2 with
    | some builtin => .ok (.binaryCall span builtin first second)
    | none => .error (.about .noBinaryBuiltin callee source)
  | arguments =>
    .error (.fault (.argumentCount (String.ofList (callee.slice source)) arguments.length) span)

def call (source : List Char) (argument : Walk Expr) : Walk Expr := do
  let span := (← here).span
  descend source do
    let callee := (← here).span
    advance source .argumentList
    ofExcept (applied source span callee (← arguments source argument))

/-- A sign in front of a literal is part of the literal; no other operand takes one. -/
def unary (source : List Char) : Walk Expr := do
  let span := (← here).span
  descend source do
    let sign ← text source
    if sign ≠ "-" ∧ sign ≠ "+" then
      complain source .unaryOperator
    advance source .operand
    if (← here).kind ≠ .number then
      complain source .unaryOperand
    let literal := sign ++ (← text source)
    return .number span (← ofExcept (Literal.read literal.toList span))

def binary (source : List Char) (operand : Walk Expr) : Walk Expr := do
  let span := (← here).span
  descend source do
    let left ← operand
    advance source .operator
    match Operator.ofSymbol? (← text source) with
    | none => complain source .binaryOperator
    | some operator =>
      advance source .rightOperand
      return .binary span operator left (← operand)

def expressionOf (source : List Char) (call binary : Walk Expr) : Walk Expr := do
  let node ← here
  match node.kind with
  | .number =>
    return .number node.span (← ofExcept (Literal.read (node.span.slice source) node.span))
  | .variableName => return .identifier node.span (← text source)
  | .callExpression => call
  | .unaryExpression => unary source
  | .binaryExpression => binary
  | _ => complain source .expression

def expression (source : List Char) : (levels : Nat) → Walk Expr
  | 0 => expressionOf source tooDeep tooDeep
  | levels + 1 =>
    expressionOf source (call source (expression source levels))
      (binary source (expression source levels))

def statement (source : List Char) (levels : Nat) : Walk Statement := do
  let node ← here
  match node.kind with
  | .assignStatement =>
    descend source do
      if (← here).kind ≠ .variableName then
        complain source .assignTarget
      let name ← text source
      advance source .assignSign
      advance source .value
      return .define node.span name (← expression source levels)
  | .expressionStatement =>
    descend source do
      return .expression node.span (← expression source levels)
  | _ => complain source .statement

def statementsUpTo (source : List Char) (levels : Nat) : (bound : Nat) → Walk (List Statement)
  | 0 => return [← statement source levels]
  | bound + 1 => do
    let first ← statement source levels
    if ← move .next then
      return first :: (← statementsUpTo source levels bound)
    else return [first]

def script (source : List Char) (levels : Nat) : Walk Program := do
  let node ← here
  if node.kind ≠ .script then
    complain source .notProgram
  else if node.firstChild?.isNone then
    fail (.fault .noStatements node.span)
  else
    descend source do
      return ⟨← statementsUpTo source levels (← here).siblingsLeft⟩

end Walk

def Program.ofTree (tree : Tree) (source : List Char) : Except CompileError Program :=
  (Walk.script source nestingLimit tree.cursor).1

def Program.ofSource (source : List Char) : Except CompileError Program := do
  if source.isEmpty then
    .error (.fault .emptyProgram ⟨0, 0⟩)
  else Program.ofTree (← Tree.ofSource source) source

end StackScript
