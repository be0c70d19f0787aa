import StackScript.Proofs.Lowering

/-!
Walks that count. Here the depth is a counter beside the cursor, raised where a call or an operation
is entered and lowered where it is left. Such a walk reads what one reads that is told how many
levels are left, and both the cursor and the counter end as they were, on success and on failure.
-/

set_option autoImplicit false

namespace StackScript

structure Place where
  cursor : Cursor
  depth : Nat

def CountedWalk (α : Type) : Type :=
  Place → Except CompileError α × Place

namespace CountedWalk

variable {α β : Type}

instance : Monad CountedWalk where
  pure value := fun place => (.ok value, place)
  bind walk next := fun place =>
    match walk place with
    | (.ok value, moved) => next value moved
    | (.error error, moved) => (.error error, moved)

def lift (walk : Walk α) : CountedWalk α := fun place =>
  let (result, moved) := walk place.cursor
  (result, { place with cursor := moved })

instance : MonadLift Walk CountedWalk :=
  ⟨lift⟩

def descend (source : List Char) (walk : CountedWalk α) : CountedWalk α := fun place =>
  match place.cursor.move .child with
  | (true, child) =>
    let (result, last) := walk { place with cursor := child }
    (result, { last with cursor := (last.cursor.move .parent).2 })
  | (false, _) => lift (Walk.complain source (.malformed place.cursor.kind)) place

def nested (walk : CountedWalk α) : CountedWalk α := fun place =>
  if nestingLimit ≤ place.depth then lift Walk.tooDeep place
  else
    let (result, last) := walk { place with depth := place.depth + 1 }
    (result, { last with depth := last.depth - 1 })

open Walk (here move text complain advance ofExcept fail applied unary)

def argumentsUpTo (source : List Char) (argument : CountedWalk Expr) :
    (bound : Nat) → CountedWalk (List Expr)
  | 0 => pure []
  | bound + 1 => do
    if !(← move .next) || (← here).kind = .closeParen then
      return []
    let first ← argument
    if !(← move .next) then
      return [first]
    match (← here).kind with
    | .comma => return first :: (← argumentsUpTo source argument bound)
    | .closeParen => return [first]
    | _ => complain source .argumentSeparator

def arguments (source : List Char) (argument : CountedWalk Expr) : CountedWalk (List Expr) := do
  if (← here).kind = .argumentList then
    descend source do
      argumentsUpTo source argument (← here).siblingsLeft
  else complain source .noArgumentList

def call (source : List Char) (argument : CountedWalk Expr) : CountedWalk Expr := do
  let span := (← here).span
  descend source do
    let callee := (← here).span
    advance source .argumentList
    ofExcept (applied source span callee (← arguments source argument))

def binary (source : List Char) (operand : CountedWalk Expr) : CountedWalk Expr := do
  let span := (← here).span
  descend source do
    let left ← operand
    advance source .operator
    match Operator.ofSymbol? (← text source) with
    | none => complain source .binaryOperator
    | some operator =>
      advance source .rightOperand
      return .binary span operator left (← operand)

def expressionOf (source : List Char) (call binary : CountedWalk Expr) : CountedWalk Expr := do
  let node ← here
  match node.kind with
  | .number =>
    return .number node.span (← ofExcept (Literal.read (node.span.slice source) node.span))
  | .variableName => return .identifier node.span (← text source)
  | .callExpression => call
  | .unaryExpression => unary source
  | .binaryExpression => binary
  | _ => complain source .expression

-- The counter alone decides what is too deep. `bound` is one more than the levels that can be
-- opened, so it is not used up.
def expression (source : List Char) : (bound : Nat) → CountedWalk Expr
  | 0 => Walk.tooDeep
  | bound + 1 =>
    expressionOf source (nested (call source (expression source bound)))
      (nested (binary source (expression source bound)))

def statement (source : List Char) (bound : Nat) : CountedWalk Statement := do
  let node ← here
  match node.kind with
  | .assignStatement =>
    descend source do
      if (← here).kind ≠ .variableName then
        complain source .assignTarget
      let name ← text source
      advance source .assignSign
      advance source .value
      return .define node.span name (← expression source bound)
  | .expressionStatement =>
    descend source do
      return .expression node.span (← expression source bound)
  | _ => complain source .statement

def statementsUpTo (source : List Char) (bound : Nat) : (left : Nat) → CountedWalk (List Statement)
  | 0 => return [← statement source bound]
  | left + 1 => do
    let first ← statement source bound
    if ← move .next then
      return first :: (← statementsUpTo source bound left)
    else return [first]

def script (source : List Char) (bound : Nat) : CountedWalk Program := do
  let node ← here
  if node.kind ≠ .script then
    complain source .notProgram
  else if node.firstChild?.isNone then
    fail (.fault .noStatements node.span)
  else
    descend source do
      return ⟨← statementsUpTo source bound (← here).siblingsLeft⟩

/-- At this depth the counting walk is the other one, and the counter is left as it was. -/
def Tracks (depth : Nat) (counted : CountedWalk α) (walk : Walk α) : Prop :=
  ∀ cursor, counted ⟨cursor, depth⟩ = ((walk cursor).1, ⟨(walk cursor).2, depth⟩)

namespace Tracks

variable {depth : Nat}

theorem lift (walk : Walk α) : Tracks depth (CountedWalk.lift walk) walk :=
  fun _ => rfl

theorem pure (value : α) : Tracks depth (Pure.pure value) (Pure.pure value) :=
  fun _ => rfl

theorem bind {counted : CountedWalk α} {walk : Walk α} {countedNext : α → CountedWalk β}
    {next : α → Walk β} (first : Tracks depth counted walk)
    (rest : ∀ value, Tracks depth (countedNext value) (next value)) :
    Tracks depth (counted >>= countedNext) (walk >>= next) := by
  intro cursor
  change (match counted ⟨cursor, depth⟩ with
    | (.ok value, moved) => countedNext value moved
    | (.error error, moved) => (.error error, moved)) = _
  rw [first cursor, Walk.bind_apply]
  rcases walk cursor with ⟨_ | value, moved⟩
  next => rfl
  next => exact rest value moved

theorem descend {counted : CountedWalk α} {walk : Walk α} (source : List Char)
    (inside : Tracks depth counted walk) :
    Tracks depth (CountedWalk.descend source counted) (Walk.descend source walk) := by
  intro cursor
  rw [CountedWalk.descend, Walk.descend]
  rcases cursor.move .child with ⟨_ | _, child⟩
  next => rfl
  next => simp only [inside child]

theorem nested_of_lt {counted : CountedWalk α} {walk : Walk α} (room : depth < nestingLimit)
    (inside : Tracks (depth + 1) counted walk) : Tracks depth (nested counted) walk := by
  intro cursor
  rw [nested, if_neg (Nat.not_le_of_lt room)]
  simp only [inside cursor, Nat.add_sub_cancel]

theorem nested_of_le (counted : CountedWalk α) (full : nestingLimit ≤ depth) :
    Tracks depth (nested counted) Walk.tooDeep := by
  intro cursor
  rw [nested, if_pos full]
  exact lift Walk.tooDeep cursor

end Tracks

section Readers

variable {depth : Nat} {source : List Char} {counted : CountedWalk Expr} {walk : Walk Expr}

theorem tracks_argumentsUpTo (tracks : Tracks depth counted walk) (bound : Nat) :
    Tracks depth (argumentsUpTo source counted bound) (Walk.argumentsUpTo source walk bound) := by
  induction bound with
  | zero => exact .pure []
  | succ bound ih =>
    rw [argumentsUpTo, Walk.argumentsUpTo]
    refine .bind (.lift _) fun stepped => .bind (.lift _) fun place => ?_
    split
    next => exact .pure []
    next =>
      refine .bind tracks fun first => .bind (.lift _) fun more => ?_
      split
      next => exact .pure [first]
      next =>
        refine .bind (.lift _) fun separator => ?_
        cases separator.kind with
        | comma => exact .bind ih fun rest => .pure _
        | closeParen => exact .pure [first]
        | _ => exact .lift _

theorem tracks_arguments (tracks : Tracks depth counted walk) :
    Tracks depth (arguments source counted) (Walk.arguments source walk) := by
  refine .bind (.lift _) fun list => ?_
  split
  next =>
    exact .descend source (.bind (.lift _) fun opening => tracks_argumentsUpTo tracks _)
  next => exact .lift _

theorem tracks_call (tracks : Tracks depth counted walk) :
    Tracks depth (call source counted) (Walk.call source walk) := by
  refine .bind (.lift _) fun whole => .descend source ?_
  refine .bind (.lift _) fun callee => .bind (.lift _) fun _ => ?_
  exact .bind (tracks_arguments tracks) fun values => .lift _

theorem tracks_binary (tracks : Tracks depth counted walk) :
    Tracks depth (binary source counted) (Walk.binary source walk) := by
  refine .bind (.lift _) fun whole => .descend source ?_
  refine .bind tracks fun left => .bind (.lift _) fun _ => .bind (.lift _) fun sign => ?_
  cases Operator.ofSymbol? sign with
  | none => exact .lift _
  | some operator => exact .bind (.lift _) fun _ => .bind tracks fun right => .pure _

end Readers

theorem tracks_expressionOf {depth : Nat} {source : List Char}
    {countedCall countedBinary : CountedWalk Expr} {call binary : Walk Expr}
    (tracksCall : Tracks depth countedCall call)
    (tracksBinary : Tracks depth countedBinary binary) :
    Tracks depth (expressionOf source countedCall countedBinary)
      (Walk.expressionOf source call binary) := by
  refine .bind (.lift _) fun node => ?_
  cases node.kind with
  | number => exact .bind (.lift _) fun value => .pure _
  | variableName => exact .bind (.lift _) fun name => .pure _
  | callExpression => exact tracksCall
  | unaryExpression => exact .lift _
  | binaryExpression => exact tracksBinary
  | _ => exact .lift _

theorem tracks_expression {source : List Char} {depth bound : Nat}
    (enough : nestingLimit - depth < bound) :
    Tracks depth (expression source bound) (Walk.expression source (nestingLimit - depth)) := by
  induction bound generalizing depth with
  | zero => cases enough
  | succ bound ih =>
    rw [expression]
    rcases Nat.lt_or_ge depth nestingLimit with room | full
    next =>
      have levels : nestingLimit - depth = nestingLimit - (depth + 1) + 1 := by omega
      have inside : Tracks (depth + 1) (expression source bound)
          (Walk.expression source (nestingLimit - (depth + 1))) := ih (by omega)
      rw [levels, Walk.expression]
      exact tracks_expressionOf (.nested_of_lt room (tracks_call inside))
        (.nested_of_lt room (tracks_binary inside))
    next =>
      rw [Nat.sub_eq_zero_of_le full, Walk.expression]
      exact tracks_expressionOf (.nested_of_le _ full) (.nested_of_le _ full)

section Statements

variable {source : List Char} {depth bound : Nat} (enough : nestingLimit - depth < bound)

include enough

theorem tracks_statement :
    Tracks depth (statement source bound) (Walk.statement source (nestingLimit - depth)) := by
  refine .bind (.lift _) fun node => ?_
  cases node.kind with
  | assignStatement =>
    refine .descend source (.bind (.lift _) fun target => ?_)
    split
    next =>
      refine .bind (.lift _) fun _ => .bind (.lift _) fun name => ?_
      refine .bind (.lift _) fun _ => .bind (.lift _) fun _ => ?_
      exact .bind (tracks_expression enough) fun value => .pure _
    next =>
      refine .bind (.lift _) fun name => .bind (.lift _) fun _ => .bind (.lift _) fun _ => ?_
      exact .bind (tracks_expression enough) fun value => .pure _
  | expressionStatement =>
    exact .descend source (.bind (tracks_expression enough) fun value => .pure _)
  | _ => exact .lift _

theorem tracks_statementsUpTo (left : Nat) :
    Tracks depth (statementsUpTo source bound left)
      (Walk.statementsUpTo source (nestingLimit - depth) left) := by
  induction left with
  | zero => exact .bind (tracks_statement enough) fun first => .pure _
  | succ left ih =>
    refine .bind (tracks_statement enough) fun first => .bind (.lift _) fun more => ?_
    split
    next => exact .bind ih fun rest => .pure _
    next => exact .pure _

theorem tracks_script :
    Tracks depth (script source bound) (Walk.script source (nestingLimit - depth)) := by
  refine .bind (.lift _) fun node => ?_
  split
  next => exact .lift _
  next =>
    split
    next => exact .lift _
    next =>
      refine .descend source (.bind (.lift _) fun first => ?_)
      exact .bind (tracks_statementsUpTo enough _) fun statements => .pure _

end Statements

end CountedWalk

namespace Walk

def Returns {α : Type} (walk : Walk α) : Prop :=
  ∀ cursor, cursor.tree.Built → (walk cursor).2 = cursor

theorem returns_of_agrees {α : Type} {walk : Walk α} {read : Phrase → Except CompileError α}
    (agrees : Agrees walk read)
    (stays : ∀ cursor : Cursor, cursor.node? = none → (walk cursor).2 = cursor) : Returns walk := by
  rintro ⟨tree, place⟩ built
  cases place with
  | none => exact stays _ rfl
  | some id =>
    cases found : tree.node? id with
    | none => exact stays _ found
    | some node =>
      obtain ⟨phrases, shown, -⟩ := built.linked.phrase_eq found
      rw [agrees _ _ ⟨built.linked, id, rfl, shown⟩]

theorem kind_of_missing {cursor : Cursor} (missing : cursor.node? = none) :
    cursor.kind = .script := by
  rw [Cursor.kind, missing]

theorem returns_expression (source : List Char) (levels : Nat) :
    Returns (expression source levels) := by
  refine returns_of_agrees (agrees_expression levels) fun cursor missing => ?_
  cases levels with
  | zero | succ levels =>
    rw [expression, expressionOf, bind_apply, here_apply]
    simp only [kind_of_missing missing]
    rfl

theorem returns_statement (source : List Char) (levels : Nat) :
    Returns (statement source levels) := by
  refine returns_of_agrees (agrees_statement levels) fun cursor missing => ?_
  rw [statement, bind_apply, here_apply]
  simp only [kind_of_missing missing]
  rfl

theorem returns_script (source : List Char) (levels : Nat) : Returns (script source levels) := by
  refine returns_of_agrees (agrees_script levels) fun cursor missing => ?_
  have childless : cursor.firstChild? = none := by
    rw [Cursor.firstChild?, missing, Option.bind_none]
  rw [script, bind_apply, here_apply]
  simp only [kind_of_missing missing, childless]
  rfl

/-- Reading gives the cursor back. Wherever in a tree an expression, a statement or a script is
read, with success or not, the cursor ends on the node that it started on; and where the depth is
counted along the way, the counter ends as it started, and what is read is the same. -/
theorem reading_gives_cursor_back {cursor : Cursor} (built : cursor.tree.Built)
    (source : List Char) :
    (∀ levels, (expression source levels cursor).2 = cursor ∧
      (statement source levels cursor).2 = cursor ∧ (script source levels cursor).2 = cursor) ∧
    ∀ depth bound, nestingLimit - depth < bound →
      CountedWalk.expression source bound ⟨cursor, depth⟩ =
        ((expression source (nestingLimit - depth) cursor).1, ⟨cursor, depth⟩) ∧
      CountedWalk.statement source bound ⟨cursor, depth⟩ =
        ((statement source (nestingLimit - depth) cursor).1, ⟨cursor, depth⟩) ∧
      CountedWalk.script source bound ⟨cursor, depth⟩ =
        ((script source (nestingLimit - depth) cursor).1, ⟨cursor, depth⟩) := by
  constructor
  next =>
    intro levels
    exact ⟨returns_expression source levels cursor built,
      returns_statement source levels cursor built, returns_script source levels cursor built⟩
  next =>
    intro depth bound enough
    rw [CountedWalk.tracks_expression enough, CountedWalk.tracks_statement enough,
      CountedWalk.tracks_script enough, returns_expression _ _ cursor built,
      returns_statement _ _ cursor built, returns_script _ _ cursor built]
    exact ⟨rfl, rfl, rfl⟩

theorem reading_gives_cursor_back_of_commaless :
    let cursor := commaless.toTree.cursor
    cursor.tree.Built ∧ nestingLimit - 7 < nestingLimit ∧
      (expression twoArguments nestingLimit cursor).2 = cursor ∧
      CountedWalk.expression twoArguments nestingLimit ⟨cursor, 7⟩ =
        (.error (.about .argumentSeparator ⟨6, 7⟩ twoArguments), ⟨cursor, 7⟩) := by
  intro cursor
  have built : cursor.tree.Built := commaless.built_toTree
  have enough : nestingLimit - 7 < nestingLimit := by decide
  obtain ⟨back, counted⟩ := reading_gives_cursor_back built twoArguments
  have refused : (expression twoArguments (nestingLimit - 7) cursor).1 =
      .error (.about .argumentSeparator ⟨6, 7⟩ twoArguments) := by
    rw [agrees_expression _ _ _ commaless.shows_cursor_toTree]
    rfl
  refine ⟨built, enough, (back nestingLimit).1, ?_⟩
  rw [(counted 7 nestingLimit enough).1, refused]

end Walk

end StackScript
