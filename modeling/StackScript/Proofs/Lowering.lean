import StackScript.Program.OfTree
import StackScript.Proofs.Except
import StackScript.Proofs.Siblings

set_option autoImplicit false

namespace StackScript

namespace Phrase

def text (source : List Char) (phrase : Phrase) : String :=
  String.ofList (phrase.span.slice source)

def complain {α : Type} (source : List Char) (complaint : Fault.Complaint) (phrase : Phrase) :
    Except CompileError α :=
  .error (.about complaint phrase.span source)

def toArguments (source : List Char) (argument : Phrase → Except CompileError Expr) :
    List Phrase → Except CompileError (List Expr)
  | [] => .ok []
  | first :: rest =>
    if first.kind = .closeParen then .ok []
    else do
      let value ← argument first
      match rest with
      | [] => .ok [value]
      | separator :: rest =>
        match separator.kind with
        | .comma => return value :: (← toArguments source argument rest)
        | .closeParen => .ok [value]
        | _ => complain source .argumentSeparator separator

def argumentList (source : List Char) (argument : Phrase → Except CompileError Expr)
    (list : Phrase) : Except CompileError (List Expr) :=
  if list.kind = .argumentList then
    match list.children with
    | [] => complain source (.malformed list.kind) list
    | _ :: rest => toArguments source argument rest
  else complain source .noArgumentList list

def toCall (source : List Char) (argument : Phrase → Except CompileError Expr) (phrase : Phrase) :
    Except CompileError Expr :=
  match phrase.children with
  | [] => complain source (.malformed phrase.kind) phrase
  | [callee] => complain source (.missing .argumentList) callee
  | callee :: list :: _ => do
    Walk.applied source phrase.span callee.span (← argumentList source argument list)

def toUnary (source : List Char) (phrase : Phrase) : Except CompileError Expr :=
  match phrase.children with
  | [] => complain source (.malformed phrase.kind) phrase
  | sign :: rest =>
    if sign.text source ≠ "-" ∧ sign.text source ≠ "+" then complain source .unaryOperator sign
    else
      match rest with
      | [] => complain source (.missing .operand) sign
      | operand :: _ =>
        if operand.kind ≠ .number then complain source .unaryOperand operand
        else do
          let literal := sign.text source ++ operand.text source
          return .number phrase.span (← Literal.read literal.toList phrase.span)

def toBinary (source : List Char) (operand : Phrase → Except CompileError Expr) (phrase : Phrase) :
    Except CompileError Expr :=
  match phrase.children with
  | [] => complain source (.malformed phrase.kind) phrase
  | left :: rest => do
    let leftValue ← operand left
    match rest with
    | [] => complain source (.missing .operator) left
    | sign :: rest =>
      match Operator.ofSymbol? (sign.text source) with
      | none => complain source .binaryOperator sign
      | some operator =>
        match rest with
        | [] => complain source (.missing .rightOperand) sign
        | right :: _ => return .binary phrase.span operator leftValue (← operand right)

def toExprOf (source : List Char) (call binary : Phrase → Except CompileError Expr)
    (phrase : Phrase) : Except CompileError Expr :=
  match phrase.kind with
  | .number => do
    return .number phrase.span (← Literal.read (phrase.span.slice source) phrase.span)
  | .variableName => .ok (.identifier phrase.span (phrase.text source))
  | .callExpression => call phrase
  | .unaryExpression => phrase.toUnary source
  | .binaryExpression => binary phrase
  | _ => complain source .expression phrase

def tooDeep (phrase : Phrase) : Except CompileError Expr :=
  .error (.fault .nestingTooDeep phrase.span)

def toExpr (source : List Char) : (levels : Nat) → Phrase → Except CompileError Expr
  | 0 => toExprOf source tooDeep tooDeep
  | levels + 1 =>
    toExprOf source (toCall source (toExpr source levels)) (toBinary source (toExpr source levels))

def toStatement (source : List Char) (levels : Nat) (phrase : Phrase) :
    Except CompileError Statement :=
  match phrase.kind with
  | .assignStatement =>
    match phrase.children with
    | [] => complain source (.malformed phrase.kind) phrase
    | target :: rest =>
      if target.kind ≠ .variableName then complain source .assignTarget target
      else
        match rest with
        | [] => complain source (.missing .assignSign) target
        | [sign] => complain source (.missing .value) sign
        | _ :: value :: _ => do
          return .define phrase.span (target.text source) (← value.toExpr source levels)
  | .expressionStatement =>
    match phrase.children with
    | [] => complain source (.malformed phrase.kind) phrase
    | value :: _ => do
      return .expression phrase.span (← value.toExpr source levels)
  | _ => complain source .statement phrase

def toProgram (source : List Char) (levels : Nat) (phrase : Phrase) : Except CompileError Program :=
  if phrase.kind ≠ .script then complain source .notProgram phrase
  else if phrase.children.isEmpty then .error (.fault .noStatements phrase.span)
  else do
    return ⟨← phrase.children.mapM (toStatement source levels)⟩

end Phrase

namespace Walk

open Cursor

variable {α β : Type} {source : List Char} {origin cursor moved : Cursor} {phrase : Phrase}

-- Started at the cursor, the walk gives the result and ends on a child of the node under `origin`.
def Yields (origin : Cursor) (walk : Walk α) (cursor : Cursor) (result : Except CompileError α) :
    Prop :=
  ∃ last, walk cursor = (result, last) ∧ last.move .parent = (true, origin)

theorem Yields.bind_ok {first : Walk α} {next : α → Walk β} {value : α}
    {result : Except CompileError β} (done : first cursor = (.ok value, moved))
    (rest : Yields origin (next value) moved result) :
    Yields origin (first >>= next) cursor result := by
  obtain ⟨last, ran, back⟩ := rest
  exact ⟨last, by rw [bind_apply, done]; exact ran, back⟩

theorem Yields.bind_error {first : Walk α} {next : α → Walk β} {error : CompileError}
    (failed : first cursor = (.error error, moved)) (back : moved.move .parent = (true, origin)) :
    Yields origin (first >>= next) cursor (.error error) :=
  ⟨moved, by rw [bind_apply, failed], back⟩

theorem Yields.bind_pure {first : Walk α} {outcome : Except CompileError α} (after : α → β)
    (done : Yields origin first cursor outcome) :
    Yields origin (first >>= fun value => Pure.pure (after value)) cursor
      (outcome >>= fun value => Pure.pure (after value)) := by
  obtain ⟨last, ran, back⟩ := done
  cases outcome with
  | error error => exact bind_error ran back
  | ok value => exact bind_ok ran ⟨last, rfl, back⟩

theorem Yields.bind_here {first : Walk α} {next : α → Walk β} {outcome : Except CompileError α}
    {result : α → Except CompileError β} (done : first cursor = (outcome, cursor))
    (back : cursor.move .parent = (true, origin))
    (rest : ∀ value, Yields origin (next value) cursor (result value)) :
    Yields origin (first >>= next) cursor (outcome >>= result) := by
  cases outcome with
  | error error => exact bind_error done back
  | ok value => exact bind_ok done (rest value)

theorem Yields.pure (value : α) (back : cursor.move .parent = (true, origin)) :
    Yields origin (Pure.pure value) cursor (.ok value) :=
  ⟨cursor, rfl, back⟩

theorem Yields.complain {complaint : Fault.Complaint} {left : Nat}
    (child : ChildOf origin cursor phrase left) :
    Yields origin (Walk.complain source complaint : Walk α) cursor
      (phrase.complain source complaint) :=
  ⟨cursor, by rw [Walk.complain, Phrase.complain, child.shows.span_eq], child.back⟩

theorem text_eq (shows : cursor.Shows phrase) :
    text source cursor = (.ok (phrase.text source), cursor) := by
  rw [text, Phrase.text, shows.span_eq]

theorem complain_eq {complaint : Fault.Complaint} (shows : cursor.Shows phrase) :
    (complain source complaint : Walk α) cursor = (phrase.complain source complaint, cursor) := by
  rw [complain, Phrase.complain, shows.span_eq]

theorem advance_of_step {part : Fault.Part} (step : cursor.move .next = (true, moved)) :
    advance source part cursor = (.ok (), moved) := by
  simp [advance, bind_apply, move, step]

theorem advance_of_stop {part : Fault.Part} (shows : cursor.Shows phrase)
    (stop : cursor.move .next = (false, cursor)) :
    advance source part cursor = (phrase.complain source (.missing part), cursor) := by
  simp [advance, bind_apply, move, stop, complain_eq shows]

theorem descend_nil {walk : Walk α} (shows : cursor.Shows phrase) (none : phrase.children = []) :
    descend source walk cursor = (phrase.complain source (.malformed phrase.kind), cursor) := by
  rw [descend, shows.no_child none]
  simp [complain_eq shows, shows.kind_eq]

theorem descend_cons {walk : Walk α} {first : Phrase} {rest : List Phrase}
    {result : Except CompileError α} (shows : cursor.Shows phrase)
    (some : phrase.children = first :: rest)
    (inside : ∀ child, Among cursor child first rest → Yields cursor walk child result) :
    descend source walk cursor = (result, cursor) := by
  obtain ⟨child, down, among⟩ := shows.first_child some
  obtain ⟨last, ran, back⟩ := inside child among
  rw [descend, down]
  simp [ran, back]

def Agrees (walk : Walk α) (read : Phrase → Except CompileError α) : Prop :=
  ∀ cursor phrase, cursor.Shows phrase → walk cursor = (read phrase, cursor)

theorem here_apply (cursor : Cursor) : here cursor = (.ok cursor, cursor) := rfl

theorem move_apply {step : Move} {possible : Bool} (result : cursor.move step = (possible, moved)) :
    move step cursor = (.ok possible, moved) := by
  rw [move, result]

section Expressions

variable {operand : Walk Expr} {read : Phrase → Except CompileError Expr}

theorem yields_argumentsUpTo (agrees : Agrees operand read) {rest : List Phrase} {bound : Nat}
    (among : Among origin cursor phrase rest) (enough : rest.length ≤ bound) :
    Yields origin (argumentsUpTo source operand bound) cursor
      (Phrase.toArguments source read rest) := by
  -- One round passes an argument and the separator behind it.
  induction bound generalizing cursor phrase rest with
  | zero =>
    obtain rfl := List.length_eq_zero_iff.mp (Nat.le_zero.mp enough)
    exact .pure [] among.child.back
  | succ bound ih =>
    rw [argumentsUpTo]
    cases among with
    | last child stop =>
      refine .bind_ok (move_apply stop) (.bind_ok (here_apply _) ?_)
      exact .pure [] child.back
    | before child step more =>
      refine .bind_ok (move_apply step) (.bind_ok (here_apply _) ?_)
      rw [Phrase.toArguments, more.child.shows.kind_eq]
      split
      next closed =>
        rw [if_pos (by simpa using closed)]
        exact .pure [] more.child.back
      next open_ =>
        rw [if_neg (by simpa using open_)]
        refine .bind_here (agrees _ _ more.child.shows) more.child.back fun value => ?_
        cases more with
        | last argument stop =>
          refine .bind_ok (move_apply stop) ?_
          exact .pure [value] argument.back
        | @before _ _ _ next _ argument step more =>
          refine .bind_ok (move_apply step) (.bind_ok (here_apply _) ?_)
          simp only [List.length_cons] at enough
          simp only [more.child.shows.kind_eq]
          cases next.kind with
          | comma => exact .bind_pure _ (ih more (by omega))
          | closeParen => exact .pure [value] more.child.back
          | _ => exact .complain more.child

theorem agrees_arguments (agrees : Agrees operand read) :
    Agrees (arguments source operand) (Phrase.argumentList source read) := by
  intro cursor phrase shows
  rw [arguments, bind_apply, here_apply]
  simp only [shows.kind_eq, Phrase.argumentList]
  split
  next =>
    split
    next none => exact descend_nil shows none
    next opening rest some =>
      refine descend_cons shows some fun child among => ?_
      refine .bind_ok (here_apply _) ?_
      exact yields_argumentsUpTo agrees among (Nat.le_of_eq among.child.left.symm)
  next => exact complain_eq shows

theorem agrees_call (agrees : Agrees operand read) :
    Agrees (call source operand) (Phrase.toCall source read) := by
  intro cursor phrase shows
  rw [call, bind_apply, here_apply]
  simp only [shows.span_eq, Phrase.toCall]
  split
  next none => exact descend_nil shows none
  next callee single =>
    -- Failing inside, a walk still goes back to the node that it was started on.
    refine descend_cons shows single fun child among => ?_
    refine .bind_ok (here_apply _) ?_
    cases among with
    | last child stop =>
      exact .bind_error (advance_of_stop child.shows stop) child.back
  next callee list others some =>
    refine descend_cons shows some fun child among => ?_
    refine .bind_ok (here_apply _) ?_
    cases among with
    | before child step more =>
      refine .bind_ok (advance_of_step step) ?_
      refine .bind_here (agrees_arguments agrees _ _ more.child.shows) more.child.back ?_
      intro values
      rw [child.shows.span_eq]
      exact ⟨_, rfl, more.child.back⟩

theorem agrees_unary : Agrees (unary source) (Phrase.toUnary source) := by
  intro cursor phrase shows
  rw [unary, bind_apply, here_apply]
  simp only [shows.span_eq, Phrase.toUnary]
  split
  next none => exact descend_nil shows none
  next sign rest some =>
    refine descend_cons shows some fun child among => ?_
    refine .bind_ok (text_eq among.child.shows) ?_
    split
    next unsupported => exact .bind_error (complain_eq among.child.shows) among.child.back
    next supported =>
      cases among with
      | last child stop => exact .bind_error (advance_of_stop child.shows stop) child.back
      | before child step more =>
        refine .bind_ok (advance_of_step step) (.bind_ok (here_apply _) ?_)
        simp only [more.child.shows.kind_eq]
        split
        next => exact .bind_error (complain_eq more.child.shows) more.child.back
        next =>
          refine .bind_ok (text_eq more.child.shows) ?_
          exact .bind_pure _ ⟨_, rfl, more.child.back⟩

theorem agrees_binary (agrees : Agrees operand read) :
    Agrees (binary source operand) (Phrase.toBinary source read) := by
  intro cursor phrase shows
  rw [binary, bind_apply, here_apply]
  simp only [shows.span_eq, Phrase.toBinary]
  split
  next none => exact descend_nil shows none
  next left rest some =>
    refine descend_cons shows some fun child among => ?_
    refine .bind_here (agrees _ _ among.child.shows) among.child.back fun leftValue => ?_
    cases among with
    | last child stop => exact .bind_error (advance_of_stop child.shows stop) child.back
    | before child step more =>
      refine .bind_ok (advance_of_step step) (.bind_ok (text_eq more.child.shows) ?_)
      split
      next unknown =>
        simp only [unknown]
        exact .complain more.child
      next operator known =>
        simp only [known]
        cases more with
        | last sign stop => exact .bind_error (advance_of_stop sign.shows stop) sign.back
        | before sign step more =>
          refine .bind_ok (advance_of_step step) ?_
          exact .bind_pure _ ⟨_, agrees _ _ more.child.shows, more.child.back⟩

theorem agrees_expressionOf {call binary : Walk Expr}
    {readCall readBinary : Phrase → Except CompileError Expr} (agreesCall : Agrees call readCall)
    (agreesBinary : Agrees binary readBinary) :
    Agrees (expressionOf source call binary) (Phrase.toExprOf source readCall readBinary) := by
  intro cursor phrase shows
  rw [expressionOf, bind_apply, here_apply]
  simp only [shows.kind_eq, shows.span_eq, Phrase.toExprOf]
  cases phrase.kind with
  | number =>
    refine (bind_apply ..).trans ?_
    rw [ofExcept]
    cases Literal.read (phrase.span.slice source) phrase.span <;> rfl
  | variableName =>
    refine (bind_apply ..).trans ?_
    rw [text_eq shows]
    rfl
  | callExpression => exact agreesCall cursor phrase shows
  | unaryExpression => exact agrees_unary cursor phrase shows
  | binaryExpression => exact agreesBinary cursor phrase shows
  | _ => exact complain_eq shows

theorem agrees_tooDeep : Agrees tooDeep Phrase.tooDeep := by
  intro cursor phrase shows
  rw [tooDeep, bind_apply, here_apply]
  simp only [shows.span_eq, fail, Phrase.tooDeep]

theorem agrees_expression (levels : Nat) :
    Agrees (expression source levels) (Phrase.toExpr source levels) := by
  induction levels with
  | zero => exact agrees_expressionOf agrees_tooDeep agrees_tooDeep
  | succ levels ih => exact agrees_expressionOf (agrees_call ih) (agrees_binary ih)

end Expressions

theorem agrees_statement (levels : Nat) :
    Agrees (statement source levels) (Phrase.toStatement source levels) := by
  intro cursor phrase shows
  rw [statement, bind_apply, here_apply]
  simp only [shows.kind_eq, shows.span_eq, Phrase.toStatement]
  cases known : phrase.kind with
  | assignStatement =>
    cases some : phrase.children with
    | nil => exact (descend_nil shows some).trans (by rw [known])
    | cons target rest =>
      refine descend_cons shows some fun child among => ?_
      refine .bind_ok (here_apply _) ?_
      simp only [among.child.shows.kind_eq]
      split
      next => exact .bind_error (complain_eq among.child.shows) among.child.back
      next =>
        refine .bind_ok (text_eq among.child.shows) ?_
        cases among with
        | last child stop => exact .bind_error (advance_of_stop child.shows stop) child.back
        | before child step more =>
          refine .bind_ok (advance_of_step step) ?_
          cases more with
          | last sign stop => exact .bind_error (advance_of_stop sign.shows stop) sign.back
          | before sign step more =>
            refine .bind_ok (advance_of_step step) ?_
            exact .bind_pure _ ⟨_, agrees_expression levels _ _ more.child.shows, more.child.back⟩
  | expressionStatement =>
    cases some : phrase.children with
    | nil => exact (descend_nil shows some).trans (by rw [known])
    | cons value rest =>
      refine descend_cons shows some fun child among => ?_
      exact .bind_pure _ ⟨_, agrees_expression levels _ _ among.child.shows, among.child.back⟩
  | _ => exact complain_eq shows

theorem yields_statementsUpTo {levels : Nat} {rest : List Phrase}
    (among : Among origin cursor phrase rest) :
    Yields origin (statementsUpTo source levels rest.length) cursor
      ((phrase :: rest).mapM (Phrase.toStatement source levels)) := by
  induction among with
  | @last cursor phrase child stop =>
    have single : [phrase].mapM (Phrase.toStatement source levels) =
        phrase.toStatement source levels >>= fun value => Pure.pure [value] := by
      simp
    rw [single, List.length_nil, statementsUpTo]
    exact .bind_pure _ ⟨_, agrees_statement levels _ _ child.shows, child.back⟩
  | @before cursor following phrase next rest child step more ih =>
    rw [List.mapM_cons, List.length_cons, statementsUpTo]
    refine .bind_here (agrees_statement levels _ _ child.shows) child.back fun value => ?_
    refine .bind_ok (move_apply step) ?_
    exact .bind_pure _ ih

theorem agrees_script (levels : Nat) :
    Agrees (script source levels) (Phrase.toProgram source levels) := by
  intro cursor phrase shows
  rw [script, bind_apply, here_apply]
  simp only [shows.kind_eq, shows.span_eq, Phrase.toProgram]
  split
  next => exact complain_eq shows
  next =>
    cases children : phrase.children with
    | nil =>
      rw [shows.firstChild?_eq_none children]
      rfl
    | cons first rest =>
      obtain ⟨id, known, -⟩ := shows.exists_first_child children
      rw [known]
      change descend source (here >>= fun place => statementsUpTo source levels
        place.siblingsLeft >>= fun list => pure (Program.mk list)) cursor = _
      refine descend_cons shows children fun child among => ?_
      refine .bind_ok (here_apply child) ?_
      rw [among.child.left]
      exact .bind_pure _ (yields_statementsUpTo among)

/-- A walk reads what the phrase of its node gives by itself, wherever the phrase stands. -/
theorem reads_subtree_alone {tree : Tree} {id : Nat} {node : Tree.Node} (built : tree.Built)
    (found : tree.node? id = some node) :
    ∃ phrase phrases, phrase = .node node.kind node.span phrases ∧
      tree.ShowsAll node.children phrases ∧ tree.phrase id = some phrase ∧
      ∀ (source : List Char) (levels : Nat),
        ((expression source levels ⟨tree, some id⟩).1 = phrase.toExpr source levels ∧
          (statement source levels ⟨tree, some id⟩).1 = phrase.toStatement source levels ∧
          (script source levels ⟨tree, some id⟩).1 = phrase.toProgram source levels) ∧
        ∀ (other : Tree) (place : Nat), other.Built → other.phrase place = tree.phrase id →
          (expression source levels ⟨other, some place⟩).1 =
              (expression source levels ⟨tree, some id⟩).1 ∧
            (statement source levels ⟨other, some place⟩).1 =
              (statement source levels ⟨tree, some id⟩).1 ∧
            (script source levels ⟨other, some place⟩).1 =
              (script source levels ⟨tree, some id⟩).1 := by
  obtain ⟨phrases, shown, children⟩ := built.linked.phrase_eq found
  have shows : Shows ⟨tree, some id⟩ (.node node.kind node.span phrases) :=
    ⟨built.linked, id, rfl, shown⟩
  refine ⟨_, phrases, rfl, children, shown, fun source levels => ⟨⟨?_, ?_, ?_⟩, ?_⟩⟩
  next => rw [agrees_expression levels _ _ shows]
  next => rw [agrees_statement levels _ _ shows]
  next => rw [agrees_script levels _ _ shows]
  next =>
    intro other place otherBuilt same
    have otherShows : Shows ⟨other, some place⟩ (.node node.kind node.span phrases) :=
      ⟨otherBuilt.linked, place, rfl, same.trans shown⟩
    rw [agrees_expression levels _ _ shows, agrees_expression levels _ _ otherShows,
      agrees_statement levels _ _ shows, agrees_statement levels _ _ otherShows,
      agrees_script levels _ _ shows, agrees_script levels _ _ otherShows]
    exact ⟨rfl, rfl, rfl⟩

def twoArguments : List Char :=
  "abs(1 2)".toList

-- A call with no comma between its arguments, as no parser gives it.
def commaless : Phrase :=
  .node .callExpression ⟨0, 8⟩
    [.leaf .variableName ⟨0, 3⟩,
      .node .argumentList ⟨3, 8⟩
        [.leaf .openParen ⟨3, 4⟩, .leaf .number ⟨4, 5⟩, .leaf .number ⟨6, 7⟩,
          .leaf .closeParen ⟨7, 8⟩]]

theorem reads_subtree_of_commaless :
    let alone := commaless.toTree
    let inside := (Phrase.node .expressionStatement ⟨0, 8⟩ [commaless]).toTree
    alone.Built ∧ alone.node? 6 = some ⟨.callExpression, ⟨0, 8⟩, [0, 5], none, 0⟩ ∧
      (expression twoArguments nestingLimit ⟨alone, some 6⟩).1 =
        .error (.about .argumentSeparator ⟨6, 7⟩ twoArguments) ∧
      (expression twoArguments nestingLimit ⟨inside, some 6⟩).1 =
        .error (.about .argumentSeparator ⟨6, 7⟩ twoArguments) := by
  intro alone inside
  have found : alone.node? 6 = some ⟨.callExpression, ⟨0, 8⟩, [0, 5], none, 0⟩ := by decide
  have bound : ∀ below ≤ 6, below < alone.nodes.size := by decide
  obtain ⟨phrase, -, -, -, shown, reads⟩ := reads_subtree_alone commaless.built_toTree found
  obtain ⟨⟨here, -⟩, there⟩ := reads twoArguments nestingLimit
  have same : inside.phrase 6 = alone.phrase 6 :=
    Tree.phrase_congr fun below low =>
      Tree.map_content_push (bound below low) (by simp) _ _
  obtain rfl : commaless = phrase := by
    rw [← Option.some.injEq, ← shown]
    exact commaless.phrase_toTree.symm
  have refused : commaless.toExpr twoArguments nestingLimit =
      .error (.about .argumentSeparator ⟨6, 7⟩ twoArguments) := rfl
  have moved := (there inside 6 (Phrase.built_toTree _) same).1
  exact ⟨commaless.built_toTree, found, here.trans refused, moved.trans (here.trans refused)⟩

end Walk

theorem Program.ofTree_toTree (phrase : Phrase) (source : List Char) :
    Program.ofTree phrase.toTree source = phrase.toProgram source nestingLimit := by
  rw [ofTree, Walk.agrees_script nestingLimit _ _ phrase.shows_cursor_toTree]

theorem Program.ofSource_eq {source : List Char} (nonempty : source ≠ []) :
    Program.ofSource source =
      Phrase.ofSource source >>= fun phrase => phrase.toProgram source nestingLimit := by
  rw [ofSource, if_neg (by simpa using nonempty), Tree.ofSource]
  cases Phrase.ofSource source with
  | error error => rfl
  | ok phrase => exact ofTree_toTree phrase source

end StackScript
