import StackScript.Proofs.Branches
import StackScript.Proofs.Concatenation
import StackScript.Proofs.Subexpressions

set_option autoImplicit false

namespace StackScript

def Tree.Step.operates (step : Step) : Bool :=
  step.passes .binaryExpression || step.passes .callExpression

namespace Phrase

/-- An operation has no more than its operands and a call no more than its arguments, of which the
closing parenthesis is the end. -/
structure Arranged (phrase : Phrase) : Prop where
  unary : phrase.kind = .unaryExpression → phrase.children.length ≤ 2
  binary : phrase.kind = .binaryExpression → phrase.children.length ≤ 3
  call : phrase.kind = .callExpression → phrase.children.length ≤ 2
  list : phrase.kind = .argumentList → ∃ opening front closing,
    phrase.children = opening :: (front ++ [closing]) ∧ opening.kind.isToken = true ∧
      closing.kind.isToken = true ∧ ∀ child ∈ front, child.kind ≠ .closeParen

structure Tidy (phrase : Phrase) : Prop where
  every : phrase.Every Arranged
  inner : phrase.kind ≠ .closeParen

theorem every_arranged_leaf {kind : Tree.Kind} (isToken : kind.isToken = true) (span : Span) :
    (leaf kind span).Every Arranged := by
  refine .node ⟨?_, ?_, ?_, ?_⟩ (by simp)
  all_goals
    intro same
    cases same
    cases isToken

theorem tidy_leaf {kind : Tree.Kind} (isToken : kind.isToken = true) (inner : kind ≠ .closeParen)
    (span : Span) : (leaf kind span).Tidy :=
  ⟨every_arranged_leaf isToken span, inner⟩

theorem tidy_wrap {kind : Tree.Kind} {first : Phrase} {rest : List Phrase}
    (inner : kind ≠ .closeParen) (here : Arranged (wrap kind first rest))
    (inside : ∀ child ∈ first :: rest, child.Every Arranged) : (wrap kind first rest).Tidy :=
  ⟨.node here inside, inner⟩

theorem tidy_unary {sign operand : Phrase} (tidySign : sign.Tidy) (tidyOperand : operand.Tidy) :
    (wrap .unaryExpression sign [operand]).Tidy :=
  tidy_wrap (by decide) ⟨by simp, by simp, by simp, by simp⟩
    (by simpa using ⟨tidySign.every, tidyOperand.every⟩)

theorem tidy_binary {left sign right : Phrase} (tidyLeft : left.Tidy) (tidySign : sign.Tidy)
    (tidyRight : right.Tidy) : (wrap .binaryExpression left [sign, right]).Tidy :=
  tidy_wrap (by decide) ⟨by simp, by simp, by simp, by simp⟩
    (by simpa using ⟨tidyLeft.every, tidySign.every, tidyRight.every⟩)

theorem tidy_call {callee list : Phrase} (tidyCallee : callee.Tidy) (tidyList : list.Tidy) :
    (wrap .callExpression callee [list]).Tidy :=
  tidy_wrap (by decide) ⟨by simp, by simp, by simp, by simp⟩
    (by simpa using ⟨tidyCallee.every, tidyList.every⟩)

theorem tidy_list (opening closing : Span) (front : List Phrase)
    (tidy : ∀ child ∈ front, child.Tidy) : Tidy
      (wrap .argumentList (.leaf .openParen opening) (front ++ [.leaf .closeParen closing])) := by
  refine tidy_wrap (by decide) ⟨by simp, by simp, by simp, fun _ => ?_⟩ ?_
  next => exact ⟨_, front, _, rfl, rfl, rfl, fun child member => (tidy child member).inner⟩
  next =>
    intro child member
    simp only [List.mem_cons, List.mem_append, List.not_mem_nil, or_false] at member
    rcases member with rfl | member | rfl
    next => exact every_arranged_leaf rfl opening
    next => exact (tidy child member).every
    next => exact every_arranged_leaf rfl closing

end Phrase

namespace Derivation

open Phrase

def Tidies : {category : Category} → Derivation category → Prop
  | .form _, derivation => Tidy derivation.tree
  | .links _, links => ∀ left : Phrase, left.Tidy → Tidy (links.tree left)
  | .applications, applications => ∀ callee : Phrase, callee.Tidy → Tidy (applications.tree callee)
  | .moreArguments, others => ∀ phrase ∈ others.tree, Tidy phrase

theorem tidies {category : Category} (derivation : Derivation category) : derivation.Tidies := by
  induction derivation with
  | not word operand ih => exact tidy_unary (tidy_leaf rfl (by decide) word) ih
  | compared operands ih => exact ih
  | chain first links ihFirst ihLinks => exact ihLinks _ ihFirst
  | noLink => exact fun left tidy => tidy
  | @link tier operator fits operand rest ihOperand ihRest =>
    intro left tidy
    have sign : (Phrase.leaf tier.operatorKind operator.span).Tidy := by
      cases tier <;> exact tidy_leaf rfl (by decide) operator.span
    exact ihRest _ (tidy_binary tidy sign ihOperand)
  | unary sign fits operand ih => exact tidy_unary (tidy_leaf rfl (by decide) sign.span) ih
  | unsigned power ih => exact ih
  | base root ih => exact ih
  | raised root sign exponent ihRoot ihExponent =>
    exact tidy_binary ihRoot (tidy_leaf rfl (by decide) sign) ihExponent
  | call callee applications ihCallee ihApplications => exact ihApplications _ ihCallee
  | noApplication => exact fun callee tidy => tidy
  | application list rest ihList ihRest =>
    exact fun callee tidy => ihRest _ (tidy_call tidy ihList)
  | noArguments opening closing => exact tidy_list opening closing [] (by simp)
  | arguments opening first others trailing closing ihFirst ihOthers =>
    have front : ∀ child ∈ first.tree :: (others.tree ++ trailing.toList.map (.leaf .comma)),
        Tidy child := by
      intro child member
      simp only [List.mem_cons, List.mem_append, List.mem_map] at member
      rcases member with rfl | member | ⟨comma, -, rfl⟩
      next => exact ihFirst
      next => exact ihOthers child member
      next => exact tidy_leaf rfl (by decide) comma
    simpa [Tidies, tree] using tidy_list opening closing _ front
  | noMore => exact fun phrase member => absurd member List.not_mem_nil
  | more comma argument rest ihArgument ihRest =>
    intro phrase member
    rcases List.mem_cons.mp member with rfl | member
    next => exact tidy_leaf rfl (by decide) comma
    rcases List.mem_cons.mp member with rfl | member
    next => exact ihArgument
    next => exact ihRest phrase member
  | leaf token kind fits =>
    refine tidy_leaf (isToken_of_leaf fits) ?_ token.span
    rintro rfl
    unfold Token.Kind.leaf? at fits
    split at fits <;> cases fits
  | parenthesized opening inner closing ih =>
    refine tidy_wrap (by decide) ⟨by simp, by simp, by simp, by simp⟩ ?_
    simpa using ⟨every_arranged_leaf rfl opening, Tidy.every ih, every_arranged_leaf rfl closing⟩

theorem Statement.every_arranged (statement : Statement) : statement.tree.Every Arranged := by
  cases statement with
  | pass word =>
    exact .node ⟨by simp [kind], by simp [kind], by simp [kind], by simp [kind]⟩
      (by simpa using every_arranged_leaf rfl word)
  | assign name sign value =>
    exact .node ⟨by simp [kind], by simp [kind], by simp [kind], by simp [kind]⟩
      (by simpa using ⟨every_arranged_leaf rfl name, every_arranged_leaf rfl sign,
        Tidy.every value.tidies⟩)
  | expression value =>
    exact .node ⟨by simp [kind], by simp [kind], by simp [kind], by simp [kind]⟩
      (by simpa using Tidy.every value.tidies)

theorem Lines.exists_statement (lines : Lines) :
    ∀ phrase ∈ lines.trees, ∃ statement : Statement, phrase = statement.tree := by
  induction lines with
  | last statement after => simp [trees]
  | next statement between apart rest ih => simpa [trees] using ih

theorem Script.exists_statement (script : Script) :
    ∀ phrase ∈ script.trees, ∃ statement : Statement, phrase = statement.tree := by
  obtain ⟨before, lines⟩ := script
  cases lines with
  | none => simp [trees]
  | some lines => exact lines.exists_statement

end Derivation

namespace Phrase

structure Readable (source : List Char) (phrase : Phrase) : Prop extends
    Arranged phrase, Legible source phrase where
  plain : phrase.kind.isToken = true → phrase.children = []

variable {source : List Char} {phrase : Phrase} {levels bound : Nat} {expr : Expr}

theorem bounded_of_isToken (readable : phrase.Every (Readable source))
    (isToken : phrase.kind.isToken = true) : phrase.Bounded Tree.Step.operates bound := by
  obtain ⟨kind, span, children⟩ := phrase
  obtain rfl : children = [] := readable.here.plain isToken
  apply bounded_leaf
  cases kind <;> first | rfl | cases isToken

theorem comma_or_read {argument : Phrase → Except CompileError Expr} {closing : Phrase} :
    (front : List Phrase) → (∀ child ∈ front, child.kind ≠ .closeParen) → (values : List Expr) →
    toArguments source argument (front ++ [closing]) = .ok values →
    ∀ child ∈ front, child.kind = .comma ∨ ∃ value, argument child = .ok value
  | [], _, _, _ => by simp
  | [first], inner, values, read => by
    rw [List.cons_append, toArguments, if_neg (inner first (by simp))] at read
    obtain ⟨value, readFirst, -⟩ := bind_eq_ok.mp read
    simpa using .inr ⟨value, readFirst⟩
  | first :: separator :: rest, inner, values, read => by
    simp only [List.forall_mem_cons] at inner ⊢
    rw [List.cons_append, toArguments, if_neg inner.1] at read
    obtain ⟨value, readFirst, next⟩ := bind_eq_ok.mp read
    refine ⟨.inr ⟨value, readFirst⟩, ?_⟩
    simp only [List.cons_append] at next
    split at next
    next comma =>
      obtain ⟨others, readRest, -⟩ := bind_eq_ok.mp next
      exact ⟨.inl comma, comma_or_read rest inner.2.2 others readRest⟩
    next closed => exact absurd closed inner.2.1
    next => simp [complain] at next

theorem kind_of_toExpr (read : phrase.toExpr source levels = .ok expr) :
    phrase.kind.isToken = true ∨ phrase.kind = .unaryExpression ∨
      phrase.kind = .binaryExpression ∨ phrase.kind = .callExpression := by
  cases lowered_of_toExpr read with
  | number kind | signed kind | identifier kind | binary kind | unaryCall kind | binaryCall kind =>
    simp [kind, Tree.Kind.isToken]

theorem exists_number_of_toUnary (read : phrase.toUnary source = .ok expr) :
    ∃ sign operand rest, phrase.children = sign :: operand :: rest ∧ operand.kind = .number := by
  unfold toUnary at read
  split at read
  next => simp [complain] at read
  next sign rest children =>
    split at read
    next => simp [complain] at read
    split at read
    next => simp [complain] at read
    next operand behind =>
      split at read
      next => simp [complain] at read
      next number => exact ⟨sign, operand, behind, children, not_not.mp number⟩

theorem bounded_of_toUnary (readable : phrase.Every (Readable source))
    (kind : phrase.kind = .unaryExpression) (read : phrase.toUnary source = .ok expr) :
    phrase.Bounded Tree.Step.operates bound := by
  obtain ⟨sign, operand, rest, children, number⟩ := exists_number_of_toUnary read
  have arity := readable.here.unary kind
  rw [children] at arity
  obtain rfl : rest = [] := List.eq_nil_of_length_eq_zero (by grind)
  have isToken := readable.here.sign kind sign (by simp [children])
  have inside := readable.inside
  obtain ⟨_, span, _⟩ := phrase
  obtain rfl : _ = Tree.Kind.unaryExpression := kind
  obtain rfl : _ = [sign, operand] := children
  refine bounded_of_children (fun _ => rfl) ?_
  simp only [Phrase.children, List.forall_mem_cons] at inside ⊢
  exact ⟨bounded_of_isToken inside.1 isToken, bounded_of_isToken inside.2.1 (by rw [number]; rfl),
    by simp⟩

theorem bounded_of_toBinary (readable : phrase.Every (Readable source))
    (kind : phrase.kind = .binaryExpression) {operand : Phrase → Except CompileError Expr}
    (lower : ∀ child value, child.Every (Readable source) → operand child = .ok value →
      child.Bounded Tree.Step.operates bound)
    (read : phrase.toBinary source operand = .ok expr) :
    phrase.Bounded Tree.Step.operates (bound + 1) := by
  obtain ⟨left, sign, right, rest, operator, first, second, children, -, readLeft, readRight, -⟩ :=
    toBinary_eq_ok.mp read
  have arity := readable.here.binary kind
  rw [children] at arity
  obtain rfl : rest = [] := List.eq_nil_of_length_eq_zero (by grind)
  have isToken := readable.here.operator kind sign (by simp [children])
  have inside := readable.inside
  obtain ⟨_, span, _⟩ := phrase
  obtain rfl : _ = [left, sign, right] := children
  apply bounded_succ
  simp only [Phrase.children, List.forall_mem_cons] at inside ⊢
  exact ⟨lower left first inside.1 readLeft, bounded_of_isToken inside.2.1 isToken,
    lower right second inside.2.2.1 readRight, by simp⟩

theorem bounded_of_argumentList {list : Phrase} (readable : list.Every (Readable source))
    {argument : Phrase → Except CompileError Expr}
    (lower : ∀ child value, child.Every (Readable source) → argument child = .ok value →
      child.Bounded Tree.Step.operates bound) {values : List Expr}
    (read : argumentList source argument list = .ok values) :
    list.Bounded Tree.Step.operates bound := by
  obtain ⟨kind, _, _, children, readInside⟩ := argumentList_eq_ok.mp read
  obtain ⟨opening, front, closing, arranged, opens, closes, inner⟩ := readable.here.list kind
  obtain ⟨rfl, rfl⟩ := List.cons.inj (children.symm.trans arranged)
  have inside := readable.inside
  obtain ⟨_, span, _⟩ := list
  obtain rfl : _ = Tree.Kind.argumentList := kind
  obtain rfl : _ = _ :: (front ++ [closing]) := arranged
  refine bounded_of_children (fun _ => rfl) fun child member => ?_
  have readableChild := inside child member
  simp only [List.mem_cons, List.mem_append, List.not_mem_nil, or_false] at member
  rcases member with rfl | member | rfl
  next => exact bounded_of_isToken readableChild opens
  next =>
    rcases comma_or_read front inner values readInside child member with comma | ⟨value, readChild⟩
    next => exact bounded_of_isToken readableChild (by rw [comma]; rfl)
    next => exact lower child value readableChild readChild
  next => exact bounded_of_isToken readableChild closes

theorem exists_name_of_applied {span callee : Span} {values : List Expr}
    (read : Walk.applied source span callee values = .ok expr) :
    ∃ builtin : Builtin, String.ofList (callee.slice source) = builtin.name := by
  have named {arity : Nat} {builtin : Builtin}
      (found : Builtin.lookup? (String.ofList (callee.slice source)) arity = some builtin) :
      ∃ builtin : Builtin, String.ofList (callee.slice source) = builtin.name := by
    have passed := List.find?_some found
    simp only [Bool.and_eq_true, decide_eq_true_eq] at passed
    exact ⟨builtin, passed.1.symm⟩
  unfold Walk.applied at read
  split at read
  next =>
    split at read
    next found => exact named found
    next => cases read
  next =>
    split at read
    next found => exact named found
    next => cases read
  next => cases read

theorem bounded_of_toCall (readable : phrase.Every (Readable source))
    (kind : phrase.kind = .callExpression) {argument : Phrase → Except CompileError Expr}
    (lower : ∀ child value, child.Every (Readable source) → argument child = .ok value →
      child.Bounded Tree.Step.operates bound)
    (read : phrase.toCall source argument = .ok expr) :
    phrase.Bounded Tree.Step.operates (bound + 1) := by
  obtain ⟨callee, list, rest, values, children, readList, applied⟩ := toCall_eq_ok.mp read
  have arity := readable.here.call kind
  rw [children] at arity
  obtain rfl : rest = [] := List.eq_nil_of_length_eq_zero (by grind)
  -- The callee is a builtin's name, so it is no phrase of several tokens.
  obtain ⟨builtin, named⟩ := exists_name_of_applied applied
  have isToken : callee.kind.isToken = true := by
    rcases readable.here.callee kind callee (by simp [children]) with isToken | unnamed
    next => exact isToken
    next => exact absurd named (unnamed builtin)
  have inside := readable.inside
  obtain ⟨_, span, _⟩ := phrase
  obtain rfl : _ = [callee, list] := children
  apply bounded_succ
  simp only [Phrase.children, List.forall_mem_cons] at inside ⊢
  exact ⟨bounded_of_isToken inside.1 isToken, bounded_of_argumentList inside.2.1 lower readList,
    by simp⟩

theorem bounded_of_toExpr (readable : phrase.Every (Readable source))
    (read : phrase.toExpr source levels = .ok expr) : phrase.Bounded Tree.Step.operates levels := by
  induction levels generalizing phrase expr with
  | zero =>
    rcases kind_of_toExpr read with isToken | unary | binary | call
    next => exact bounded_of_isToken readable isToken
    next => exact bounded_of_toUnary readable unary (toExpr_of_unary unary ▸ read)
    next => simp [toExpr, toExprOf, binary, tooDeep] at read
    next => simp [toExpr, toExprOf, call, tooDeep] at read
  | succ levels ih =>
    have lower := fun child value readable read => @ih child value readable read
    rcases kind_of_toExpr read with isToken | unary | binary | call
    next => exact bounded_of_isToken readable isToken
    next => exact bounded_of_toUnary readable unary (toExpr_of_unary unary ▸ read)
    next => exact bounded_of_toBinary readable binary lower (toExpr_of_binary binary ▸ read)
    next => exact bounded_of_toCall readable call lower (toExpr_of_call call ▸ read)

theorem every_readable (arranged : phrase.Every Arranged) (legible : phrase.Every (Legible source))
    (plain : phrase.Plain) : phrase.Every (Readable source) := by
  induction arranged with
  | node here inside ih =>
    refine .node ⟨here, legible.here, plain.here⟩ fun child member => ?_
    exact ih child member (legible.inside child member) (plain.inside child member)

end Phrase

namespace Derivation

theorem Statement.bounded {source : List Char} {levels : Nat} {statement : Statement}
    (readable : statement.tree.Every (Phrase.Readable source)) {lowered : StackScript.Statement}
    (read : statement.tree.toStatement source levels = .ok lowered) :
    statement.tree.Bounded Tree.Step.operates levels := by
  cases statement with
  | pass word => simp [tree, Phrase.toStatement, Phrase.complain] at read
  | assign name sign value =>
    simp only [tree, Phrase.toStatement, Phrase.kind_wrap, Phrase.children_wrap] at read
    rw [if_neg (by simp)] at read
    obtain ⟨expr, readValue, -⟩ := bind_eq_ok.mp read
    have inside := readable.inside value.tree (by simp [tree])
    refine Phrase.bounded_of_children (fun _ => rfl) ?_
    simpa using ⟨Phrase.bounded_leaf rfl, Phrase.bounded_leaf rfl,
      Phrase.bounded_of_toExpr inside readValue⟩
  | expression value =>
    simp only [tree, Phrase.toStatement, Phrase.kind_wrap, Phrase.children_wrap] at read
    obtain ⟨expr, readValue, -⟩ := bind_eq_ok.mp read
    have inside := readable.inside value.tree (by simp [tree])
    refine Phrase.bounded_of_children (fun _ => rfl) ?_
    simpa using Phrase.bounded_of_toExpr inside readValue

theorem Script.bounded_of_yields {source : List Char} {script : Script}
    {statements : List StackScript.Statement} (yields : script.Yields source statements)
    (size : Nat) : (script.tree size).Bounded Tree.Step.operates nestingLimit := by
  refine Phrase.bounded_of_children (fun _ => rfl) fun phrase member => ?_
  obtain ⟨lowered, read⟩ := exists_ok_of_mapM yields.lowered member
  have legible := script.legible yields.placed phrase member
  have plain := (script.composed_trees phrase member).plain
  obtain ⟨statement, rfl⟩ := script.exists_statement phrase member
  exact Statement.bounded (Phrase.every_readable statement.every_arranged legible plain) read

end Derivation

end StackScript
