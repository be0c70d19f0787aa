import StackScript.Proofs.RoundTrip

set_option autoImplicit false

namespace StackScript

namespace Expr

def span : Expr → Span
  | number span _ | identifier span _ | binary span _ _ _ | unaryCall span _ _
  | binaryCall span _ _ _ => span

theorem Every.imp {holds follows : Expr → Prop} (implies : ∀ expr, holds expr → follows expr)
    {expr : Expr} (every : expr.Every holds) : expr.Every follows := by
  induction expr with
  | number | identifier => exact implies _ every
  | binary span operator left right ihLeft ihRight =>
    exact ⟨implies _ every.1, ihLeft every.2.1, ihRight every.2.2⟩
  | unaryCall span builtin argument ih => exact ⟨implies _ every.1, ih every.2⟩
  | binaryCall span builtin first second ihFirst ihSecond =>
    exact ⟨implies _ every.1, ihFirst every.2.1, ihSecond every.2.2⟩

end Expr

def Statement.span : Statement → Span
  | define span _ _ | expression span _ => span

namespace Phrase

variable {source : List Char} {levels : Nat} {phrase : Phrase} {expr : Expr}

theorem span_of_toExpr (read : phrase.toExpr source levels = .ok expr) :
    expr.span = phrase.span := by
  cases lowered_of_toExpr read <;> rfl

theorem span_of_toStatement {statement : Statement}
    (read : phrase.toStatement source levels = .ok statement) : statement.span = phrase.span := by
  unfold toStatement at read
  split at read
  next =>
    split at read
    next => simp [complain] at read
    next =>
      split at read
      next => simp [complain] at read
      next =>
        split at read
        next => simp [complain] at read
        next => simp [complain] at read
        next =>
          obtain ⟨value, -, last⟩ := bind_eq_ok.mp read
          cases last
          rfl
  next =>
    split at read
    next => simp [complain] at read
    next =>
      obtain ⟨value, -, last⟩ := bind_eq_ok.mp read
      cases last
      rfl
  next => simp [complain] at read

section more

variable {read further : Phrase → Except CompileError Expr}

theorem toArguments_mono
    (more : ∀ {child value}, read child = .ok value → further child = .ok value)
    {phrases : List Phrase} {values : List Expr}
    (done : toArguments source read phrases = .ok values) :
    toArguments source further phrases = .ok values := by
  fun_induction toArguments source read phrases generalizing values with
  | case1 => exact done
  | case2 first rest closed => rwa [toArguments, if_pos closed]
  | case3 first rest notClosed ih =>
    obtain ⟨value, readFirst, next⟩ := bind_eq_ok.mp done
    rw [toArguments, if_neg notClosed, more readFirst, ok_bind]
    cases rest with
    | nil => exact next
    | cons separator behind =>
      cases kind : separator.kind with
      | comma =>
        simp only [kind] at next ⊢
        obtain ⟨others, readOthers, last⟩ := bind_eq_ok.mp next
        rw [ih readOthers]
        exact last
      | _ =>
        simp only [kind] at next ⊢
        exact next

theorem toBinary_mono (more : ∀ {child value}, read child = .ok value → further child = .ok value)
    (done : phrase.toBinary source read = .ok expr) :
    phrase.toBinary source further = .ok expr := by
  obtain ⟨left, sign, right, rest, operator, first, second, children, symbol, readLeft, readRight,
    same⟩ := toBinary_eq_ok.mp done
  exact toBinary_eq_ok.mpr ⟨left, sign, right, rest, operator, first, second, children, symbol,
    more readLeft, more readRight, same⟩

theorem toCall_mono (more : ∀ {child value}, read child = .ok value → further child = .ok value)
    (done : phrase.toCall source read = .ok expr) : phrase.toCall source further = .ok expr := by
  obtain ⟨callee, list, rest, values, children, readList, applied⟩ := toCall_eq_ok.mp done
  obtain ⟨kind, opening, inside, same, readInside⟩ := argumentList_eq_ok.mp readList
  have readMore : argumentList source further list = .ok values :=
    argumentList_eq_ok.mpr ⟨kind, opening, inside, same, toArguments_mono more readInside⟩
  exact toCall_eq_ok.mpr ⟨callee, list, rest, values, children, readMore, applied⟩

end more

theorem toExprOf_mono {call binary otherCall otherBinary : Phrase → Except CompileError Expr}
    (calls : call phrase = .ok expr → otherCall phrase = .ok expr)
    (operations : binary phrase = .ok expr → otherBinary phrase = .ok expr)
    (done : phrase.toExprOf source call binary = .ok expr) :
    phrase.toExprOf source otherCall otherBinary = .ok expr := by
  unfold toExprOf at done ⊢
  cases kind : phrase.kind with
  | callExpression =>
    simp only [kind] at done
    exact calls done
  | binaryExpression =>
    simp only [kind] at done
    exact operations done
  | _ => simpa only [kind] using done

theorem toExpr_mono {deeper : Nat} (le : levels ≤ deeper)
    (done : phrase.toExpr source levels = .ok expr) : phrase.toExpr source deeper = .ok expr := by
  induction deeper generalizing levels phrase expr with
  | zero => rwa [Nat.le_zero.mp le] at done
  | succ deeper ih =>
    cases levels with
    | zero =>
      refine toExprOf_mono (fun deep => ?_) (fun deep => ?_) done
      next => simp [tooDeep] at deep
      next => simp [tooDeep] at deep
    | succ levels =>
      have more {child : Phrase} {value : Expr} (read : child.toExpr source levels = .ok value) :
          child.toExpr source deeper = .ok value := ih (Nat.le_of_succ_le_succ le) read
      exact toExprOf_mono (toCall_mono more) (toBinary_mono more) done

end Phrase

namespace Derivation

def applyLast (list : Derivation (.form .arguments)) :
    Derivation .applications → Derivation .applications
  | noApplication => application list noApplication
  | application first rest => application first (applyLast list rest)

def apply (list : Derivation (.form .arguments)) :
    Derivation (.form .call) → Derivation (.form .call)
  | call callee applications => call callee (applyLast list applications)

section

variable (list : Derivation (.form .arguments))

theorem tokens_applyLast (applications : Derivation .applications) :
    (applyLast list applications).tokens = applications.tokens ++ list.tokens := by
  match applications with
  | noApplication => simp [applyLast, tokens]
  | application first rest => simp [applyLast, tokens, tokens_applyLast rest]

theorem tree_applyLast (applications : Derivation .applications) (callee : Phrase) :
    (applyLast list applications).tree callee =
      .wrap .callExpression (applications.tree callee) [list.tree] := by
  match applications with
  | noApplication =>
    rw [applyLast]
    rfl
  | application first rest =>
    rw [applyLast]
    exact tree_applyLast rest _

theorem nesting_applyLast (applications : Derivation .applications) :
    (applyLast list applications).nesting = max applications.nesting list.nesting := by
  match applications with
  | noApplication => simp [applyLast, nesting]
  | application first rest => simp [applyLast, nesting, nesting_applyLast rest, Nat.max_assoc]

theorem tokens_apply (callee : Derivation (.form .call)) :
    (apply list callee).tokens = callee.tokens ++ list.tokens := by
  cases callee with
  | call atom applications => simp [apply, tokens, tokens_applyLast]

theorem tree_apply (callee : Derivation (.form .call)) :
    (apply list callee).tree = .wrap .callExpression callee.tree [list.tree] := by
  cases callee with
  | call atom applications => exact tree_applyLast list applications atom.tree

theorem nesting_apply (callee : Derivation (.form .call)) :
    (apply list callee).nesting = max callee.nesting list.nesting := by
  cases callee with
  | call atom applications => simp [apply, nesting, nesting_applyLast, Nat.max_assoc]

end

theorem exists_expression {form : Form} (derivation : Derivation (.form form))
    (phrase : form ≠ .arguments) :
    ∃ own : Derivation (.form .expression), own.tokens = derivation.tokens ∧
      own.tree = derivation.tree ∧ own.nesting = derivation.nesting := by
  have ofSum (sum : Derivation (.form (.chain .sum))) :
      ∃ own : Derivation (.form .expression), own.tokens = sum.tokens ∧ own.tree = sum.tree ∧
        own.nesting = sum.nesting :=
    ⟨compared (chain sum noLink), List.append_nil _, rfl, Nat.max_zero _⟩
  have ofProduct (product : Derivation (.form (.chain .product))) :
      ∃ own : Derivation (.form .expression), own.tokens = product.tokens ∧
        own.tree = product.tree ∧ own.nesting = product.nesting := by
    obtain ⟨own, same, sameTree, deep⟩ := ofSum (chain product noLink)
    exact ⟨own, same.trans (List.append_nil _), sameTree, deep.trans (Nat.max_zero _)⟩
  have ofFactor (factor : Derivation (.form .factor)) :
      ∃ own : Derivation (.form .expression), own.tokens = factor.tokens ∧
        own.tree = factor.tree ∧ own.nesting = factor.nesting := by
    obtain ⟨own, same, sameTree, deep⟩ := ofProduct (chain factor noLink)
    exact ⟨own, same.trans (List.append_nil _), sameTree, deep.trans (Nat.max_zero _)⟩
  cases form with
  | expression => exact ⟨derivation, rfl, rfl, rfl⟩
  | chain tier =>
    cases tier with
    | comparison => exact ⟨compared derivation, rfl, rfl, rfl⟩
    | sum => exact ofSum derivation
    | product => exact ofProduct derivation
  | factor => exact ofFactor derivation
  | power => exact ofFactor (unsigned derivation)
  | call => exact ofFactor (unsigned (base derivation))
  | arguments => exact absurd rfl phrase
  | atom =>
    obtain ⟨own, same, sameTree, deep⟩ :=
      ofFactor (unsigned (base (call derivation noApplication)))
    exact ⟨own, same.trans (List.append_nil _), sameTree, deep.trans (Nat.max_zero _)⟩

end Derivation

def Expr.Derived (source : List Char) (tokens : List Token) (expr : Expr) : Prop :=
  ∃ own : Derivation (.form .expression), own.tokens <:+: tokens ∧ own.nesting < nestingLimit ∧
    own.tree.toExpr source nestingLimit = .ok expr

def Phrase.Splits (source : List Char) (tokens : List Token) (phrase : Phrase) : Prop :=
  ∀ levels ≤ nestingLimit, ∀ expr, phrase.toExpr source levels = .ok expr →
    expr.Every (Expr.Derived source tokens)

structure Derivation.Inside (tokens : List Token) {category : Category}
    (derivation : Derivation category) : Prop where
  part : derivation.tokens <:+: tokens
  shallow : derivation.nesting < nestingLimit

namespace Phrase

variable {source : List Char} {tokens : List Token}

theorem splits_of_kind {phrase : Phrase} (other : phrase.kind ∉ [Tree.Kind.number, .variableName,
    .unaryExpression, .binaryExpression, .callExpression]) : phrase.Splits source tokens := by
  intro levels bound expr read
  cases lowered_of_toExpr read with
  | number kind | signed kind | identifier kind | binary kind | unaryCall kind | binaryCall kind =>
    simp [kind] at other

end Phrase

namespace Derivation

variable {source : List Char} {given : List Token} {form : Form}
  {derivation : Derivation (.form form)}

theorem derived (inside : derivation.Inside given) (phrase : form ≠ .arguments) {levels : Nat}
    (bound : levels ≤ nestingLimit) {expr : Expr}
    (read : derivation.tree.toExpr source levels = .ok expr) : expr.Derived source given := by
  obtain ⟨own, same, sameTree, deep⟩ := derivation.exists_expression phrase
  refine ⟨own, same ▸ inside.part, deep ▸ inside.shallow, ?_⟩
  rw [sameTree]
  exact Phrase.toExpr_mono bound read

theorem splits_simple (inside : derivation.Inside given) (phrase : form ≠ .arguments)
    (operation : Phrase.kind derivation.tree ≠ .binaryExpression)
    (call : Phrase.kind derivation.tree ≠ .callExpression) :
    Phrase.Splits source given derivation.tree := by
  intro levels bound expr read
  have here := derived inside phrase bound read
  cases Phrase.lowered_of_toExpr read with
  | number | signed | identifier => exact here
  | binary kind => exact absurd kind operation
  | unaryCall kind | binaryCall kind => exact absurd kind call

theorem splits_binary (inside : derivation.Inside given) (phrase : form ≠ .arguments)
    {left sign right : Phrase}
    (same : derivation.tree = .wrap .binaryExpression left [sign, right])
    (splitsLeft : left.Splits source given) (splitsRight : right.Splits source given) :
    Phrase.Splits source given derivation.tree := by
  intro levels bound expr read
  have here := derived inside phrase bound read
  rw [same] at read
  cases levels with
  | zero => simp [Phrase.toExpr, Phrase.toExprOf, Phrase.tooDeep] at read
  | succ levels =>
    rw [Phrase.toExpr_of_binary rfl] at read
    obtain ⟨_, _, _, _, operator, first, second, children, -, readLeft, readRight, rfl⟩ :=
      Phrase.toBinary_eq_ok.mp read
    simp only [Phrase.children_wrap, List.cons.injEq] at children
    obtain ⟨rfl, -, rfl, -⟩ := children
    have less := Nat.le_of_succ_le bound
    exact ⟨here, splitsLeft levels less first readLeft, splitsRight levels less second readRight⟩

theorem splits_call (inside : derivation.Inside given) (phrase : form ≠ .arguments)
    {callee list : Phrase} (same : derivation.tree = .wrap .callExpression callee [list])
    (splitsArguments : ∀ child ∈ list.children, child.Splits source given) :
    Phrase.Splits source given derivation.tree := by
  intro levels bound expr read
  have here := derived inside phrase bound read
  rw [same] at read
  cases levels with
  | zero => simp [Phrase.toExpr, Phrase.toExprOf, Phrase.tooDeep] at read
  | succ levels =>
    rw [Phrase.toExpr_of_call rfl] at read
    obtain ⟨_, _, _, values, children, readList, applied⟩ := Phrase.toCall_eq_ok.mp read
    simp only [Phrase.children_wrap, List.cons.injEq] at children
    obtain ⟨rfl, rfl, -⟩ := children
    obtain ⟨-, opening, rest, childrenList, readRest⟩ := Phrase.argumentList_eq_ok.mp readList
    have arguments : ∀ value ∈ values, value.Every (Expr.Derived source given) := by
      intro value member
      obtain ⟨child, childMember, readChild⟩ := Phrase.exists_argument readRest member
      exact splitsArguments child (by simp [childrenList, childMember]) levels
        (Nat.le_of_succ_le bound) value readChild
    rcases Phrase.exists_of_applied applied with
      ⟨builtin, value, -, rfl, rfl⟩ | ⟨builtin, first, second, -, rfl, rfl⟩
    next => exact ⟨here, arguments value (by simp)⟩
    next => exact ⟨here, arguments first (by simp), arguments second (by simp)⟩

-- What holds of the expressions below a derivation. Links and applications extend a phrase that
-- has a derivation of its own, so that what they build has one too.
def Splits (source : List Char) (given : List Token) :
    {category : Category} → Derivation category → Prop
  | .form .arguments, list => ∀ child ∈ Phrase.children list.tree, child.Splits source given
  | .form _, derivation => Phrase.Splits source given derivation.tree
  | .links tier, links => ∀ left : Derivation (.form (.chain tier)),
    left.tokens ++ links.tokens <:+: given → left.nesting < nestingLimit →
      Phrase.Splits source given left.tree → Phrase.Splits source given (links.tree left.tree)
  | .applications, applications => ∀ callee : Derivation (.form .call),
    callee.tokens ++ applications.tokens <:+: given → callee.nesting < nestingLimit →
      Phrase.Splits source given callee.tree →
        Phrase.Splits source given (applications.tree callee.tree)
  | .moreArguments, others => ∀ child ∈ others.tree, Phrase.Splits source given child

theorem Inside.inner {category other : Category} {derivation : Derivation category}
    {inner : Derivation other} (inside : derivation.Inside given)
    (part : inner.tokens <:+: derivation.tokens) (le : inner.nesting ≤ derivation.nesting) :
    inner.Inside given :=
  ⟨part.trans inside.part, Nat.lt_of_le_of_lt le inside.shallow⟩

theorem splits_operand {tier : Tier} {operand : Derivation (.form tier.operand)}
    (splits : operand.Splits source given) : Phrase.Splits source given operand.tree := by
  cases tier <;> exact splits

theorem splits_link {tier : Tier} {operator : Token} (fits : tier.isOperator operator.kind = true)
    {operand : Derivation (.form tier.operand)} {rest : Derivation (.links tier)}
    (inside : (link operator fits operand rest).Inside given)
    (ihOperand : operand.Inside given → operand.Splits source given)
    (ihRest : rest.Inside given → rest.Splits source given) :
    (link operator fits operand rest).Splits source given := by
  intro left part shallow splitsLeft
  have insideOperand : operand.Inside given :=
    inside.inner ⟨[operator], rest.tokens, by simp [tokens]⟩ (Nat.le_max_left _ _)
  have insideRest : rest.Inside given :=
    inside.inner ⟨operator :: operand.tokens, [], by simp [tokens]⟩ (Nat.le_max_right _ _)
  have sameTokens := tokens_join operator fits operand left
  have sameTree := tree_join operator fits operand left
  have joinedPart : (join operator fits operand left).tokens ++ rest.tokens <:+: given := by
    simpa [sameTokens, tokens] using part
  have joinedShallow : (join operator fits operand left).nesting < nestingLimit := by
    rw [nesting_join]
    exact Nat.max_lt.mpr ⟨shallow, insideOperand.shallow⟩
  have joinedInside : (join operator fits operand left).Inside given :=
    ⟨(List.infix_append_left ..).trans joinedPart, joinedShallow⟩
  have splitsJoined : Phrase.Splits source given (join operator fits operand left).tree :=
    splits_binary joinedInside (by simp) sameTree splitsLeft
      (splits_operand (ihOperand insideOperand))
  have splits := ihRest insideRest _ joinedPart joinedShallow splitsJoined
  rwa [sameTree] at splits

theorem splits_application {list : Derivation (.form .arguments)}
    {rest : Derivation .applications} (inside : (application list rest).Inside given)
    (ihList : list.Inside given → list.Splits source given)
    (ihRest : rest.Inside given → rest.Splits source given) :
    (application list rest).Splits source given := by
  intro callee part shallow splitsCallee
  have insideList : list.Inside given :=
    inside.inner (List.infix_append_left ..) (Nat.le_max_left _ _)
  have insideRest : rest.Inside given :=
    inside.inner (List.infix_append_right ..) (Nat.le_max_right _ _)
  have sameTokens := tokens_apply list callee
  have sameTree := tree_apply list callee
  have appliedPart : (apply list callee).tokens ++ rest.tokens <:+: given := by
    simpa [sameTokens, tokens] using part
  have appliedShallow : (apply list callee).nesting < nestingLimit := by
    rw [nesting_apply]
    exact Nat.max_lt.mpr ⟨shallow, insideList.shallow⟩
  have appliedInside : (apply list callee).Inside given :=
    ⟨(List.infix_append_left ..).trans appliedPart, appliedShallow⟩
  have splitsApplied : Phrase.Splits source given (apply list callee).tree :=
    splits_call appliedInside (by simp) sameTree (ihList insideList)
  have splits := ihRest insideRest _ appliedPart appliedShallow splitsApplied
  rwa [sameTree] at splits

theorem splits_arguments (opening : Span) {first : Derivation (.form .expression)}
    {others : Derivation .moreArguments} (trailing : Option Span) (closing : Span)
    (inside : (arguments opening first others trailing closing).Inside given)
    (ihFirst : first.Inside given → first.Splits source given)
    (ihOthers : others.Inside given → others.Splits source given) :
    (arguments opening first others trailing closing).Splits source given := by
  have insideFirst : first.Inside given :=
    inside.inner ⟨[_], _, rfl⟩ (Nat.le_trans (Nat.le_succ _) (Nat.le_max_left _ _))
  have insideOthers : others.Inside given :=
    inside.inner ⟨⟨.symbol .openParen, opening⟩ :: first.tokens,
      trailingTokens trailing ++ [⟨.symbol .closeParen, closing⟩], by simp [tokens]⟩
      (Nat.le_max_right _ _)
  intro child member
  simp only [tree, Phrase.children_wrap, List.mem_cons, List.mem_append, List.mem_map,
    List.not_mem_nil, or_false] at member
  rcases member with rfl | rfl | member | ⟨comma, -, rfl⟩ | rfl
  next => exact Phrase.splits_of_kind (by simp)
  next => exact ihFirst insideFirst
  next => exact ihOthers insideOthers child member
  next => exact Phrase.splits_of_kind (by simp)
  next => exact Phrase.splits_of_kind (by simp)

theorem splits_more (comma : Span) {argument : Derivation (.form .expression)}
    {rest : Derivation .moreArguments} (inside : (more comma argument rest).Inside given)
    (ihArgument : argument.Inside given → argument.Splits source given)
    (ihRest : rest.Inside given → rest.Splits source given) :
    (more comma argument rest).Splits source given := by
  have insideArgument : argument.Inside given :=
    inside.inner ⟨[_], rest.tokens, rfl⟩ (Nat.le_trans (Nat.le_succ _) (Nat.le_max_left _ _))
  have insideRest : rest.Inside given :=
    inside.inner ⟨⟨.symbol .comma, comma⟩ :: argument.tokens, [], by simp [tokens]⟩
      (Nat.le_max_right _ _)
  intro child member
  rcases List.mem_cons.mp member with rfl | member
  next => exact Phrase.splits_of_kind (by simp)
  rcases List.mem_cons.mp member with rfl | member
  next => exact ihArgument insideArgument
  next => exact ihRest insideRest child member

theorem splits_leaf (token : Token) {kind : Tree.Kind} (fits : token.kind.leaf? = some kind)
    (inside : (leaf token kind fits).Inside given) :
    (leaf token kind fits).Splits source given := by
  have plain : kind ≠ .binaryExpression ∧ kind ≠ .callExpression := by
    unfold Token.Kind.leaf? at fits
    split at fits <;> cases fits <;> decide
  exact splits_simple inside (by simp) plain.1 plain.2

theorem splits {category : Category} {derivation : Derivation category}
    (inside : derivation.Inside given) : derivation.Splits source given := by
  induction derivation with
  | not word operand => exact splits_simple inside (by simp) (by simp [tree]) (by simp [tree])
  | compared operands ih => exact ih ⟨inside.part, inside.shallow⟩
  | @chain tier first links ihFirst ihLinks =>
    have insideFirst : first.Inside given :=
      inside.inner (List.infix_append_left ..) (Nat.le_max_left _ _)
    have insideLinks : links.Inside given :=
      inside.inner (List.infix_append_right ..) (Nat.le_max_right _ _)
    have alone : (chain first noLink).tokens ++ links.tokens = (chain first links).tokens := by
      simp [tokens]
    refine ihLinks insideLinks (chain first noLink) (alone ▸ inside.part) ?_ ?_
    next => simpa [nesting] using insideFirst.shallow
    next => exact splits_operand (ihFirst insideFirst)
  | noLink => exact fun left part shallow splitsLeft => splitsLeft
  | link operator fits operand rest ihOperand ihRest =>
    exact splits_link fits inside ihOperand ihRest
  | unary sign fits operand =>
    exact splits_simple inside (by simp) (by simp [tree]) (by simp [tree])
  | unsigned power ih => exact ih ⟨inside.part, inside.shallow⟩
  | base root ih => exact ih ⟨inside.part, inside.shallow⟩
  | raised root sign exponent ihRoot ihExponent =>
    have insideRoot : root.Inside given :=
      inside.inner (List.infix_append_left ..) (Nat.le_max_left _ _)
    have insideExponent : exponent.Inside given :=
      inside.inner ⟨root.tokens ++ [⟨.symbol .power, sign⟩], [], by simp [tokens]⟩
        (Nat.le_trans (Nat.le_succ _) (Nat.le_max_right _ _))
    exact splits_binary inside (by simp) rfl (ihRoot insideRoot) (ihExponent insideExponent)
  | call callee applications ihCallee ihApplications =>
    have insideCallee : callee.Inside given :=
      inside.inner (List.infix_append_left ..) (Nat.le_max_left _ _)
    have insideApplications : applications.Inside given :=
      inside.inner (List.infix_append_right ..) (Nat.le_max_right _ _)
    have alone : (call callee noApplication).tokens ++ applications.tokens =
        (call callee applications).tokens := by
      simp [tokens]
    refine ihApplications insideApplications (call callee noApplication) (alone ▸ inside.part) ?_ ?_
    next => simpa [nesting] using insideCallee.shallow
    next => exact ihCallee insideCallee
  | noApplication => exact fun callee part shallow splitsCallee => splitsCallee
  | application list rest ihList ihRest => exact splits_application inside ihList ihRest
  | noArguments opening closing =>
    intro child member
    simp only [tree, Phrase.children_wrap, List.mem_cons, List.not_mem_nil, or_false] at member
    rcases member with rfl | rfl <;> exact Phrase.splits_of_kind (by simp)
  | arguments opening first others trailing closing ihFirst ihOthers =>
    exact splits_arguments opening trailing closing inside ihFirst ihOthers
  | noMore => exact fun child member => absurd member List.not_mem_nil
  | more comma argument rest ihArgument ihRest => exact splits_more comma inside ihArgument ihRest
  | leaf token kind fits => exact splits_leaf token fits inside
  | parenthesized opening inner closing =>
    exact splits_simple inside (by simp) (by simp [tree]) (by simp [tree])

theorem Statement.every_derived {derivation : Statement} {statement : StackScript.Statement}
    (shallow : derivation.nesting ≤ nestingLimit)
    (read : derivation.tree.toStatement source nestingLimit = .ok statement) :
    statement.value.Every (Expr.Derived source derivation.tokens) := by
  cases derivation with
  | pass word => simp [tree, Phrase.toStatement, Phrase.complain] at read
  | assign name sign value =>
    have inside : value.Inside (assign name sign value).tokens :=
      ⟨⟨[_, _], [], List.append_nil _⟩, shallow⟩
    simp only [tree, Phrase.toStatement, Phrase.kind_wrap, Phrase.children_wrap] at read
    rw [if_neg (by simp)] at read
    obtain ⟨expr, readValue, last⟩ := bind_eq_ok.mp read
    cases last
    exact splits inside nestingLimit (Nat.le_refl _) expr readValue
  | expression value =>
    have inside : value.Inside (expression value).tokens := ⟨List.infix_refl _, shallow⟩
    simp only [tree, Phrase.toStatement, Phrase.kind_wrap, Phrase.children_wrap] at read
    obtain ⟨expr, readValue, last⟩ := bind_eq_ok.mp read
    cases last
    exact splits inside nestingLimit (Nat.le_refl _) expr readValue

end Derivation

end StackScript
