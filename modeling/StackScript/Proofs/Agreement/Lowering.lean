import StackScript.Program.Code
import StackScript.Proofs.Agreement
import StackScript.Proofs.Extent

set_option autoImplicit false

namespace StackScript

variable {correspondence : Correspondence}

inductive Expr.Alike (correspondence : Correspondence) : Expr → Expr → Prop
  | number {span other : Span} (spans : correspondence.spans span other) (value : Int) :
      Alike correspondence (.number span value) (.number other value)
  | identifier {span other : Span} (spans : correspondence.spans span other) (name : String) :
      Alike correspondence (.identifier span name) (.identifier other name)
  | binary {span other : Span} {left right otherLeft otherRight : Expr}
      (spans : correspondence.spans span other) (operator : Operator)
      (sameLeft : Alike correspondence left otherLeft)
      (sameRight : Alike correspondence right otherRight) :
      Alike correspondence (.binary span operator left right)
        (.binary other operator otherLeft otherRight)
  | unaryCall {span other : Span} {argument otherArgument : Expr}
      (spans : correspondence.spans span other) (builtin : Builtin)
      (same : Alike correspondence argument otherArgument) :
      Alike correspondence (.unaryCall span builtin argument)
        (.unaryCall other builtin otherArgument)
  | binaryCall {span other : Span} {first second otherFirst otherSecond : Expr}
      (spans : correspondence.spans span other) (builtin : Builtin)
      (sameFirst : Alike correspondence first otherFirst)
      (sameSecond : Alike correspondence second otherSecond) :
      Alike correspondence (.binaryCall span builtin first second)
        (.binaryCall other builtin otherFirst otherSecond)

inductive Statement.Alike (correspondence : Correspondence) : Statement → Statement → Prop
  | define {span other : Span} {value otherValue : Expr}
      (spans : correspondence.spans span other) (name : String)
      (same : Expr.Alike correspondence value otherValue) :
      Alike correspondence (.define span name value) (.define other name otherValue)
  | expression {span other : Span} {value otherValue : Expr}
      (spans : correspondence.spans span other)
      (same : Expr.Alike correspondence value otherValue) :
      Alike correspondence (.expression span value) (.expression other otherValue)

def Program.Alike (correspondence : Correspondence) (program other : Program) : Prop :=
  List.Forall₂ (Statement.Alike correspondence) program.statements other.statements

theorem Agree.complain {α β : Type} {alike : α → β → Prop} {source other : List Char}
    {complaint otherComplaint : Fault.Complaint} {phrase otherPhrase : Phrase}
    (same : complaint.kind = otherComplaint.kind) :
    Agree alike (phrase.complain source complaint) (otherPhrase.complain other otherComplaint) :=
  .error (congrArg CompileError.Variant.fault same)

theorem agree_literal (text : List Char) (span other : Span) :
    Agree Eq (Literal.read text span) (Literal.read text other) := by
  unfold Literal.read
  cases Literal.value text with
  | ok value => exact .ok rfl
  | error refusal => cases refusal <;> exact .error rfl

namespace Phrase

structure Matched (correspondence : Correspondence) (phrase other : Phrase) : Prop where
  alike : Alike correspondence phrase other
  legible : phrase.Every (Legible correspondence.source)
  otherLegible : other.Every (Legible correspondence.other)

theorem matched_all {phrases others : List Phrase}
    (alike : List.Forall₂ (Alike correspondence) phrases others)
    (legible : ∀ phrase ∈ phrases, phrase.Every (Legible correspondence.source))
    (otherLegible : ∀ phrase ∈ others, phrase.Every (Legible correspondence.other)) :
    List.Forall₂ (Matched correspondence) phrases others := by
  induction alike with
  | nil => exact .nil
  | cons first rest ih =>
    simp only [List.mem_cons, forall_eq_or_imp] at legible otherLegible
    exact .cons ⟨first, legible.1, otherLegible.1⟩ (ih legible.2 otherLegible.2)

namespace Matched

variable {phrase other : Phrase}

theorem children (matched : Matched correspondence phrase other) :
    List.Forall₂ (Matched correspondence) phrase.children other.children :=
  matched_all matched.alike.children matched.legible.inside matched.otherLegible.inside

theorem text (matched : Matched correspondence phrase other)
    (token : phrase.kind.isToken = true) :
    phrase.text correspondence.source = other.text correspondence.other :=
  congrArg String.ofList (matched.alike.spelled token)

end Matched

section readers

variable {argument otherArgument : Phrase → Except CompileError Expr}

theorem agree_toArguments
    (inner : ∀ {phrase other : Phrase}, Matched correspondence phrase other →
      Agree (Expr.Alike correspondence) (argument phrase) (otherArgument other))
    {phrases others : List Phrase}
    (matched : List.Forall₂ (Matched correspondence) phrases others) :
    Agree (List.Forall₂ (Expr.Alike correspondence))
      (toArguments correspondence.source argument phrases)
      (toArguments correspondence.other otherArgument others) := by
  fun_induction toArguments correspondence.source argument phrases generalizing others with
  | case1 =>
    cases matched
    exact .ok .nil
  | case2 first rest closed =>
    cases matched with
    | cons same =>
      rw [toArguments, if_pos (same.alike.kind.symm.trans closed)]
      exact .ok .nil
  | case3 first rest unclosed ih =>
    cases matched with
    | cons same sameRest =>
      rw [toArguments, if_neg (same.alike.kind ▸ unclosed)]
      apply (inner same).bind
      intro value otherValue alike
      cases sameRest with
      | nil => exact .ok (.cons alike .nil)
      | @cons separator otherSeparator behind otherBehind sameSeparator sameBehind =>
        have kinds := sameSeparator.alike.kind
        dsimp only
        rw [← kinds]
        cases separator.kind with
        | comma =>
          apply (ih sameBehind).bind
          intro values otherValues alikeRest
          exact .ok (.cons alike alikeRest)
        | closeParen => exact .ok (.cons alike .nil)
        | _ => exact .complain rfl

theorem agree_argumentList
    (inner : ∀ {phrase other : Phrase}, Matched correspondence phrase other →
      Agree (Expr.Alike correspondence) (argument phrase) (otherArgument other))
    {list other : Phrase} (matched : Matched correspondence list other) :
    Agree (List.Forall₂ (Expr.Alike correspondence))
      (list.argumentList correspondence.source argument)
      (other.argumentList correspondence.other otherArgument) := by
  have children := matched.children
  unfold argumentList
  rw [← matched.alike.kind]
  generalize list.children = given at *
  generalize other.children = otherGiven at *
  split
  next =>
    cases children with
    | nil => exact .complain rfl
    | cons first rest => exact agree_toArguments inner rest
  next => exact .complain rfl

theorem lookup?_eq_none {name : String} (other : ∀ builtin : Builtin, name ≠ builtin.name)
    (arity : Nat) : Builtin.lookup? name arity = none := by
  apply List.find?_eq_none.mpr
  intro builtin member
  simp [(other builtin).symm]

theorem agree_applied {span otherSpan : Span} (spans : correspondence.spans span otherSpan)
    {callee otherCallee : Span} {arguments otherArguments : List Expr}
    (names : ∀ arity, Builtin.lookup? (String.ofList (callee.slice correspondence.source)) arity =
      Builtin.lookup? (String.ofList (otherCallee.slice correspondence.other)) arity)
    (alike : List.Forall₂ (Expr.Alike correspondence) arguments otherArguments) :
    Agree (Expr.Alike correspondence)
      (Walk.applied correspondence.source span callee arguments)
      (Walk.applied correspondence.other otherSpan otherCallee otherArguments) := by
  cases alike with
  | nil => exact .error rfl
  | cons first rest =>
    cases rest with
    | nil =>
      rw [Walk.applied, Walk.applied, ← names]
      cases Builtin.lookup? (String.ofList (callee.slice correspondence.source)) 1 with
      | none => exact .error rfl
      | some builtin => exact .ok (.unaryCall spans builtin first)
    | cons second more =>
      cases more with
      | nil =>
        rw [Walk.applied, Walk.applied, ← names]
        cases Builtin.lookup? (String.ofList (callee.slice correspondence.source)) 2 with
        | none => exact .error rfl
        | some builtin => exact .ok (.binaryCall spans builtin first second)
      | cons => exact .error rfl

theorem agree_toCall
    (inner : ∀ {phrase other : Phrase}, Matched correspondence phrase other →
      Agree (Expr.Alike correspondence) (argument phrase) (otherArgument other))
    {phrase other : Phrase} (matched : Matched correspondence phrase other)
    (kind : phrase.kind = .callExpression) :
    Agree (Expr.Alike correspondence) (phrase.toCall correspondence.source argument)
      (other.toCall correspondence.other otherArgument) := by
  have callees := matched.legible.here.callee kind
  have otherCallees := matched.otherLegible.here.callee (matched.alike.kind ▸ kind)
  have children := matched.children
  unfold toCall
  generalize phrase.children = given at *
  generalize other.children = otherGiven at *
  cases children with
  | nil => exact .complain rfl
  | @cons callee otherCallee _ _ same rest =>
    cases rest with
    | nil => exact .complain rfl
    | cons list more =>
      apply (agree_argumentList inner list).bind
      intro values otherValues alike
      refine agree_applied matched.alike.spans ?_ alike
      intro arity
      by_cases token : callee.kind.isToken = true
      next => exact congrArg (Builtin.lookup? · arity) (same.text token)
      next =>
        have composite : ¬ otherCallee.kind.isToken = true := same.alike.kind ▸ token
        have unnamed := (callees callee rfl).resolve_left token
        have otherUnnamed := (otherCallees otherCallee rfl).resolve_left composite
        exact (lookup?_eq_none unnamed arity).trans (lookup?_eq_none otherUnnamed arity).symm

theorem agree_toUnary {phrase other : Phrase} (matched : Matched correspondence phrase other)
    (kind : phrase.kind = .unaryExpression) :
    Agree (Expr.Alike correspondence) (phrase.toUnary correspondence.source)
      (other.toUnary correspondence.other) := by
  have signs := matched.legible.here.sign kind
  have children := matched.children
  unfold toUnary
  generalize phrase.children = given at *
  generalize other.children = otherGiven at *
  cases children with
  | nil => exact .complain rfl
  | @cons sign otherSign _ _ same rest =>
    dsimp only
    rw [← same.text (signs sign rfl)]
    split
    next => exact .complain rfl
    next =>
      cases rest with
      | nil => exact .complain rfl
      | @cons operand otherOperand _ _ sameOperand more =>
        dsimp only
        rw [← sameOperand.alike.kind]
        split
        next => exact .complain rfl
        next number =>
          have token : operand.kind.isToken = true := by
            rw [not_not.mp number]
            rfl
          rw [← sameOperand.text token]
          apply (agree_literal _ _ _).bind
          rintro value otherValue rfl
          exact .ok (.number matched.alike.spans value)

theorem agree_toBinary
    (inner : ∀ {phrase other : Phrase}, Matched correspondence phrase other →
      Agree (Expr.Alike correspondence) (argument phrase) (otherArgument other))
    {phrase other : Phrase} (matched : Matched correspondence phrase other)
    (kind : phrase.kind = .binaryExpression) :
    Agree (Expr.Alike correspondence) (phrase.toBinary correspondence.source argument)
      (other.toBinary correspondence.other otherArgument) := by
  have operators := matched.legible.here.operator kind
  have children := matched.children
  unfold toBinary
  generalize phrase.children = given at *
  generalize other.children = otherGiven at *
  cases children with
  | nil => exact .complain rfl
  | cons left rest =>
    apply (inner left).bind
    intro first otherFirst alike
    cases rest with
    | nil => exact .complain rfl
    | @cons sign otherSign _ _ same rest =>
      dsimp only
      rw [← same.text (operators sign rfl)]
      cases Operator.ofSymbol? (sign.text correspondence.source) with
      | none => exact .complain rfl
      | some operator =>
        cases rest with
        | nil => exact .complain rfl
        | cons right more =>
          apply (inner right).bind
          intro second otherSecond alikeRight
          exact .ok (.binary matched.alike.spans operator alike alikeRight)

end readers

theorem agree_toExprOf {call binary otherCall otherBinary : Phrase → Except CompileError Expr}
    {phrase other : Phrase} (matched : Matched correspondence phrase other)
    (calls : phrase.kind = .callExpression →
      Agree (Expr.Alike correspondence) (call phrase) (otherCall other))
    (binaries : phrase.kind = .binaryExpression →
      Agree (Expr.Alike correspondence) (binary phrase) (otherBinary other)) :
    Agree (Expr.Alike correspondence) (phrase.toExprOf correspondence.source call binary)
      (other.toExprOf correspondence.other otherCall otherBinary) := by
  unfold toExprOf
  rw [← matched.alike.kind]
  cases kind : phrase.kind with
  | number =>
    have token : phrase.kind.isToken = true := by
      rw [kind]
      rfl
    dsimp only
    rw [← matched.alike.spelled token]
    apply (agree_literal _ _ _).bind
    rintro value otherValue rfl
    exact .ok (.number matched.alike.spans value)
  | variableName =>
    have token : phrase.kind.isToken = true := by
      rw [kind]
      rfl
    dsimp only
    rw [← matched.text token]
    exact .ok (.identifier matched.alike.spans _)
  | callExpression => exact calls kind
  | unaryExpression => exact agree_toUnary matched kind
  | binaryExpression => exact binaries kind
  | _ => exact .complain rfl

theorem agree_toExpr (levels : Nat) {phrase other : Phrase}
    (matched : Matched correspondence phrase other) :
    Agree (Expr.Alike correspondence) (phrase.toExpr correspondence.source levels)
      (other.toExpr correspondence.other levels) := by
  induction levels generalizing phrase other with
  | zero =>
    apply agree_toExprOf matched
    next => exact fun _ => .error rfl
    next => exact fun _ => .error rfl
  | succ levels ih =>
    apply agree_toExprOf matched
    next => exact agree_toCall ih matched
    next => exact agree_toBinary ih matched

theorem agree_toStatement (levels : Nat) {phrase other : Phrase}
    (matched : Matched correspondence phrase other) :
    Agree (Statement.Alike correspondence) (phrase.toStatement correspondence.source levels)
      (other.toStatement correspondence.other levels) := by
  have children := matched.children
  unfold toStatement
  rw [← matched.alike.kind]
  generalize phrase.children = given at *
  generalize other.children = otherGiven at *
  cases phrase.kind with
  | assignStatement =>
    cases children with
    | nil => exact .complain rfl
    | @cons target otherTarget _ _ same rest =>
      dsimp only
      rw [← same.alike.kind]
      split
      next => exact .complain rfl
      next name =>
        have token : target.kind.isToken = true := by
          rw [not_not.mp name]
          rfl
        cases rest with
        | nil => exact .complain rfl
        | cons sign rest =>
          cases rest with
          | nil => exact .complain rfl
          | cons value more =>
            dsimp only
            rw [← same.text token]
            apply (agree_toExpr levels value).bind
            intro expr otherExpr alike
            exact .ok (.define matched.alike.spans _ alike)
  | expressionStatement =>
    cases children with
    | nil => exact .complain rfl
    | cons value more =>
      apply (agree_toExpr levels value).bind
      intro expr otherExpr alike
      exact .ok (.expression matched.alike.spans alike)
  | _ => exact .complain rfl

theorem agree_toStatements (levels : Nat) {phrases others : List Phrase}
    (matched : List.Forall₂ (Matched correspondence) phrases others) :
    Agree (List.Forall₂ (Statement.Alike correspondence))
      (phrases.mapM (toStatement correspondence.source levels))
      (others.mapM (toStatement correspondence.other levels)) := by
  induction matched with
  | nil => exact .ok .nil
  | cons first rest ih =>
    rw [List.mapM_cons, List.mapM_cons]
    apply (agree_toStatement levels first).bind
    intro statement otherStatement alike
    apply ih.bind
    intro statements otherStatements alikeRest
    exact .ok (.cons alike alikeRest)

theorem agree_toProgram (levels : Nat) {phrase other : Phrase}
    (matched : Matched correspondence phrase other) :
    Agree (Program.Alike correspondence) (phrase.toProgram correspondence.source levels)
      (other.toProgram correspondence.other levels) := by
  have children := matched.children
  unfold toProgram
  rw [← matched.alike.kind]
  generalize phrase.children = given at *
  generalize other.children = otherGiven at *
  split
  next => exact .complain rfl
  next =>
    cases children with
    | nil => exact .error rfl
    | cons first rest =>
      simp only [List.isEmpty_cons, Bool.false_eq_true, if_false]
      apply (agree_toStatements levels (.cons first rest)).bind
      intro statements otherStatements alike
      exact .ok alike

end Phrase

theorem Expr.agree_code {expr other : Expr} (alike : Expr.Alike correspondence expr other)
    (names : Names) : Agree Eq (expr.code names) (other.code names) := by
  induction alike with
  | number spans value =>
    rw [code, code]
    split
    next => exact .ok rfl
    next => exact .error rfl
  | identifier spans name =>
    rw [code, code]
    split
    next => exact .ok rfl
    next => exact .error rfl
  | unaryCall spans builtin same ih =>
    apply ih.bind
    rintro code _ rfl
    exact .ok rfl
  | binary spans operator sameLeft sameRight ihLeft ihRight
  | binaryCall spans builtin sameLeft sameRight ihLeft ihRight =>
    apply ihLeft.bind
    rintro first _ rfl
    apply ihRight.bind
    rintro second _ rfl
    exact .ok rfl

theorem Statement.agree_code {statement other : Statement}
    (alike : Statement.Alike correspondence statement other) (names : Names) :
    Agree Eq (statement.code names) (other.code names) := by
  cases alike with
  | define spans name same | expression spans same =>
    apply (Expr.agree_code same names).bind
    rintro code _ rfl
    exact .ok rfl

theorem Statement.Alike.defines {statement other : Statement}
    (alike : Statement.Alike correspondence statement other) (names : Names) :
    statement.defines names = other.defines names := by
  cases alike <;> rfl

theorem Statement.agree_codeAll {statements others : List Statement}
    (alike : List.Forall₂ (Statement.Alike correspondence) statements others) (names : Names) :
    Agree Eq (codeAll names statements) (codeAll names others) := by
  induction alike generalizing names with
  | nil => exact .ok rfl
  | cons first rest ih =>
    apply (agree_code first names).bind
    rintro code _ rfl
    rw [first.defines]
    apply (ih _).bind
    rintro more _ rfl
    exact .ok rfl

theorem Statement.foldl_defines_of_alike {statements others : List Statement}
    (alike : List.Forall₂ (Statement.Alike correspondence) statements others) (names : Names) :
    statements.foldl defines names = others.foldl defines names := by
  induction alike generalizing names with
  | nil => rfl
  | cons first rest ih =>
    rw [List.foldl_cons, List.foldl_cons, first.defines]
    exact ih _

theorem Program.agree_compile {program other : Program}
    (alike : Program.Alike correspondence program other) :
    Agree Eq program.compile other.compile := by
  have names : program.definitions = other.definitions :=
    Statement.foldl_defines_of_alike alike []
  unfold compile
  rw [names]
  apply (Statement.agree_codeAll alike []).bind
  rintro body _ rfl
  exact .ok rfl

end StackScript
