import StackScript.Proofs.Lowering
import StackScript.Proofs.Parts

set_option autoImplicit false

namespace StackScript

namespace Phrase

inductive Lowered (source : List Char) : Nat → Phrase → Expr → Prop
  | number {levels : Nat} {phrase : Phrase} {value : Int} (kind : phrase.kind = .number)
      (read : Literal.read (phrase.span.slice source) phrase.span = .ok value) :
      Lowered source levels phrase (.number phrase.span value)
  | signed {levels : Nat} {phrase sign operand : Phrase} {rest : List Phrase} {value : Int}
      (kind : phrase.kind = .unaryExpression) (children : phrase.children = sign :: operand :: rest)
      (plain : sign.text source = "-" ∨ sign.text source = "+")
      (read :
        Literal.read (sign.text source ++ operand.text source).toList phrase.span = .ok value) :
      Lowered source levels phrase (.number phrase.span value)
  | identifier {levels : Nat} {phrase : Phrase} (kind : phrase.kind = .variableName) :
      Lowered source levels phrase (.identifier phrase.span (phrase.text source))
  | binary {levels : Nat} {phrase left sign right : Phrase} {rest : List Phrase}
      {operator : Operator} {first second : Expr} (kind : phrase.kind = .binaryExpression)
      (children : phrase.children = left :: sign :: right :: rest)
      (symbol : Operator.ofSymbol? (sign.text source) = some operator)
      (loweredLeft : Lowered source levels left first)
      (loweredRight : Lowered source levels right second) :
      Lowered source (levels + 1) phrase (.binary phrase.span operator first second)
  | unaryCall {levels : Nat} {phrase callee list argument : Phrase} {rest : List Phrase}
      {builtin : Builtin} {value : Expr} (kind : phrase.kind = .callExpression)
      (children : phrase.children = callee :: list :: rest) (arity : builtin.arity = 1)
      (member : argument ∈ list.children) (lowered : Lowered source levels argument value) :
      Lowered source (levels + 1) phrase (.unaryCall phrase.span builtin value)
  | binaryCall {levels : Nat} {phrase callee list argument other : Phrase} {rest : List Phrase}
      {builtin : Builtin} {first second : Expr} (kind : phrase.kind = .callExpression)
      (children : phrase.children = callee :: list :: rest) (arity : builtin.arity = 2)
      (member : argument ∈ list.children) (lowered : Lowered source levels argument first)
      (otherMember : other ∈ list.children) (otherLowered : Lowered source levels other second) :
      Lowered source (levels + 1) phrase (.binaryCall phrase.span builtin first second)

variable {source : List Char} {levels : Nat} {phrase : Phrase} {expr : Expr}

theorem exists_argument {argument : Phrase → Except CompileError Expr} {phrases : List Phrase}
    {values : List Expr} (read : toArguments source argument phrases = .ok values) {value : Expr}
    (member : value ∈ values) : ∃ child ∈ phrases, argument child = .ok value := by
  fun_induction toArguments source argument phrases generalizing values with
  | case1 =>
    cases read
    simp at member
  | case2 =>
    cases read
    simp at member
  | case3 first rest notClosed ih =>
    obtain ⟨firstValue, readFirst, next⟩ := bind_eq_ok.mp read
    have head : value = firstValue → ∃ child ∈ first :: rest, argument child = .ok value := by
      rintro rfl
      exact ⟨first, by simp, readFirst⟩
    split at next
    · cases next
      exact head (List.mem_singleton.mp member)
    · rename_i separator behind
      split at next
      · obtain ⟨others, readOthers, last⟩ := bind_eq_ok.mp next
        cases last
        rcases List.mem_cons.mp member with same | later
        · exact head same
        · obtain ⟨child, childMember, readChild⟩ := ih readOthers later
          exact ⟨child, by simp [childMember], readChild⟩
      · cases next
        exact head (List.mem_singleton.mp member)
      · simp [complain] at next

theorem lowered_of_toUnary (kind : phrase.kind = .unaryExpression)
    (read : phrase.toUnary source = .ok expr) : Lowered source levels phrase expr := by
  unfold toUnary at read
  split at read
  · simp [complain] at read
  · rename_i sign rest children
    split at read
    · simp [complain] at read
    · rename_i plain
      split at read
      · simp [complain] at read
      · rename_i operand behind
        split at read
        · simp [complain] at read
        · obtain ⟨value, readValue, last⟩ := bind_eq_ok.mp read
          cases last
          refine .signed kind children ?_ readValue
          by_contra other
          exact plain (not_or.mp other)

theorem toBinary_eq_ok {operand : Phrase → Except CompileError Expr} :
    phrase.toBinary source operand = .ok expr ↔ ∃ left sign right rest operator first second,
      phrase.children = left :: sign :: right :: rest ∧
        Operator.ofSymbol? (sign.text source) = some operator ∧ operand left = .ok first ∧
          operand right = .ok second ∧ .binary phrase.span operator first second = expr := by
  constructor
  · intro read
    unfold toBinary at read
    split at read
    · simp [complain] at read
    · rename_i left rest children
      obtain ⟨first, readLeft, next⟩ := bind_eq_ok.mp read
      split at next
      · simp [complain] at next
      · rename_i sign behind
        split at next
        · simp [complain] at next
        · rename_i operator symbol
          split at next
          · simp [complain] at next
          · rename_i right others
            obtain ⟨second, readRight, last⟩ := bind_eq_ok.mp next
            exact ⟨left, sign, right, others, operator, first, second, children, symbol, readLeft,
              readRight, Except.ok.inj last⟩
  · rintro ⟨left, sign, right, rest, operator, first, second, children, symbol, readLeft,
      readRight, rfl⟩
    simp only [toBinary, children, readLeft, ok_bind, symbol, readRight, pure_eq_ok]

theorem lowered_of_toBinary {operand : Phrase → Except CompileError Expr}
    (kind : phrase.kind = .binaryExpression)
    (lower : ∀ {child value}, operand child = .ok value → Lowered source levels child value)
    (read : phrase.toBinary source operand = .ok expr) :
    Lowered source (levels + 1) phrase expr := by
  obtain ⟨left, sign, right, rest, operator, first, second, children, symbol, readLeft, readRight,
    rfl⟩ := toBinary_eq_ok.mp read
  exact .binary kind children symbol (lower readLeft) (lower readRight)

theorem argumentList_eq_ok {argument : Phrase → Except CompileError Expr} {list : Phrase}
    {values : List Expr} :
    argumentList source argument list = .ok values ↔ list.kind = .argumentList ∧
      ∃ opening rest, list.children = opening :: rest ∧
        toArguments source argument rest = .ok values := by
  unfold argumentList
  split
  · rename_i kind
    split
    · rename_i none
      simp [complain, none]
    · rename_i opening rest children
      simp [kind, children]
  · rename_i other
    simp [complain, other]

theorem toCall_eq_ok {argument : Phrase → Except CompileError Expr} :
    phrase.toCall source argument = .ok expr ↔ ∃ callee list rest values,
      phrase.children = callee :: list :: rest ∧ argumentList source argument list = .ok values ∧
        Walk.applied source phrase.span callee.span values = .ok expr := by
  unfold toCall
  split
  · rename_i none
    simp [complain, none]
  · rename_i callee alone
    simp [complain, alone]
  · rename_i callee list rest children
    simp [children, bind_eq_ok]

theorem arity_of_lookup? {name : String} {arity : Nat} {builtin : Builtin}
    (found : Builtin.lookup? name arity = some builtin) : builtin.arity = arity := by
  have passed := List.find?_some found
  simp only [Bool.and_eq_true, decide_eq_true_eq] at passed
  exact passed.2

theorem exists_of_applied {span callee : Span} {values : List Expr}
    (read : Walk.applied source span callee values = .ok expr) :
    (∃ builtin argument, builtin.arity = 1 ∧ values = [argument] ∧
      expr = .unaryCall span builtin argument) ∨
    ∃ builtin first second, builtin.arity = 2 ∧ values = [first, second] ∧
      expr = .binaryCall span builtin first second := by
  unfold Walk.applied at read
  split at read
  · rename_i argument
    split at read
    · rename_i builtin found
      cases read
      exact .inl ⟨builtin, argument, arity_of_lookup? found, rfl, rfl⟩
    · simp at read
  · rename_i first second
    split at read
    · rename_i builtin found
      cases read
      exact .inr ⟨builtin, first, second, arity_of_lookup? found, rfl, rfl⟩
    · simp at read
  · simp at read

theorem lowered_of_toCall {argument : Phrase → Except CompileError Expr}
    (kind : phrase.kind = .callExpression)
    (lower : ∀ {child value}, argument child = .ok value → Lowered source levels child value)
    (read : phrase.toCall source argument = .ok expr) :
    Lowered source (levels + 1) phrase expr := by
  obtain ⟨callee, list, rest, values, children, readList, applied⟩ := toCall_eq_ok.mp read
  obtain ⟨-, opening, inside, same, readInside⟩ := argumentList_eq_ok.mp readList
  have arguments : ∀ value ∈ values, ∃ child ∈ list.children,
      Lowered source levels child value := by
    intro value member
    obtain ⟨child, childMember, readChild⟩ := exists_argument readInside member
    exact ⟨child, by simp [same, childMember], lower readChild⟩
  rcases exists_of_applied applied with
    ⟨builtin, value, arity, rfl, rfl⟩ | ⟨builtin, first, second, arity, rfl, rfl⟩
  · obtain ⟨child, member, lowered⟩ := arguments value (by simp)
    exact .unaryCall kind children arity member lowered
  · obtain ⟨child, member, lowered⟩ := arguments first (by simp)
    obtain ⟨other, otherMember, otherLowered⟩ := arguments second (by simp)
    exact .binaryCall kind children arity member lowered otherMember otherLowered

theorem lowered_of_toExprOf {call binary : Phrase → Except CompileError Expr}
    (ofCall : phrase.kind = .callExpression → call phrase = .ok expr →
      Lowered source levels phrase expr)
    (ofBinary : phrase.kind = .binaryExpression → binary phrase = .ok expr →
      Lowered source levels phrase expr)
    (read : phrase.toExprOf source call binary = .ok expr) : Lowered source levels phrase expr := by
  unfold toExprOf at read
  split at read
  · rename_i kind
    obtain ⟨value, readValue, last⟩ := bind_eq_ok.mp read
    cases last
    exact .number kind readValue
  · rename_i kind
    cases read
    exact .identifier kind
  · rename_i kind
    exact ofCall kind read
  · rename_i kind
    exact lowered_of_toUnary kind read
  · rename_i kind
    exact ofBinary kind read
  · simp [complain] at read

theorem lowered_of_toExpr (read : phrase.toExpr source levels = .ok expr) :
    Lowered source levels phrase expr := by
  induction levels generalizing phrase expr with
  | zero =>
    refine lowered_of_toExprOf (fun _ deep => ?_) (fun _ deep => ?_) read
    · simp [tooDeep] at deep
    · simp [tooDeep] at deep
  | succ levels ih =>
    exact lowered_of_toExprOf (fun kind call => lowered_of_toCall kind ih call)
      (fun kind binary => lowered_of_toBinary kind ih binary) read

end Phrase

end StackScript
