import StackScript.Proofs.Except
import StackScript.Proofs.Unambiguous

set_option autoImplicit false

namespace StackScript

open StackScript.Derivation

namespace Reader

/-- Reads the derivations of a form that go less than `levels` levels deep. -/
structure Reads (reader : Reader) (form : Form) (levels : Nat) : Prop where
  sound : ∀ {tokens rest : List Token} {phrase : Phrase}, reader tokens = .ok (phrase, rest) →
    ∃ derivation : Derivation (.form form), derivation.tokens ++ rest = tokens ∧
      derivation.tree = phrase ∧ derivation.nesting < levels
  complete : ∀ (derivation : Derivation (.form form)) (rest : List Token),
    derivation.nesting < levels → form.Stops rest →
      reader (derivation.tokens ++ rest) = .ok (derivation.tree, rest)

variable (size : Nat) {levels : Nat} {expression factor operand : Reader}

theorem reads_tooDeep (form : Form) : Reads (tooDeep size) form 0 where
  sound success := by simp [tooDeep] at success
  complete derivation _ shallow _ := absurd shallow (Nat.not_lt_zero _)

theorem atom_leaf {token : Token} {kind : Tree.Kind} (fits : token.kind.leaf? = some kind)
    (rest : List Token) :
    atom size expression (token :: rest) = .ok (.leaf kind token.span, rest) := by
  obtain ⟨tokenKind, span⟩ := token
  cases tokenKind with
  | keyword word => cases word <;> simp_all [Token.Kind.leaf?, atom]
  | symbol sign => simp [Token.Kind.leaf?] at fits
  | _ => simp_all [Token.Kind.leaf?, atom]

theorem exists_leaf {token : Token.Kind} {kind : Tree.Kind} {span : Span} {rest : List Token}
    (fits : token.leaf? = some kind) :
    ∃ derivation : Derivation (.form .atom), derivation.tokens ++ rest = ⟨token, span⟩ :: rest ∧
      derivation.tree = .leaf kind span ∧ derivation.nesting < levels + 1 :=
  ⟨.leaf ⟨token, span⟩ kind fits, rfl, rfl, Nat.succ_pos levels⟩

theorem reads_atom (inner : Reads expression .expression levels) :
    Reads (atom size expression) .atom (levels + 1) where
  sound {tokens rest phrase} success := by
    unfold atom at success
    split at success
    -- All alternatives but the parenthesis and the failure take a leaf.
    case h_7 opening behind =>
      obtain ⟨⟨found, after⟩, read, success⟩ := bind_eq_ok.mp success
      dsimp only at success
      split at success
      · rename_i closing final
        obtain ⟨derivation, rfl, rfl, shallow⟩ := inner.sound read
        simp only [Except.ok.injEq, Prod.mk.injEq] at success
        obtain ⟨rfl, rfl⟩ := success
        exact ⟨.parenthesized opening derivation closing, by simp [tokens], rfl,
          Nat.succ_lt_succ shallow⟩
      · simp at success
    case h_8 => simp at success
    all_goals
      simp only [Except.ok.injEq, Prod.mk.injEq] at success
      obtain ⟨rfl, rfl⟩ := success
      exact exists_leaf rfl
  complete derivation rest shallow stops := by
    cases derivation with
    | leaf token kind fits => exact atom_leaf size fits rest
    | parenthesized opening derivation closing =>
      have read := inner.complete derivation (⟨.symbol .closeParen, closing⟩ :: rest)
        (Nat.lt_of_succ_lt_succ shallow) (.cons rfl)
      simp [Derivation.tokens, atom, read, tree]

inductive Inside (levels : Nat) : List Token → List Phrase → List Token → Prop
  | none (closing : Span) (rest : List Token) :
      Inside levels (⟨.symbol .closeParen, closing⟩ :: rest) [.leaf .closeParen closing] rest
  | some (first : Derivation (.form .expression)) (more : Derivation .moreArguments)
      (trailing : Option Span) (closing : Span) (rest : List Token)
      (shallow : first.nesting < levels) (shallowMore : more.nesting < levels + 1) :
      Inside levels
        (first.tokens ++ (more.tokens ++
          (trailingTokens trailing ++ ⟨.symbol .closeParen, closing⟩ :: rest)))
        (first.tree :: (more.tree ++
          (trailing.toList.map (Phrase.leaf .comma) ++ [.leaf .closeParen closing])))
        rest

theorem Inside.behind_comma {tokens rest : List Token} {phrases : List Phrase}
    (inside : Inside levels tokens phrases rest) (argument : Derivation (.form .expression))
    (comma : Span) (shallow : argument.nesting < levels) :
    Inside levels (argument.tokens ++ ⟨.symbol .comma, comma⟩ :: tokens)
      (argument.tree :: .leaf .comma comma :: phrases) rest := by
  cases inside with
  | none closing => exact .some argument .noMore (.some comma) closing rest shallow (Nat.succ_pos _)
  | some first more trailing closing _ shallowFirst shallowMore =>
    have nested : (Derivation.more comma first more).nesting < levels + 1 :=
      Nat.max_lt.mpr ⟨Nat.succ_lt_succ shallowFirst, shallowMore⟩
    simpa [Derivation.tokens, tree] using
      Inside.some argument (.more comma first more) trailing closing rest shallow nested

theorem inside_of_argumentsUpTo (inner : Reads expression .expression levels) {bound : Nat}
    {tokens rest : List Token} {phrases : List Phrase}
    (success : argumentsUpTo size expression bound tokens = .ok (phrases, rest)) :
    Inside levels tokens phrases rest := by
  fun_induction argumentsUpTo size expression bound tokens generalizing phrases with
  | case1 bound closing behind =>
    simp only [Except.ok.injEq, Prod.mk.injEq] at success
    obtain ⟨rfl, rfl⟩ := success
    exact .none closing behind
  | case2 tokens => simp at success
  | case3 bound tokens notClosed ih =>
    obtain ⟨⟨argument, after⟩, read, next⟩ := bind_eq_ok.mp success
    obtain ⟨derivation, rfl, rfl, shallow⟩ := inner.sound read
    dsimp only at next
    split at next
    · rename_i comma behind
      obtain ⟨⟨more, final⟩, readMore, next⟩ := bind_eq_ok.mp next
      simp only [Except.ok.injEq, Prod.mk.injEq] at next
      obtain ⟨rfl, rfl⟩ := next
      exact (ih behind readMore).behind_comma derivation comma shallow
    · rename_i closing behind
      simp only [Except.ok.injEq, Prod.mk.injEq] at next
      obtain ⟨rfl, rfl⟩ := next
      exact .some derivation .noMore none closing behind shallow (Nat.succ_pos _)
    · simp at next

theorem argumentsUpTo_eq (inner : Reads expression .expression levels) {bound : Nat}
    (first : Derivation (.form .expression)) (more : Derivation .moreArguments)
    (trailing : Option Span) (closing : Span) (rest : List Token)
    (shallow : first.nesting < levels) (shallowMore : more.nesting < levels + 1)
    (enough : more.tokens.length < bound) :
    argumentsUpTo size expression bound
        (first.tokens ++ (more.tokens ++
          (trailingTokens trailing ++ ⟨.symbol .closeParen, closing⟩ :: rest))) =
      .ok (first.tree :: (more.tree ++
        (trailing.toList.map (Phrase.leaf .comma) ++ [.leaf .closeParen closing])), rest) := by
  have read := inner.complete first _ shallow
    (stops_moreArguments more ⟨trailing, closing, rest, rfl⟩)
  obtain ⟨bound, rfl⟩ := Nat.exists_eq_add_one_of_ne_zero (Nat.ne_zero_of_lt enough)
  rw [argumentsUpTo.eq_3 size expression _ bound fun _ _ => first.not_starts_closeParen, read]
  -- Every further argument has a comma of its own, which pays for its round.
  match more with
  | .noMore => cases trailing <;> simp [Derivation.tokens, trailingTokens, tree, argumentsUpTo]
  | .more comma argument others =>
    obtain ⟨shallowArgument, shallowOthers⟩ := Nat.max_lt.mp shallowMore
    have enoughOthers : others.tokens.length < bound := by
      simp only [Derivation.tokens, List.length_cons, List.length_append] at enough
      omega
    have readOthers := argumentsUpTo_eq inner argument others trailing closing rest
      (Nat.lt_of_succ_lt_succ shallowArgument) shallowOthers enoughOthers
    simp [Derivation.tokens, tree, readOthers]

theorem arguments_sound (inner : Reads expression .expression levels) {opening : Span}
    {tokens rest : List Token} {phrase : Phrase}
    (success : arguments size expression opening tokens = .ok (phrase, rest)) :
    ∃ derivation : Derivation (.form .arguments),
      derivation.tokens ++ rest = ⟨.symbol .openParen, opening⟩ :: tokens ∧
      derivation.tree = phrase ∧ derivation.nesting < levels + 1 := by
  obtain ⟨⟨phrases, final⟩, read, last⟩ := bind_eq_ok.mp success
  simp only [Except.ok.injEq, Prod.mk.injEq] at last
  obtain ⟨rfl, rfl⟩ := last
  cases inside_of_argumentsUpTo size inner read with
  | none closing =>
    exact ⟨.noArguments opening closing, rfl, rfl, Nat.succ_pos levels⟩
  | some first more trailing closing _ shallow shallowMore =>
    exact ⟨.arguments opening first more trailing closing, by simp [Derivation.tokens], rfl,
      Nat.max_lt.mpr ⟨Nat.succ_lt_succ shallow, shallowMore⟩⟩

theorem arguments_complete (inner : Reads expression .expression levels)
    (derivation : Derivation (.form .arguments)) (shallow : derivation.nesting < levels + 1)
    (rest : List Token) :
    ∃ opening behind, derivation.tokens ++ rest = ⟨.symbol .openParen, opening⟩ :: behind ∧
      arguments size expression opening behind = .ok (derivation.tree, rest) := by
  cases derivation with
  | noArguments opening closing =>
    exact ⟨opening, ⟨.symbol .closeParen, closing⟩ :: rest, rfl,
      by simp [arguments, argumentsUpTo, tree]⟩
  | arguments opening first more trailing closing =>
    obtain ⟨shallowFirst, shallowMore⟩ := Nat.max_lt.mp shallow
    refine ⟨opening, first.tokens ++ (more.tokens ++
      (trailingTokens trailing ++ ⟨.symbol .closeParen, closing⟩ :: rest)),
      by simp [Derivation.tokens], ?_⟩
    rw [arguments, argumentsUpTo_eq size inner first more trailing closing rest
      (Nat.lt_of_succ_lt_succ shallowFirst) shallowMore (by simp; omega)]
    rfl

theorem callsUpTo_sound (inner : Reads expression .expression levels) {bound : Nat}
    {tokens rest : List Token} {callee phrase : Phrase}
    (success : callsUpTo size expression bound callee tokens = .ok (phrase, rest)) :
    ∃ derivation : Derivation .applications, derivation.tokens ++ rest = tokens ∧
      derivation.tree callee = phrase ∧ derivation.nesting < levels + 1 := by
  fun_induction callsUpTo size expression bound callee tokens with
  | case1 bound callee opening behind ih =>
    obtain ⟨⟨list, after⟩, readList, next⟩ := bind_eq_ok.mp success
    obtain ⟨first, sameFirst, rfl, shallow⟩ := arguments_sound size inner readList
    obtain ⟨more, rfl, rfl, shallowMore⟩ := ih _ _ next
    exact ⟨.application first more, by simpa [Derivation.tokens] using sameFirst, rfl,
      Nat.max_lt.mpr ⟨shallow, shallowMore⟩⟩
  | case2 =>
    simp only [Except.ok.injEq, Prod.mk.injEq] at success
    obtain ⟨rfl, rfl⟩ := success
    exact ⟨.noApplication, rfl, rfl, Nat.succ_pos levels⟩

theorem callsUpTo_stops {bound : Nat} {callee : Phrase} {rest : List Token}
    (stops : Form.call.Stops rest) :
    callsUpTo size expression bound callee rest = .ok (callee, rest) := by
  unfold callsUpTo
  split
  · have continues := stops.head
    simp [Form.continues] at continues
  · rfl

theorem callsUpTo_eq (inner : Reads expression .expression levels) {bound : Nat}
    (applications : Derivation .applications) (callee : Phrase) {rest : List Token}
    (shallow : applications.nesting < levels + 1) (enough : applications.tokens.length ≤ bound)
    (stops : Form.call.Stops rest) :
    callsUpTo size expression bound callee (applications.tokens ++ rest) =
      .ok (applications.tree callee, rest) := by
  match applications with
  | .noApplication => exact callsUpTo_stops size stops
  | .application list others =>
    obtain ⟨shallowList, shallowOthers⟩ := Nat.max_lt.mp shallow
    obtain ⟨opening, behind, same, readList⟩ :=
      arguments_complete size inner list shallowList (others.tokens ++ rest)
    obtain ⟨token, inside, tokensList, -⟩ := list.exists_head
    have enoughOthers : others.tokens.length + 1 ≤ bound := by
      simp only [Derivation.tokens, tokensList, List.length_cons, List.length_append] at enough
      omega
    obtain ⟨bound, rfl⟩ := Nat.exists_eq_add_one_of_ne_zero (Nat.ne_zero_of_lt enoughOthers)
    rw [Derivation.tokens, List.append_assoc, same, callsUpTo, readList]
    exact callsUpTo_eq inner others _ shallowOthers (Nat.le_of_succ_le_succ enoughOthers) stops

theorem reads_call (inner : Reads expression .expression levels) :
    Reads (call size expression) .call (levels + 1) where
  sound success := by
    obtain ⟨⟨callee, after⟩, readCallee, next⟩ := bind_eq_ok.mp success
    obtain ⟨first, rfl, rfl, shallow⟩ := (reads_atom size inner).sound readCallee
    obtain ⟨applications, rfl, rfl, shallowApplications⟩ := callsUpTo_sound size inner next
    exact ⟨.call first applications, by simp [Derivation.tokens], rfl,
      Nat.max_lt.mpr ⟨shallow, shallowApplications⟩⟩
  complete derivation rest shallow stops := by
    cases derivation with
    | call callee applications =>
      obtain ⟨shallowCallee, shallowApplications⟩ := Nat.max_lt.mp shallow
      have readCallee := (reads_atom size inner).complete callee
        (applications.tokens ++ rest) shallowCallee (Form.atom_stops _)
      rw [Derivation.tokens, List.append_assoc, call, readCallee]
      exact callsUpTo_eq size inner applications _ shallowApplications (by simp) stops

theorem reads_power (inner : Reads expression .expression levels)
    (innerFactor : Reads factor .factor levels) :
    Reads (power size expression factor) .power (levels + 1) where
  sound success := by
    obtain ⟨⟨base, after⟩, readBase, next⟩ := bind_eq_ok.mp success
    obtain ⟨root, rfl, rfl, shallow⟩ := (reads_call size inner).sound readBase
    dsimp only at next
    split at next
    · rename_i sign behind
      obtain ⟨⟨raised, final⟩, readExponent, last⟩ := bind_eq_ok.mp next
      simp only [Except.ok.injEq, Prod.mk.injEq] at last
      obtain ⟨rfl, rfl⟩ := last
      obtain ⟨exponent, rfl, rfl, shallowExponent⟩ := innerFactor.sound readExponent
      exact ⟨.raised root sign exponent, by simp [Derivation.tokens], rfl,
        Nat.max_lt.mpr ⟨shallow, Nat.succ_lt_succ shallowExponent⟩⟩
    · simp only [Except.ok.injEq, Prod.mk.injEq] at next
      obtain ⟨rfl, rfl⟩ := next
      exact ⟨.base root, rfl, rfl, shallow⟩
  complete derivation rest shallow stops := by
    cases derivation with
    | base root =>
      have readRoot := (reads_call size inner).complete root rest shallow stops.call
      rw [power, Derivation.tokens, readRoot, ok_bind]
      dsimp only
      split
      · have continues := stops.head
        simp [Form.continues, Token.Kind.continuesPower] at continues
      · rfl
    | raised root sign exponent =>
      obtain ⟨shallowRoot, shallowExponent⟩ := Nat.max_lt.mp shallow
      have readRoot := (reads_call size inner).complete root
        (⟨.symbol .power, sign⟩ :: (exponent.tokens ++ rest)) shallowRoot (.cons rfl)
      have readExponent := innerFactor.complete exponent rest
        (Nat.lt_of_succ_lt_succ shallowExponent) stops
      rw [power, Derivation.tokens, List.append_assoc, List.cons_append, readRoot, ok_bind]
      simp [readExponent, tree]

theorem reads_factorOf (inner : Reads expression .expression levels)
    (innerFactor : Reads factor .factor levels) :
    Reads (factorOf size expression factor) .factor (levels + 1) where
  sound {tokens rest phrase} success := by
    have unsigned (read : power size expression factor tokens = .ok (phrase, rest)) :
        ∃ derivation : Derivation (.form .factor), derivation.tokens ++ rest = tokens ∧
          derivation.tree = phrase ∧ derivation.nesting < levels + 1 := by
      obtain ⟨derivation, same, sameTree, shallow⟩ :=
        (reads_power size inner innerFactor).sound read
      exact ⟨.unsigned derivation, same, sameTree, shallow⟩
    cases tokens with
    | nil => exact unsigned success
    | cons token behind =>
      rw [factorOf] at success
      split at success
      · rename_i fits
        obtain ⟨⟨found, final⟩, readOperand, last⟩ := bind_eq_ok.mp success
        simp only [Except.ok.injEq, Prod.mk.injEq] at last
        obtain ⟨rfl, rfl⟩ := last
        obtain ⟨operand, rfl, rfl, shallow⟩ := innerFactor.sound readOperand
        exact ⟨.unary token fits operand, rfl, rfl, Nat.succ_lt_succ shallow⟩
      · exact unsigned success
  complete derivation rest shallow stops := by
    cases derivation with
    | unary sign fits operand =>
      have readOperand := innerFactor.complete operand rest (Nat.lt_of_succ_lt_succ shallow) stops
      rw [Derivation.tokens, List.cons_append, factorOf, if_pos fits, readOperand]
      rfl
    | unsigned derivation =>
      have readPower := (reads_power size inner innerFactor).complete derivation rest shallow
        stops
      -- The reader looks for a sign first; no power starts with one.
      obtain ⟨token, behind, same, starts⟩ := derivation.exists_head
      have signless : token.kind.isUnary ≠ true := by
        intro unary
        simp [Form.starts, not_startsAtom_of_isUnary unary] at starts
      rw [Derivation.tokens, same, List.cons_append, factorOf, if_neg signless,
        ← List.cons_append, ← same, readPower]
      rfl

theorem chainUpTo_sound {tier : Tier} (operands : Reads operand tier.operand levels)
    (positive : 0 < levels) {bound : Nat} {tokens rest : List Token} {left phrase : Phrase}
    (success : chainUpTo tier.isOperator tier.operatorKind operand bound left tokens =
      .ok (phrase, rest)) :
    ∃ derivation : Derivation (.links tier), derivation.tokens ++ rest = tokens ∧
      derivation.tree left = phrase ∧ derivation.nesting < levels := by
  fun_induction chainUpTo tier.isOperator tier.operatorKind operand bound left tokens with
  | case1 bound left token behind fits ih =>
    obtain ⟨⟨right, after⟩, readRight, next⟩ := bind_eq_ok.mp success
    obtain ⟨first, rfl, rfl, shallow⟩ := operands.sound readRight
    obtain ⟨others, rfl, rfl, shallowOthers⟩ := ih _ _ next
    exact ⟨.link token fits first others, by simp [Derivation.tokens], rfl,
      Nat.max_lt.mpr ⟨shallow, shallowOthers⟩⟩
  | case2 | case3 =>
    simp only [Except.ok.injEq, Prod.mk.injEq] at success
    obtain ⟨rfl, rfl⟩ := success
    exact ⟨.noLink, rfl, rfl, positive⟩

theorem chainUpTo_stops {tier : Tier} {bound : Nat} {left : Phrase} {rest : List Token}
    (stops : (Form.chain tier).Stops rest) :
    chainUpTo tier.isOperator tier.operatorKind operand bound left rest = .ok (left, rest) := by
  unfold chainUpTo
  split
  · rename_i token behind
    have continues := stops.head
    rw [Tier.continues_chain, Bool.or_eq_false_iff] at continues
    rw [if_neg (by simp [continues.2])]
  · rfl

theorem chainUpTo_eq {tier : Tier} (operands : Reads operand tier.operand levels) {bound : Nat}
    (links : Derivation (.links tier)) (left : Phrase) {rest : List Token}
    (shallow : links.nesting < levels) (enough : links.tokens.length ≤ bound)
    (stops : (Form.chain tier).Stops rest) :
    chainUpTo tier.isOperator tier.operatorKind operand bound left (links.tokens ++ rest) =
      .ok (links.tree left, rest) := by
  match links with
  | .noLink => exact chainUpTo_stops stops
  | .link operator fits right others =>
    obtain ⟨shallowRight, shallowOthers⟩ := Nat.max_lt.mp shallow
    have readRight := operands.complete right (others.tokens ++ rest) shallowRight
      (stops_links others stops)
    simp only [Derivation.tokens, List.length_cons, List.length_append] at enough
    obtain ⟨bound, rfl⟩ := Nat.exists_eq_add_one_of_ne_zero (Nat.ne_zero_of_lt enough)
    rw [Derivation.tokens, List.cons_append, List.append_assoc, chainUpTo, if_pos fits, readRight]
    exact chainUpTo_eq operands others _ shallowOthers (by omega) stops

theorem reads_chain (tier : Tier) (operands : Reads operand tier.operand levels) :
    Reads (chain tier.isOperator tier.operatorKind operand) (.chain tier) levels where
  sound success := by
    obtain ⟨⟨left, after⟩, readLeft, next⟩ := bind_eq_ok.mp success
    obtain ⟨first, rfl, rfl, shallow⟩ := operands.sound readLeft
    obtain ⟨links, rfl, rfl, shallowLinks⟩ :=
      chainUpTo_sound operands (Nat.zero_lt_of_lt shallow) next
    exact ⟨.chain first links, by simp [Derivation.tokens], rfl,
      Nat.max_lt.mpr ⟨shallow, shallowLinks⟩⟩
  complete derivation rest shallow stops := by
    cases derivation with
    | chain first links =>
      obtain ⟨shallowFirst, shallowLinks⟩ := Nat.max_lt.mp shallow
      have readFirst := operands.complete first (links.tokens ++ rest) shallowFirst
        (stops_links links stops)
      rw [Derivation.tokens, List.append_assoc, chain, readFirst]
      exact chainUpTo_eq operands links _ shallowLinks (by simp) stops

theorem reads_comparison (factors : Reads factor .factor levels) :
    Reads (comparison factor) (.chain .comparison) levels :=
  reads_chain .comparison (reads_chain .sum (reads_chain .product factors))

theorem reads_expressionOf (inner : Reads expression .expression levels)
    (factors : Reads factor .factor (levels + 1)) :
    Reads (expressionOf expression factor) .expression (levels + 1) where
  sound success := by
    unfold expressionOf at success
    split at success
    · rename_i word behind
      obtain ⟨⟨found, final⟩, readOperand, last⟩ := bind_eq_ok.mp success
      simp only [Except.ok.injEq, Prod.mk.injEq] at last
      obtain ⟨rfl, rfl⟩ := last
      obtain ⟨derivation, rfl, rfl, shallow⟩ := inner.sound readOperand
      exact ⟨.not word derivation, rfl, rfl, Nat.succ_lt_succ shallow⟩
    · obtain ⟨derivation, same, sameTree, shallow⟩ := (reads_comparison factors).sound success
      exact ⟨.compared derivation, same, sameTree, shallow⟩
  complete derivation rest shallow stops := by
    cases derivation with
    | not word derivation =>
      have read := inner.complete derivation rest (Nat.lt_of_succ_lt_succ shallow) stops
      rw [Derivation.tokens, List.cons_append, expressionOf, read]
      rfl
    | compared operands =>
      have read := (reads_comparison factors).complete operands rest shallow stops
      rw [Derivation.tokens, expressionOf.eq_2, read]
      · rfl
      · intro word behind same
        have starts := operands.starts_of_cons same
        simp [Form.starts, Token.Kind.isUnary, Token.Kind.startsAtom, Token.Kind.leaf?] at starts

theorem reads_level (levels : Nat) :
    Reads (level size levels).expression .expression levels ∧
      Reads (level size levels).factor .factor levels := by
  -- A level hands the readers of the level below to its own, which take one level more.
  induction levels with
  | zero => exact ⟨reads_tooDeep size _, reads_tooDeep size _⟩
  | succ levels ih =>
    have factors := reads_factorOf size ih.1 ih.2
    exact ⟨reads_expressionOf ih.1 factors, factors⟩

end Reader

end StackScript
