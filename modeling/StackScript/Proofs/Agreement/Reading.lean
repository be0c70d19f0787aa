import StackScript.Proofs.Agreement

set_option autoImplicit false

namespace StackScript

namespace Reader

variable {correspondence : Correspondence} {size otherSize : Nat}

structure Follows (correspondence : Correspondence) {α β : Type} (alike : α → β → Prop)
    (tokens others : List Token) (read : α × List Token) (otherRead : β × List Token) : Prop where
  value : alike read.1 otherRead.1
  rest : Token.Alike correspondence read.2 otherRead.2
  behind : read.2 <:+ tokens
  otherBehind : otherRead.2 <:+ others

theorem Follows.trans {α β : Type} {alike : α → β → Prop}
    {tokens others rest otherRest : List Token}
    {read : α × List Token} {otherRead : β × List Token}
    (follows : Follows correspondence alike rest otherRest read otherRead)
    (behind : rest <:+ tokens) (otherBehind : otherRest <:+ others) :
    Follows correspondence alike tokens others read otherRead :=
  ⟨follows.value, follows.rest, follows.behind.trans behind, follows.otherBehind.trans otherBehind⟩

def Agrees (correspondence : Correspondence) (reader other : Reader) : Prop :=
  ∀ {tokens others : List Token}, Token.Alike correspondence tokens others →
    Agree (Follows correspondence (Phrase.Alike correspondence) tokens others) (reader tokens)
      (other others)

variable {expression factor operand otherExpression otherFactor otherOperand : Reader}

theorem Follows.leaf {kind : Tree.Kind} {token other : Token} {rest behind : List Token}
    (isToken : kind.isToken = true) (spelled : correspondence.Spell token.span other.span)
    (tail : Token.Alike correspondence rest behind) :
    Follows correspondence (Phrase.Alike correspondence) (token :: rest) (other :: behind)
      (.leaf kind token.span, rest) (.leaf kind other.span, behind) :=
  ⟨.leaf isToken spelled, tail, List.suffix_cons .., List.suffix_cons ..⟩

theorem agrees_tooDeep : Agrees correspondence (tooDeep size) (tooDeep otherSize) :=
  fun _ => .error rfl

theorem agrees_atom (inner : Agrees correspondence expression otherExpression) :
    Agrees correspondence (atom size expression) (atom otherSize otherExpression) := by
  intro tokens others alike
  cases alike.head with
  | ends ends otherEnds =>
    cases ends.cases <;> cases otherEnds.cases <;> exact .unexpected
  | word kind plain spelled tail =>
    rename_i span other rest behind
    cases kind with
    | number | name | string => exact .ok (.leaf rfl spelled tail)
    | keyword word =>
      cases word with
      | true | false | none => exact .ok (.leaf rfl spelled tail)
      | pass | not => exact .unexpected
    | newline => cases plain
    | symbol sign =>
      cases sign with
      | openParen =>
        apply (inner tail).bind
        rintro ⟨phrase, after⟩ ⟨otherPhrase, otherAfter⟩ ⟨same, sameAfter, shorter, otherShorter⟩
        cases sameAfter.head with
        | ends ends otherEnds =>
          cases ends.cases <;> cases otherEnds.cases <;> exact .unexpected
        | word kind plain closing final =>
          cases kind with
          | symbol sign =>
            cases sign with
            | closeParen =>
              apply Agree.ok
              refine Follows.trans ⟨?_, final, List.suffix_cons .., List.suffix_cons ..⟩
                (shorter.trans (List.suffix_cons ..)) (otherShorter.trans (List.suffix_cons ..))
              exact (Phrase.Alike.leaf rfl spelled).wrap rfl
                (.cons same (.cons (.leaf rfl closing) .nil))
            | _ => exact .unexpected
          | _ => exact .unexpected
      | _ => exact .unexpected

-- The bounds may differ, as the separators behind a statement may: none of them is reached.
theorem agree_argumentsUpTo (inner : Agrees correspondence expression otherExpression)
    {bound otherBound : Nat} {tokens others : List Token} (enough : tokens.length < bound)
    (otherEnough : others.length < otherBound) (alike : Token.Alike correspondence tokens others) :
    Agree (Follows correspondence (List.Forall₂ (Phrase.Alike correspondence)) tokens others)
      (argumentsUpTo size expression bound tokens)
      (argumentsUpTo otherSize otherExpression otherBound others) := by
  induction bound generalizing otherBound tokens others with
  | zero => exact absurd enough (Nat.not_lt_zero _)
  | succ bound ih =>
    obtain ⟨otherBound, rfl⟩ := Nat.exists_eq_add_one_of_ne_zero (Nat.ne_zero_of_lt otherEnough)
    have argument (unclosed : ∀ closing rest, tokens ≠ ⟨.symbol .closeParen, closing⟩ :: rest)
        (otherUnclosed : ∀ closing rest, others ≠ ⟨.symbol .closeParen, closing⟩ :: rest) :
        Agree (Follows correspondence (List.Forall₂ (Phrase.Alike correspondence)) tokens others)
          (argumentsUpTo size expression (bound + 1) tokens)
          (argumentsUpTo otherSize otherExpression (otherBound + 1) others) := by
      rw [argumentsUpTo.eq_3 size expression _ _ unclosed,
        argumentsUpTo.eq_3 otherSize otherExpression _ _ otherUnclosed]
      apply (inner alike).bind
      rintro ⟨phrase, after⟩ ⟨otherPhrase, otherAfter⟩ ⟨same, sameAfter, shorter, otherShorter⟩
      cases sameAfter.head with
      | ends ends otherEnds =>
        cases ends.cases <;> cases otherEnds.cases <;> exact .unexpected
      | word kind plain spelled final =>
        rename_i span other rest behind
        cases kind with
        | symbol sign =>
          cases sign with
          | comma =>
            have fewer := shorter.length_le
            have otherFewer := otherShorter.length_le
            rw [List.length_cons] at fewer otherFewer
            apply (ih (by omega) (by omega) final).bind
            rintro ⟨more, last⟩ ⟨otherMore, otherLast⟩ ⟨sameMore, sameLast, within, otherWithin⟩
            apply Agree.ok
            refine ⟨.cons same (.cons (.leaf rfl spelled) sameMore), sameLast, ?_, ?_⟩
            next => exact (within.trans (List.suffix_cons ..)).trans shorter
            next => exact (otherWithin.trans (List.suffix_cons ..)).trans otherShorter
          | closeParen =>
            apply Agree.ok
            refine ⟨.cons same (.cons (.leaf rfl spelled) .nil), final, ?_, ?_⟩
            next => exact (List.suffix_cons ..).trans shorter
            next => exact (List.suffix_cons ..).trans otherShorter
          | _ => exact .unexpected
        | _ => exact .unexpected
    cases alike.head with
    | ends ends otherEnds =>
      apply argument
      next => cases ends.cases <;> simp
      next => cases otherEnds.cases <;> simp
    | word kind plain spelled tail =>
      by_cases closed : kind = .symbol .closeParen
      next =>
        subst closed
        rw [argumentsUpTo, argumentsUpTo]
        exact .ok ⟨.cons (.leaf rfl spelled) .nil, tail, List.suffix_cons .., List.suffix_cons ..⟩
      next => exact argument (by simp [closed]) (by simp [closed])

theorem agrees_arguments (inner : Agrees correspondence expression otherExpression)
    {opening other : Span} (spelled : correspondence.Spell opening other) :
    Agrees correspondence (arguments size expression opening)
      (arguments otherSize otherExpression other) := by
  intro tokens others alike
  apply (agree_argumentsUpTo inner (Nat.lt_succ_self _) (Nat.lt_succ_self _) alike).bind
  rintro ⟨inside, rest⟩ ⟨otherInside, behind⟩ ⟨same, tail, shorter, otherShorter⟩
  exact .ok ⟨(Phrase.Alike.leaf rfl spelled).wrap rfl same, tail, shorter, otherShorter⟩

theorem stops_of_ends {tokens : List Token} (ends : Token.Ends tokens) (form : Form) :
    form.Stops tokens := by
  cases ends.cases with
  | nil => simp [Form.Stops]
  | newline | semicolon =>
    apply Form.Stops.cons
    cases form with
    | chain tier => cases tier <;> rfl
    | _ => rfl

theorem agree_callsUpTo (inner : Agrees correspondence expression otherExpression)
    {bound otherBound : Nat} {tokens others : List Token} {callee otherCallee : Phrase}
    (enough : tokens.length ≤ bound) (otherEnough : others.length ≤ otherBound)
    (called : Phrase.Alike correspondence callee otherCallee)
    (alike : Token.Alike correspondence tokens others) :
    Agree (Follows correspondence (Phrase.Alike correspondence) tokens others)
      (callsUpTo size expression bound callee tokens)
      (callsUpTo otherSize otherExpression otherBound otherCallee others) := by
  induction bound generalizing otherBound tokens others callee otherCallee with
  | zero =>
    cases List.eq_nil_of_length_eq_zero (Nat.le_zero.mp enough)
    cases alike.head with
    | ends ends otherEnds =>
      rw [callsUpTo_stops otherSize (stops_of_ends otherEnds .call)]
      exact .ok ⟨called, alike, List.suffix_rfl, List.suffix_rfl⟩
  | succ bound ih =>
    have stop (stops : Form.call.Stops tokens) (otherStops : Form.call.Stops others) :
        Agree (Follows correspondence (Phrase.Alike correspondence) tokens others)
          (callsUpTo size expression (bound + 1) callee tokens)
          (callsUpTo otherSize otherExpression otherBound otherCallee others) := by
      rw [callsUpTo_stops size stops, callsUpTo_stops otherSize otherStops]
      exact .ok ⟨called, alike, List.suffix_rfl, List.suffix_rfl⟩
    cases alike.head with
    | ends ends otherEnds => exact stop (stops_of_ends ends .call) (stops_of_ends otherEnds .call)
    | word kind plain spelled tail =>
      by_cases opens : kind = .symbol .openParen
      next =>
        subst opens
        obtain ⟨otherBound, rfl⟩ := Nat.exists_eq_add_one_of_ne_zero (Nat.ne_zero_of_lt otherEnough)
        apply (agrees_arguments inner spelled tail).bind
        rintro ⟨list, rest⟩ ⟨otherList, behind⟩ ⟨same, tail, shorter, otherShorter⟩
        have fewer := shorter.length_le
        have otherFewer := otherShorter.length_le
        rw [List.length_cons] at enough otherEnough
        have applied : Phrase.Alike correspondence (.wrap .callExpression callee [list])
            (.wrap .callExpression otherCallee [otherList]) := called.wrap rfl (.cons same .nil)
        apply (ih (Nat.le_trans fewer (Nat.le_of_succ_le_succ enough))
          (Nat.le_trans otherFewer (Nat.le_of_succ_le_succ otherEnough)) applied tail).mono
        intro read otherRead follows
        exact follows.trans (shorter.trans (List.suffix_cons ..))
          (otherShorter.trans (List.suffix_cons ..))
      next =>
        apply stop
        next => exact .cons (by simpa [Form.continues] using opens)
        next => exact .cons (by simpa [Form.continues] using opens)

theorem agrees_call (inner : Agrees correspondence expression otherExpression) :
    Agrees correspondence (call size expression) (call otherSize otherExpression) := by
  intro tokens others alike
  apply (agrees_atom inner alike).bind
  rintro ⟨callee, rest⟩ ⟨otherCallee, behind⟩ ⟨same, tail, shorter, otherShorter⟩
  apply (agree_callsUpTo inner (Nat.le_refl _) (Nat.le_refl _) same tail).mono
  intro read otherRead follows
  exact follows.trans shorter otherShorter

theorem agrees_power (inner : Agrees correspondence expression otherExpression)
    (innerFactor : Agrees correspondence factor otherFactor) :
    Agrees correspondence (power size expression factor)
      (power otherSize otherExpression otherFactor) := by
  intro tokens others alike
  apply (agrees_call inner alike).bind
  rintro ⟨base, rest⟩ ⟨otherBase, behind⟩ ⟨same, tail, shorter, otherShorter⟩
  cases tail.head with
  | ends ends otherEnds =>
    cases ends.cases <;> cases otherEnds.cases <;> exact .ok ⟨same, tail, shorter, otherShorter⟩
  | word kind plain spelled final =>
    cases kind with
    | symbol sign =>
      cases sign with
      | power =>
        apply (innerFactor final).bind
        rintro ⟨raised, last⟩ ⟨otherRaised, otherLast⟩ ⟨sameRaised, sameLast, within, otherWithin⟩
        apply Agree.ok
        refine ⟨same.wrap rfl (.cons (.leaf rfl spelled) (.cons sameRaised .nil)), sameLast, ?_, ?_⟩
        next => exact (within.trans (List.suffix_cons ..)).trans shorter
        next => exact (otherWithin.trans (List.suffix_cons ..)).trans otherShorter
      | _ => exact .ok ⟨same, tail, shorter, otherShorter⟩
    | _ => exact .ok ⟨same, tail, shorter, otherShorter⟩

theorem agrees_factorOf (inner : Agrees correspondence expression otherExpression)
    (innerFactor : Agrees correspondence factor otherFactor) :
    Agrees correspondence (factorOf size expression factor)
      (factorOf otherSize otherExpression otherFactor) := by
  intro tokens others alike
  cases alike.head with
  | ends ends otherEnds =>
    cases ends.cases <;> cases otherEnds.cases <;> exact agrees_power inner innerFactor alike
  | word kind plain spelled tail =>
    rw [factorOf, factorOf]
    by_cases sign : kind.isUnary = true
    next =>
      rw [if_pos sign, if_pos sign]
      apply (innerFactor tail).bind
      rintro ⟨phrase, rest⟩ ⟨otherPhrase, behind⟩ ⟨same, final, shorter, otherShorter⟩
      apply Agree.ok
      refine ⟨(Phrase.Alike.leaf rfl spelled).wrap rfl (.cons same .nil), final, ?_, ?_⟩
      next => exact shorter.trans (List.suffix_cons ..)
      next => exact otherShorter.trans (List.suffix_cons ..)
    next =>
      rw [if_neg sign, if_neg sign]
      exact agrees_power inner innerFactor alike

theorem agree_chainUpTo {tier : Tier} (operands : Agrees correspondence operand otherOperand)
    {bound otherBound : Nat} {tokens others : List Token} {left otherLeft : Phrase}
    (enough : tokens.length ≤ bound) (otherEnough : others.length ≤ otherBound)
    (extended : Phrase.Alike correspondence left otherLeft)
    (alike : Token.Alike correspondence tokens others) :
    Agree (Follows correspondence (Phrase.Alike correspondence) tokens others)
      (chainUpTo tier.isOperator tier.operatorKind operand bound left tokens)
      (chainUpTo tier.isOperator tier.operatorKind otherOperand otherBound otherLeft others) := by
  induction bound generalizing otherBound tokens others left otherLeft with
  | zero =>
    cases List.eq_nil_of_length_eq_zero (Nat.le_zero.mp enough)
    cases alike.head with
    | ends ends otherEnds =>
      rw [chainUpTo_stops (stops_of_ends otherEnds (.chain tier))]
      exact .ok ⟨extended, alike, List.suffix_rfl, List.suffix_rfl⟩
  | succ bound ih =>
    cases alike.head with
    | ends ends otherEnds =>
      rw [chainUpTo_stops (stops_of_ends ends (.chain tier)),
        chainUpTo_stops (stops_of_ends otherEnds (.chain tier))]
      exact .ok ⟨extended, alike, List.suffix_rfl, List.suffix_rfl⟩
    | word kind plain spelled tail =>
      obtain ⟨otherBound, rfl⟩ := Nat.exists_eq_add_one_of_ne_zero (Nat.ne_zero_of_lt otherEnough)
      rw [chainUpTo, chainUpTo]
      by_cases fits : tier.isOperator kind = true
      next =>
        rw [if_pos fits, if_pos fits]
        apply (operands tail).bind
        rintro ⟨right, rest⟩ ⟨otherRight, behind⟩ ⟨same, final, shorter, otherShorter⟩
        have fewer := shorter.length_le
        have otherFewer := otherShorter.length_le
        rw [List.length_cons] at enough otherEnough
        have sign : tier.operatorKind.isToken = true := by cases tier <;> rfl
        have longer : Phrase.Alike correspondence
            (.wrap .binaryExpression left [.leaf tier.operatorKind _, right])
            (.wrap .binaryExpression otherLeft [.leaf tier.operatorKind _, otherRight]) :=
          extended.wrap rfl (.cons (.leaf sign spelled) (.cons same .nil))
        apply (ih (Nat.le_trans fewer (Nat.le_of_succ_le_succ enough))
          (Nat.le_trans otherFewer (Nat.le_of_succ_le_succ otherEnough)) longer final).mono
        intro read otherRead follows
        exact follows.trans (shorter.trans (List.suffix_cons ..))
          (otherShorter.trans (List.suffix_cons ..))
      next =>
        rw [if_neg fits, if_neg fits]
        exact .ok ⟨extended, alike, List.suffix_rfl, List.suffix_rfl⟩

theorem agrees_chain (tier : Tier) (operands : Agrees correspondence operand otherOperand) :
    Agrees correspondence (chain tier.isOperator tier.operatorKind operand)
      (chain tier.isOperator tier.operatorKind otherOperand) := by
  intro tokens others alike
  apply (operands alike).bind
  rintro ⟨left, rest⟩ ⟨otherLeft, behind⟩ ⟨same, tail, shorter, otherShorter⟩
  apply (agree_chainUpTo operands (Nat.le_refl _) (Nat.le_refl _) same tail).mono
  intro read otherRead follows
  exact follows.trans shorter otherShorter

theorem agrees_comparison (factors : Agrees correspondence factor otherFactor) :
    Agrees correspondence (comparison factor) (comparison otherFactor) :=
  agrees_chain .comparison (agrees_chain .sum (agrees_chain .product factors))

theorem agrees_expressionOf (inner : Agrees correspondence expression otherExpression)
    (factors : Agrees correspondence factor otherFactor) :
    Agrees correspondence (expressionOf expression factor)
      (expressionOf otherExpression otherFactor) := by
  intro tokens others alike
  have compared := agrees_comparison factors alike
  cases alike.head with
  | ends ends otherEnds =>
    cases ends.cases <;> cases otherEnds.cases <;> exact compared
  | word kind plain spelled tail =>
    cases kind with
    | keyword word =>
      cases word with
      | not =>
        apply (inner tail).bind
        rintro ⟨phrase, rest⟩ ⟨otherPhrase, behind⟩ ⟨same, final, shorter, otherShorter⟩
        apply Agree.ok
        refine ⟨(Phrase.Alike.leaf rfl spelled).wrap rfl (.cons same .nil), final, ?_, ?_⟩
        next => exact shorter.trans (List.suffix_cons ..)
        next => exact otherShorter.trans (List.suffix_cons ..)
      | _ => exact compared
    | _ => exact compared

theorem agrees_level (levels : Nat) :
    Agrees correspondence (level size levels).expression (level otherSize levels).expression ∧
      Agrees correspondence (level size levels).factor (level otherSize levels).factor := by
  induction levels with
  | zero => exact ⟨agrees_tooDeep, agrees_tooDeep⟩
  | succ levels ih =>
    have factors : Agrees correspondence (level size (levels + 1)).factor
        (level otherSize (levels + 1)).factor := agrees_factorOf ih.1 ih.2
    exact ⟨agrees_expressionOf ih.1 factors, factors⟩

theorem agrees_statement : Agrees correspondence (statement size) (statement otherSize) := by
  intro tokens others alike
  have inner : Agrees correspondence (expression size) (expression otherSize) :=
    (agrees_level nestingLimit).1
  have value : Agree (Follows correspondence (Phrase.Alike correspondence) tokens others)
      (expression size tokens >>= fun read => .ok (.wrap .expressionStatement read.1 [], read.2))
      (expression otherSize others >>= fun read =>
        .ok (.wrap .expressionStatement read.1 [], read.2)) := by
    apply (inner alike).bind
    rintro ⟨phrase, rest⟩ ⟨otherPhrase, behind⟩ ⟨same, final, shorter, otherShorter⟩
    exact .ok ⟨same.wrap rfl .nil, final, shorter, otherShorter⟩
  cases alike.head with
  | ends ends otherEnds =>
    cases ends.cases <;> cases otherEnds.cases <;> exact value
  | word kind plain spelled tail =>
    cases kind with
    | keyword word =>
      cases word with
      | pass =>
        exact .ok ⟨(Phrase.Alike.leaf rfl spelled).wrap rfl .nil, tail, List.suffix_cons ..,
          List.suffix_cons ..⟩
      | _ => exact value
    | name =>
      cases tail.head with
      | ends ends otherEnds =>
        cases ends.cases <;> cases otherEnds.cases <;> exact value
      | word kind plain sign final =>
        cases kind with
        | symbol symbol =>
          cases symbol with
          | assign =>
            apply (inner final).bind
            rintro ⟨phrase, rest⟩ ⟨otherPhrase, behind⟩ ⟨same, last, shorter, otherShorter⟩
            apply Agree.ok
            refine ⟨?_, last, ?_, ?_⟩
            next =>
              exact (Phrase.Alike.leaf rfl spelled).wrap rfl
                (.cons (.leaf rfl sign) (.cons same .nil))
            next => exact shorter.trans ((List.suffix_cons ..).trans (List.suffix_cons ..))
            next => exact otherShorter.trans ((List.suffix_cons ..).trans (List.suffix_cons ..))
          | _ => exact value
        | _ => exact value
    | _ => exact value

theorem statementsUpTo_skip (size : Nat) {bound : Nat} {tokens : List Token}
    (enough : tokens.length ≤ bound) :
    ∃ less, (Token.skip tokens).length ≤ less ∧
      statementsUpTo size bound tokens = statementsUpTo size less (Token.skip tokens) := by
  induction tokens generalizing bound with
  | nil => exact ⟨bound, enough, rfl⟩
  | cons token rest ih =>
    obtain ⟨bound, rfl⟩ := Nat.exists_eq_add_one_of_ne_zero (Nat.ne_zero_of_lt enough)
    by_cases separator : token.kind.isSeparator = true
    next =>
      obtain ⟨less, fewer, same⟩ := ih (Nat.le_of_succ_le_succ enough)
      have skipped : Token.skip (token :: rest) = Token.skip rest := by
        simp [Token.skip, separator]
      rw [skipped, statementsUpTo, if_pos separator]
      exact ⟨less, fewer, same⟩
    next =>
      have kept : Token.skip (token :: rest) = token :: rest := by
        simp [Token.skip, separator]
      rw [kept]
      exact ⟨bound + 1, enough, rfl⟩

theorem statementsUpTo_word (size bound : Nat) {token : Token} (rest : List Token)
    (plain : token.kind.isSeparator = false) :
    statementsUpTo size (bound + 1) (token :: rest) =
      statement size (token :: rest) >>= fun read =>
        if (read.2.head?.map (·.kind.isSeparator)).getD true then
          statementsUpTo size bound read.2 >>= fun more => .ok (read.1 :: more)
        else .error (unexpected size .statementEnd read.2) := by
  rw [statementsUpTo, if_neg (by simp [plain])]
  congr 1
  funext read
  obtain ⟨first, behind⟩ := read
  cases behind with
  | nil => simp [Derivation.statementsUpTo_nil]
  | cons next after => rfl

theorem agree_statementsUpTo {bound otherBound : Nat} {tokens others : List Token}
    (enough : tokens.length ≤ bound) (otherEnough : others.length ≤ otherBound)
    (alike : Token.Alike correspondence (Token.skip tokens) (Token.skip others)) :
    Agree (List.Forall₂ (Phrase.Alike correspondence)) (statementsUpTo size bound tokens)
      (statementsUpTo otherSize otherBound others) := by
  -- A round takes the separators in front and a statement, so the tokens get fewer.
  induction number : tokens.length using Nat.strongRecOn
    generalizing tokens others bound otherBound with
  | _ number ih =>
    subst number
    obtain ⟨less, fewer, same⟩ := statementsUpTo_skip size enough
    obtain ⟨otherLess, otherFewer, otherSame⟩ := statementsUpTo_skip otherSize otherEnough
    rw [same, otherSame]
    have shorter : (Token.skip tokens).length ≤ tokens.length :=
      (List.dropWhile_suffix _).length_le
    have skipped : Token.Ends (Token.skip tokens) → _ := Token.skip_eq_nil
    have otherSkipped : Token.Ends (Token.skip others) → _ := Token.skip_eq_nil
    generalize Token.skip tokens = given at *
    generalize Token.skip others = otherGiven at *
    cases alike.head with
    | ends ends otherEnds =>
      rw [skipped ends, otherSkipped otherEnds, Derivation.statementsUpTo_nil,
        Derivation.statementsUpTo_nil]
      exact .ok .nil
    | word kind plain spelled tail =>
      obtain ⟨less, rfl⟩ := Nat.exists_eq_add_one_of_ne_zero (Nat.ne_zero_of_lt fewer)
      obtain ⟨otherLess, rfl⟩ := Nat.exists_eq_add_one_of_ne_zero (Nat.ne_zero_of_lt otherFewer)
      rw [statementsUpTo_word size less _ plain, statementsUpTo_word otherSize otherLess _ plain]
      apply (agrees_statement alike).bind_of_ok
      rintro ⟨phrase, rest⟩ ⟨otherPhrase, behind⟩ read otherRead ⟨same, final, -, -⟩
      dsimp only at final ⊢
      have fewerRest := Derivation.Statement.length_lt_of_read read
      have otherFewerRest := Derivation.Statement.length_lt_of_read otherRead
      have enoughRest : rest.length ≤ less := by omega
      have otherEnoughRest : behind.length ≤ otherLess := by omega
      have more : Agree (List.Forall₂ (Phrase.Alike correspondence))
          (statementsUpTo size less rest >>= fun more => .ok (phrase :: more))
          (statementsUpTo otherSize otherLess behind >>=
            fun more => .ok (otherPhrase :: more)) := by
        apply (ih rest.length (by omega) enoughRest otherEnoughRest final.skip rfl).bind
        intro phrases otherPhrases sameRest
        exact .ok (.cons same sameRest)
      cases final.head with
      | ends ends otherEnds =>
        cases ends.cases <;> cases otherEnds.cases <;> exact more
      | word kind plain spelled tail =>
        simp only [List.head?_cons, Option.map_some, Option.getD_some, plain]
        exact .unexpected

end Reader

theorem Phrase.agree_ofTokens {correspondence : Correspondence} {size otherSize : Nat}
    {tokens others : List Token} (script : correspondence.spans ⟨0, size⟩ ⟨0, otherSize⟩)
    (alike : Token.Alike correspondence (Token.skip (Token.joinLines 0 tokens))
      (Token.skip (Token.joinLines 0 others))) :
    Agree (Phrase.Alike correspondence) (ofTokens size tokens) (ofTokens otherSize others) := by
  apply (Reader.agree_statementsUpTo (Nat.le_refl _) (Nat.le_refl _) alike).bind
  intro phrases otherPhrases same
  exact .ok (.node rfl script same)

end StackScript
