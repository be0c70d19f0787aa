import StackScript.Proofs.Printing

set_option autoImplicit false

namespace StackScript

def Expr.bare : Expr → Expr
  | number _ value => number ⟨0, 0⟩ value
  | identifier _ name => identifier ⟨0, 0⟩ name
  | binary _ operator left right => binary ⟨0, 0⟩ operator left.bare right.bare
  | unaryCall _ builtin argument => unaryCall ⟨0, 0⟩ builtin argument.bare
  | binaryCall _ builtin first second => binaryCall ⟨0, 0⟩ builtin first.bare second.bare

def Statement.bare : Statement → Statement
  | define _ name value => define ⟨0, 0⟩ name value.bare
  | expression _ value => expression ⟨0, 0⟩ value.bare

def Program.bare (program : Program) : Program :=
  ⟨program.statements.map Statement.bare⟩

namespace Derivation

variable {tier : Tier}

def linkLast (operator : Token) (fits : tier.isOperator operator.kind = true)
    (operand : Derivation (.form tier.operand)) :
    Derivation (.links tier) → Derivation (.links tier)
  | noLink => link operator fits operand noLink
  | link first firstFits right rest =>
    link first firstFits right (linkLast operator fits operand rest)

def join (operator : Token) (fits : tier.isOperator operator.kind = true)
    (right : Derivation (.form tier.operand)) :
    Derivation (.form (.chain tier)) → Derivation (.form (.chain tier))
  | chain first links => chain first (linkLast operator fits right links)

section

variable (operator : Token) (fits : tier.isOperator operator.kind = true)
  (right : Derivation (.form tier.operand))

theorem tokens_linkLast (links : Derivation (.links tier)) :
    (linkLast operator fits right links).tokens = links.tokens ++ operator :: right.tokens := by
  match links with
  | noLink => simp [linkLast, tokens]
  | link first firstFits operand rest =>
    simp [linkLast, tokens, tokens_linkLast rest]

theorem tree_linkLast (links : Derivation (.links tier)) (left : Phrase) :
    (linkLast operator fits right links).tree left =
      .wrap .binaryExpression (links.tree left)
        [.leaf tier.operatorKind operator.span, right.tree] := by
  match links with
  | noLink =>
    rw [linkLast]
    rfl
  | link first firstFits operand rest =>
    rw [linkLast]
    exact tree_linkLast rest _

theorem nesting_linkLast (links : Derivation (.links tier)) :
    (linkLast operator fits right links).nesting = max links.nesting right.nesting := by
  match links with
  | noLink => simp [linkLast, nesting]
  | link first firstFits operand rest =>
    simp [linkLast, nesting, nesting_linkLast rest, Nat.max_assoc]

theorem tokens_join (left : Derivation (.form (.chain tier))) :
    (join operator fits right left).tokens = left.tokens ++ operator :: right.tokens := by
  cases left with
  | chain first links => simp [join, tokens, tokens_linkLast]

theorem tree_join (left : Derivation (.form (.chain tier))) :
    (join operator fits right left).tree =
      .wrap .binaryExpression left.tree [.leaf tier.operatorKind operator.span, right.tree] := by
  cases left with
  | chain first links => exact tree_linkLast operator fits right links first.tree

theorem nesting_join (left : Derivation (.form (.chain tier))) :
    (join operator fits right left).nesting = max left.nesting right.nesting := by
  cases left with
  | chain first links => simp [join, nesting, nesting_linkLast, Nat.max_assoc]

end

end Derivation

namespace Phrase

variable {source : List Char} {levels : Nat} {phrase : Phrase}

theorem toExpr_of_number (kind : phrase.kind = .number) :
    phrase.toExpr source levels =
      (Literal.read (phrase.span.slice source) phrase.span).map (.number phrase.span) := by
  cases levels <;> simp only [toExpr, toExprOf, kind] <;> rfl

theorem toExpr_of_name (kind : phrase.kind = .variableName) :
    phrase.toExpr source levels = .ok (.identifier phrase.span (phrase.text source)) := by
  cases levels <;> simp only [toExpr, toExprOf, kind]

theorem toExpr_of_unary (kind : phrase.kind = .unaryExpression) :
    phrase.toExpr source levels = phrase.toUnary source := by
  cases levels <;> simp only [toExpr, toExprOf, kind]

theorem toExpr_of_binary (kind : phrase.kind = .binaryExpression) :
    phrase.toExpr source (levels + 1) = phrase.toBinary source (toExpr source levels) := by
  simp only [toExpr, toExprOf, kind]

theorem toExpr_of_call (kind : phrase.kind = .callExpression) :
    phrase.toExpr source (levels + 1) = phrase.toCall source (toExpr source levels) := by
  simp only [toExpr, toExprOf, kind]

theorem toUnary_of_read (sign operand : Phrase) {value : Int} (minus : sign.text source = "-")
    (number : operand.kind = .number)
    (read : ∀ span, Literal.read ("-" ++ operand.text source).toList span = .ok value) :
    ∃ span, (wrap .unaryExpression sign [operand]).toUnary source = .ok (.number span value) := by
  simp only [toUnary, children_wrap, minus]
  rw [if_neg (by simp), if_neg (by simp [number]), read]
  exact ⟨_, rfl⟩

theorem kind_ne_of_toExpr {expr : Expr} (read : phrase.toExpr source levels = .ok expr) :
    phrase.kind ≠ .closeParen := by
  intro kind
  cases lowered_of_toExpr read with
  | number other | signed other | identifier other | binary other | unaryCall other
  | binaryCall other => simp [kind] at other

theorem toBinary_of_read {operator : Operator} {left right sign : Phrase} {first second : Expr}
    (symbol : sign.text source = operator.symbol.text)
    (readLeft : left.toExpr source levels = .ok first)
    (readRight : right.toExpr source levels = .ok second) :
    ∃ span, (wrap .binaryExpression left [sign, right]).toExpr source (levels + 1) =
      .ok (.binary span operator first second) := by
  have known : Operator.ofSymbol? (sign.text source) = some operator := by
    rw [symbol]
    cases operator <;> rfl
  rw [toExpr_of_binary rfl]
  simp only [toBinary, children_wrap, readLeft, ok_bind, known, readRight]
  exact ⟨_, rfl⟩

theorem toArguments_one {argument : Phrase} {value : Expr}
    (read : argument.toExpr source levels = .ok value) (closing : Span) :
    toArguments source (toExpr source levels) [argument, .leaf .closeParen closing] =
      .ok [value] := by
  rw [toArguments, if_neg (kind_ne_of_toExpr read), read]
  rfl

theorem toArguments_two {argument other : Phrase} {first second : Expr}
    (readFirst : argument.toExpr source levels = .ok first)
    (readSecond : other.toExpr source levels = .ok second) (comma closing : Span) :
    toArguments source (toExpr source levels)
        [argument, .leaf .comma comma, other, .leaf .closeParen closing] =
      .ok [first, second] := by
  rw [toArguments, if_neg (kind_ne_of_toExpr readFirst), readFirst]
  change (do return first :: (← toArguments source (toExpr source levels)
    [other, .leaf .closeParen closing])) = _
  rw [toArguments_one readSecond]
  rfl

theorem toCall_of_read {callee opening : Phrase} {inside : List Phrase} {values : List Expr}
    (read : toArguments source (toExpr source levels) inside = .ok values) :
    (wrap .callExpression callee [wrap .argumentList opening inside]).toExpr source (levels + 1) =
      Walk.applied source (wrap .callExpression callee [wrap .argumentList opening inside]).span
        callee.span values := by
  rw [toExpr_of_call rfl]
  simp only [toCall, children_wrap, argumentList, kind_wrap, if_true, read, ok_bind]

end Phrase

theorem Literal.read_toString {value : Int} (fits : Decimal.fits value = true) (span : Span) :
    Literal.read (toString value).toList span = .ok value := by
  rw [Literal.read, Literal.value_toString fits]

theorem Token.exists_of_parts {source : List Char} {tokens : List Token} {first : Part}
    {parts : List Part} (same : tokens.map (part source) = first :: parts) :
    ∃ span rest, tokens = ⟨first.1, span⟩ :: rest ∧ span.slice source = first.2 ∧
      rest.map (part source) = parts := by
  obtain ⟨token, rest, rfl, rfl, others⟩ := List.map_eq_cons_iff.mp same
  exact ⟨token.span, rest, rfl, rfl, others⟩

/-- The tokens have a derivation as the form, no deeper than the expression's calls, from which the
expression is read. -/
def Expr.Derives (source : List Char) (form : Form) (tokens : List Token) (expr : Expr) : Prop :=
  ∃ derivation : Derivation (.form form), derivation.tokens = tokens ∧
    derivation.nesting ≤ expr.callDepth ∧ ∀ levels, expr.height ≤ levels →
      ∃ read, derivation.tree.toExpr source levels = .ok read ∧ read.bare = expr.bare

namespace Expr.Derives

variable {source : List Char} {tokens : List Token} {expr : Expr}

theorem chain (tier : Tier) (operand : expr.Derives source tier.operand tokens) :
    expr.Derives source (.chain tier) tokens := by
  obtain ⟨derivation, same, shallow, reads⟩ := operand
  refine ⟨.chain derivation .noLink, ?_, ?_, reads⟩
  · rw [Derivation.tokens, Derivation.tokens, List.append_nil, same]
  · rw [Derivation.nesting, Derivation.nesting, Nat.max_zero]
    exact shallow

theorem expression (sum : expr.Derives source (.chain .sum) tokens) :
    expr.Derives source .expression tokens := by
  obtain ⟨derivation, same, shallow, reads⟩ := chain .comparison sum
  exact ⟨.compared derivation, same, shallow, reads⟩

theorem factor (atom : Derivation (.form .atom)) (applications : Derivation .applications)
    (same : (Derivation.call atom applications).tokens = tokens)
    (shallow : (Derivation.call atom applications).nesting ≤ expr.callDepth)
    (reads : ∀ levels, expr.height ≤ levels → ∃ read,
      (Derivation.call atom applications).tree.toExpr source levels = .ok read ∧
        read.bare = expr.bare) : expr.Derives source .factor tokens :=
  ⟨.unsigned (.base (.call atom applications)), same, shallow, reads⟩

theorem number {span : Span} {value : Int} (fits : Decimal.fits value = true)
    (same : tokens.map (Token.part source) = (Expr.number span value).parts) :
    (Expr.number span value).Derives source .factor tokens := by
  by_cases negative : value < 0
  · -- The minus is a sign of its own; with the digits behind it, it is read as one literal again.
    rw [Expr.parts, if_pos negative] at same
    obtain ⟨sign, rest, rfl, signText, same⟩ := Token.exists_of_parts same
    obtain ⟨digits, rest, rfl, digitsText, same⟩ := Token.exists_of_parts same
    cases List.map_eq_nil_iff.mp same
    let operand : Derivation (.form .factor) := .unsigned (.base (.call
      (.leaf ⟨.number, digits⟩ .number rfl) .noApplication))
    refine ⟨.unary ⟨.symbol .minus, sign⟩ rfl operand, rfl, ?_, ?_⟩
    · simp [operand, Derivation.nesting, Expr.callDepth, negative]
    · intro levels enough
      have minus : (Phrase.leaf .arithmeticOperator sign).text source = "-" := by
        change String.ofList (sign.slice source) = "-"
        rw [signText]
        rfl
      have magnitude :
          ((Phrase.leaf .number digits).text source).toList = Decimal.digits value := by
        change (String.ofList (digits.slice source)).toList = _
        rw [digitsText, String.toList_ofList]
      have text : ("-" ++ (Phrase.leaf .number digits).text source).toList =
          (toString value).toList := by
        rw [String.toList_append, magnitude, Decimal.toString_of_neg negative]
        rfl
      obtain ⟨span, read⟩ := Phrase.toUnary_of_read _ (.leaf .number digits) minus rfl
        fun span => by rw [text]; exact Literal.read_toString fits span
      refine ⟨.number span value, ?_, rfl⟩
      change (Phrase.wrap .unaryExpression (.leaf .arithmeticOperator sign)
        [.leaf .number digits]).toExpr source levels = _
      rw [Phrase.toExpr_of_unary rfl, read]
  · rw [Expr.parts, if_neg negative] at same
    obtain ⟨digits, rest, rfl, digitsText, same⟩ := Token.exists_of_parts same
    cases List.map_eq_nil_iff.mp same
    refine factor (.leaf ⟨.number, digits⟩ .number rfl) .noApplication rfl (Nat.zero_le _) ?_
    intro levels enough
    have text : digits.slice source = (toString value).toList := by
      rw [digitsText, Decimal.toString_of_nonneg (by omega)]
    refine ⟨.number digits value, ?_, rfl⟩
    change (Phrase.leaf .number digits).toExpr source levels = _
    rw [Phrase.toExpr_of_number rfl]
    change (Literal.read (digits.slice source) digits).map _ = _
    rw [text, Literal.read_toString fits]
    rfl

theorem identifier {span : Span} {name : String}
    (same : tokens.map (Token.part source) = (Expr.identifier span name).parts) :
    (Expr.identifier span name).Derives source .factor tokens := by
  obtain ⟨word, rest, rfl, text, same⟩ := Token.exists_of_parts same
  cases List.map_eq_nil_iff.mp same
  refine factor (.leaf ⟨.name, word⟩ .variableName rfl) .noApplication rfl (Nat.zero_le _) ?_
  intro levels enough
  refine ⟨.identifier word name, ?_, rfl⟩
  change (Phrase.leaf .variableName word).toExpr source levels = _
  rw [Phrase.toExpr_of_name rfl]
  change Except.ok (Expr.identifier word (String.ofList (word.slice source))) = _
  rw [text]
  simp [Part.name]

theorem binary {tier : Tier} {span : Span} {operator : Operator} {left right : Expr}
    {sign : Span} {rest : List Token} (fits : tier.isOperator (.symbol operator.symbol) = true)
    (text : sign.slice source = operator.symbol.text.toList)
    (first : left.Derives source (.chain tier) tokens)
    (second : right.Derives source tier.operand rest) :
    (Expr.binary span operator left right).Derives source (.chain tier)
      (tokens ++ ⟨.symbol operator.symbol, sign⟩ :: rest) := by
  -- Chains group from the left, so the right operand goes behind the links of the left one.
  obtain ⟨leftDerivation, rfl, leftShallow, readsLeft⟩ := first
  obtain ⟨rightDerivation, rfl, rightShallow, readsRight⟩ := second
  refine ⟨.join ⟨.symbol operator.symbol, sign⟩ fits rightDerivation leftDerivation,
    Derivation.tokens_join .., ?_, ?_⟩
  · rw [Derivation.nesting_join, Expr.callDepth]
    omega
  · intro levels enough
    simp only [Expr.height] at enough
    obtain ⟨levels, rfl⟩ := Nat.exists_eq_add_one_of_ne_zero (Nat.ne_zero_of_lt enough)
    obtain ⟨leftRead, readLeft, sameLeft⟩ := readsLeft levels (by omega)
    obtain ⟨rightRead, readRight, sameRight⟩ := readsRight levels (by omega)
    have symbol : (Phrase.leaf tier.operatorKind sign).text source = operator.symbol.text := by
      change String.ofList (sign.slice source) = _
      rw [text, String.ofList_toList]
    obtain ⟨found, read⟩ := Phrase.toBinary_of_read symbol readLeft readRight
    refine ⟨.binary found operator leftRead rightRead, ?_, ?_⟩
    · rw [Derivation.tree_join]
      exact read
    · simp only [Expr.bare, sameLeft, sameRight]

theorem call (expr : Expr) (word : Span) {opening : Span} (list : Derivation (.form .arguments))
    {inside : List Phrase} (shallow : list.nesting ≤ expr.callDepth)
    (tree : list.tree = .wrap .argumentList (.leaf .openParen opening) inside)
    (positive : 0 < expr.height)
    (applied : ∀ levels, expr.height ≤ levels + 1 → ∃ values,
      Phrase.toArguments source (Phrase.toExpr source levels) inside = .ok values ∧
      ∀ span, ∃ read, Walk.applied source span word values = .ok read ∧ read.bare = expr.bare) :
    expr.Derives source .factor (⟨.name, word⟩ :: list.tokens) := by
  refine factor (.leaf ⟨.name, word⟩ .variableName rfl) (.application list .noApplication)
    (by simp [Derivation.tokens]) (by simpa [Derivation.nesting] using shallow) ?_
  intro levels enough
  obtain ⟨levels, rfl⟩ := Nat.exists_eq_add_one_of_ne_zero
    (Nat.ne_zero_of_lt (Nat.lt_of_lt_of_le positive enough))
  obtain ⟨values, readValues, meaning⟩ := applied levels enough
  obtain ⟨read, done, same⟩ := meaning _
  refine ⟨read, ?_, same⟩
  change (Phrase.wrap .callExpression (.leaf .variableName word) [list.tree]).toExpr source
    (levels + 1) = _
  rw [tree, Phrase.toCall_of_read readValues]
  exact done

theorem unaryCall {span word opening closing : Span} {builtin : Builtin} {value : Expr}
    (arity : builtin.arity = 1) (text : word.slice source = builtin.name.toList)
    (argument : value.Derives source .expression tokens) :
    (Expr.unaryCall span builtin value).Derives source .factor (⟨.name, word⟩ ::
      ⟨.symbol .openParen, opening⟩ :: (tokens ++ [⟨.symbol .closeParen, closing⟩])) := by
  obtain ⟨derivation, rfl, shallow, reads⟩ := argument
  have derives := @Derives.call source (.unaryCall span builtin value) word opening
    (.arguments opening derivation .noMore none closing) _ ?_ rfl (Nat.succ_pos _) ?_
  · simpa [Derivation.tokens, Derivation.trailingTokens] using derives
  · simpa [Derivation.nesting, Expr.callDepth] using shallow
  · intro levels enough
    obtain ⟨read, readValue, same⟩ := reads levels (Nat.le_of_succ_le_succ enough)
    refine ⟨[read], Phrase.toArguments_one readValue closing, fun found => ?_⟩
    refine ⟨.unaryCall found builtin read, ?_, by simp only [Expr.bare, same]⟩
    rw [Walk.applied, text, String.ofList_toList, ← arity, Builtin.lookup?_name_arity]

theorem binaryCall {span word opening comma closing : Span} {builtin : Builtin}
    {first second : Expr} {others : List Token} (arity : builtin.arity = 2)
    (text : word.slice source = builtin.name.toList)
    (argument : first.Derives source .expression tokens)
    (other : second.Derives source .expression others) :
    (Expr.binaryCall span builtin first second).Derives source .factor (⟨.name, word⟩ ::
      ⟨.symbol .openParen, opening⟩ :: (tokens ++ ⟨.symbol .comma, comma⟩ ::
        (others ++ [⟨.symbol .closeParen, closing⟩]))) := by
  obtain ⟨derivation, rfl, shallow, reads⟩ := argument
  obtain ⟨otherDerivation, rfl, otherShallow, otherReads⟩ := other
  have derives := @Derives.call source (.binaryCall span builtin first second) word opening
    (.arguments opening derivation (.more comma otherDerivation .noMore) none closing) _
    ?_ rfl (Nat.succ_pos _) ?_
  · simpa [Derivation.tokens, Derivation.trailingTokens] using derives
  · simp only [Derivation.nesting, Expr.callDepth]
    omega
  · intro levels enough
    simp only [Expr.height] at enough
    obtain ⟨read, readFirst, same⟩ := reads levels (by omega)
    obtain ⟨otherRead, readSecond, otherSame⟩ := otherReads levels (by omega)
    refine ⟨[read, otherRead], Phrase.toArguments_two readFirst readSecond comma closing,
      fun found => ?_⟩
    refine ⟨.binaryCall found builtin read otherRead, ?_, by simp only [Expr.bare, same, otherSame]⟩
    rw [Walk.applied, text, String.ofList_toList, ← arity, Builtin.lookup?_name_arity]

end Expr.Derives

namespace Expr

theorem derives {source : List Char} {expr : Expr} (fitting : expr.Every Fitting)
    (saturated : expr.Every Saturated) (grouped : expr.Every Grouped) {tokens : List Token}
    (same : tokens.map (Token.part source) = expr.parts) :
    (expr.isBinary = false → expr.Derives source .factor tokens) ∧
    (expr.isSum = false → expr.Derives source (.chain .product) tokens) ∧
    expr.Derives source (.chain .sum) tokens := by
  have ofFactor {expr : Expr} {tokens : List Token} (factor : expr.Derives source .factor tokens) :
      (expr.isBinary = false → expr.Derives source .factor tokens) ∧
      (expr.isSum = false → expr.Derives source (.chain .product) tokens) ∧
      expr.Derives source (.chain .sum) tokens :=
    ⟨fun _ => factor, fun _ => factor.chain .product, (factor.chain .product).chain .sum⟩
  -- The induction gives all forms that an operand may stand as; grouping says which one it needs.
  induction expr generalizing tokens with
  | number span value => exact ofFactor (.number (Decimal.fits_iff.mpr fitting) same)
  | identifier span name => exact ofFactor (.identifier same)
  | binary span operator left right ihLeft ihRight =>
    obtain ⟨front, back, rfl, sameLeft, same⟩ := List.map_eq_append_iff.mp same
    obtain ⟨sign, rest, rfl, text, sameRight⟩ := Token.exists_of_parts same
    have first := ihLeft fitting.2.1 saturated.2.1 grouped.2.1 sameLeft
    have second := ihRight fitting.2.2 saturated.2.2 grouped.2.2 sameRight
    cases operator with
    | mul =>
      have product : (binary span .mul left right).Derives source (.chain .product) _ :=
        .binary rfl text (first.2.1 grouped.1.1) (second.1 grouped.1.2)
      exact ⟨by simp [isBinary], fun _ => product, product.chain .sum⟩
    | add | sub =>
      refine ⟨by simp [isBinary], by simp [isSum], ?_⟩
      exact .binary rfl text first.2.2 (second.2.1 grouped.1)
  | unaryCall span builtin argument ih =>
    obtain ⟨word, rest, rfl, text, same⟩ := Token.exists_of_parts same
    obtain ⟨opening, rest, rfl, -, same⟩ := Token.exists_of_parts same
    obtain ⟨front, back, rfl, sameArgument, same⟩ := List.map_eq_append_iff.mp same
    obtain ⟨closing, rest, rfl, -, same⟩ := Token.exists_of_parts same
    cases List.map_eq_nil_iff.mp same
    have inner := (ih fitting.2 saturated.2 grouped.2 sameArgument).2.2
    exact ofFactor (.unaryCall saturated.1 text inner.expression)
  | binaryCall span builtin first second ihFirst ihSecond =>
    obtain ⟨word, rest, rfl, text, same⟩ := Token.exists_of_parts same
    obtain ⟨opening, rest, rfl, -, same⟩ := Token.exists_of_parts same
    obtain ⟨front, back, rfl, sameFirst, same⟩ := List.map_eq_append_iff.mp same
    obtain ⟨comma, rest, rfl, -, same⟩ := Token.exists_of_parts same
    obtain ⟨middle, back, rfl, sameSecond, same⟩ := List.map_eq_append_iff.mp same
    obtain ⟨closing, rest, rfl, -, same⟩ := Token.exists_of_parts same
    cases List.map_eq_nil_iff.mp same
    have inner := (ihFirst fitting.2.1 saturated.2.1 grouped.2.1 sameFirst).2.2
    have other := (ihSecond fitting.2.2 saturated.2.2 grouped.2.2 sameSecond).2.2
    exact ofFactor (.binaryCall saturated.1 text inner.expression other.expression)

end Expr

def Statement.Derives (source : List Char) (tokens : List Token) (statement : Statement) : Prop :=
  ∃ derivation : Derivation.Statement, derivation.tokens = tokens ∧
    derivation.nesting ≤ nestingLimit ∧ ∃ read,
      derivation.tree.toStatement source nestingLimit = .ok read ∧ read.bare = statement.bare

theorem Statement.Printable.derives {source : List Char} {statement : Statement}
    (printable : statement.Printable) {tokens : List Token}
    (same : tokens.map (Token.part source) = statement.parts) :
    statement.Derives source tokens := by
  have value {rest : List Token} (parts : rest.map (Token.part source) = statement.value.parts) :
      statement.value.Derives source .expression rest :=
    (Expr.derives printable.fitting printable.saturated printable.grouped parts).2.2.expression
  cases statement with
  | define span name expr =>
    obtain ⟨target, rest, rfl, text, same⟩ := Token.exists_of_parts same
    obtain ⟨sign, rest, rfl, -, same⟩ := Token.exists_of_parts same
    obtain ⟨derivation, rfl, shallow, reads⟩ := value same
    obtain ⟨read, readValue, bare⟩ := reads nestingLimit printable.height_le
    have spelled : (Phrase.leaf .variableName target).text source = name := by
      change String.ofList (target.slice source) = name
      rw [text]
      exact String.ofList_toList
    let result := (Derivation.Statement.assign target sign derivation).tree
    refine ⟨.assign target sign derivation, rfl,
      Nat.le_trans (Nat.succ_le_succ shallow) printable.callDepth_lt, ?_⟩
    refine ⟨.define result.span name read, ?_, congrArg (define ⟨0, 0⟩ name) bare⟩
    simp only [Derivation.Statement.tree, Phrase.toStatement, Phrase.kind_wrap,
      Phrase.children_wrap, readValue, ok_bind, spelled]
    rfl
  | expression span expr =>
    obtain ⟨derivation, rfl, shallow, reads⟩ := value same
    obtain ⟨read, readValue, bare⟩ := reads nestingLimit printable.height_le
    let result := (Derivation.Statement.expression derivation).tree
    refine ⟨.expression derivation, rfl,
      Nat.le_trans (Nat.succ_le_succ shallow) printable.callDepth_lt, ?_⟩
    refine ⟨.expression result.span read, ?_, congrArg (expression ⟨0, 0⟩) bare⟩
    simp only [Derivation.Statement.tree, Phrase.toStatement, Phrase.kind_wrap,
      Phrase.children_wrap, readValue, ok_bind]
    rfl

theorem Program.exists_lines {source : List Char} {statements : List Statement}
    (nonempty : statements ≠ []) (printable : ∀ statement ∈ statements, statement.Printable)
    {tokens : List Token} (same : tokens.map (Token.part source) = parts ⟨statements⟩) :
    ∃ lines : Derivation.Lines, lines.tokens = tokens ∧ Token.joinLines 0 tokens = tokens ∧
      lines.nesting ≤ nestingLimit ∧ ∃ reads,
        lines.trees.mapM (Phrase.toStatement source nestingLimit) = .ok reads ∧
          reads.map Statement.bare = statements.map Statement.bare := by
  induction statements generalizing tokens with
  | nil => exact absurd rfl nonempty
  | cons first rest ih =>
    have statement := printable first (by simp)
    rw [parts, List.flatMap_cons, List.append_assoc] at same
    obtain ⟨front, back, rfl, sameFirst, sameBack⟩ := List.map_eq_append_iff.mp same
    obtain ⟨ending, others, rfl, -, sameRest⟩ := Token.exists_of_parts sameBack
    obtain ⟨derivation, rfl, shallow, read, readFirst, bare⟩ := statement.derives sameFirst
    let newline : Derivation.Separators := ⟨[⟨.newline, ending⟩], by simp [Token.Kind.isSeparator]⟩
    cases rest with
    | nil =>
      cases List.map_eq_nil_iff.mp sameRest
      refine ⟨.last derivation newline, rfl, ?_, shallow, [read], ?_, ?_⟩
      · rw [derivation.joinLines_tokens]
        rfl
      · simp only [Derivation.Lines.trees, List.mapM_cons, List.mapM_nil, readFirst]
        rfl
      · simp [bare]
    | cons second more =>
      obtain ⟨lines, rfl, joined, shallowLines, reads, readLines, bares⟩ :=
        ih (List.cons_ne_nil _ _) (fun statement member => printable statement (by simp [member]))
          sameRest
      refine ⟨.next derivation newline (List.cons_ne_nil _ _) lines, rfl, ?_,
        Nat.max_le.mpr ⟨shallow, shallowLines⟩, read :: reads, ?_, ?_⟩
      · rw [derivation.joinLines_tokens]
        change _ ++ ⟨.newline, ending⟩ :: Token.joinLines 0 lines.tokens = _
        rw [joined]
        rfl
      · simp only [Derivation.Lines.trees, List.mapM_cons, readFirst, readLines]
        rfl
      · rw [List.map_cons, bare, bares, ← List.map_cons]

theorem Program.print_ne_nil {program : Program} (nonempty : program.statements ≠ []) :
    program.print ≠ [] := by
  obtain ⟨statements⟩ := program
  cases statements with
  | nil => exact absurd rfl nonempty
  | cons first rest => simp [print]

theorem Program.exists_ofSource_print {program : Program} (printable : program.Printable) :
    ∃ read, ofSource program.print = .ok read ∧ read.bare = program.bare := by
  obtain ⟨tokens, scanned, same⟩ := exists_scan printable
  obtain ⟨lines, spelled, joined, shallow, reads, readLines, bares⟩ :=
    exists_lines printable.nonempty printable.statements same
  let script : Derivation.Script := ⟨⟨[], by simp⟩, some lines⟩
  have parsed : Phrase.ofSource program.print =
      .ok (script.tree (Text.byteLength program.print)) := by
    rw [Phrase.ofSource, scanned]
    exact Phrase.ofTokens_eq_ok.mpr ⟨script, spelled.trans joined.symm, shallow, rfl⟩
  have some : ¬ lines.trees.isEmpty = true := by
    cases lines <;> simp [Derivation.Lines.trees]
  refine ⟨⟨reads⟩, ?_, congrArg Program.mk bares⟩
  rw [ofSource_eq (print_ne_nil printable.nonempty), parsed, ok_bind, Phrase.toProgram,
    if_neg (by simp [Derivation.Script.tree, Phrase.kind])]
  change (if lines.trees.isEmpty = true then _ else
    lines.trees.mapM (Phrase.toStatement program.print nestingLimit) >>= _) = _
  rw [if_neg some, readLines]
  rfl

/-- Printing and parsing are inverse to each other, up to spans: a printable program is read back
from its printed text, and every program that is read from a source is printable. -/
theorem Program.print_parse_round_trip :
    (∀ program : Program, program.Printable →
      ∃ read, ofSource program.print = .ok read ∧ read.bare = program.bare) ∧
    ∀ (source : List Char) (program : Program), ofSource source = .ok program →
      program.Printable :=
  ⟨fun _ printable => exists_ofSource_print printable,
    fun _ _ read => printable_of_ofSource read⟩

-- `x = 7 - -3 * 4`, `print(max(x, 1))`.
def Program.signedProduct : Program :=
  let here : Span := ⟨0, 0⟩
  ⟨[.define here "x" (.binary here .sub (.number here 7)
      (.binary here .mul (.number here (-3)) (.number here 4))),
    .expression here (.unaryCall here .print
      (.binaryCall here .max (.identifier here "x") (.number here 1)))]⟩

theorem Program.ofSource_print_signedProduct :
    signedProduct.print = "x = 7 - -3 * 4\nprint(max(x, 1))\n".toList ∧
      signedProduct.Printable ∧
      ∃ read, ofSource signedProduct.print = .ok read ∧ read.bare = signedProduct.bare :=
  have printable : signedProduct.Printable := by decide
  ⟨by decide, printable, print_parse_round_trip.1 signedProduct printable⟩

end StackScript
