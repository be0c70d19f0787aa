import StackScript.Proofs.Derivation

set_option autoImplicit false

namespace StackScript

def Token.Kind.startsAtom (kind : Token.Kind) : Bool :=
  kind.leaf?.isSome || kind = .symbol .openParen

def Token.Kind.continuesPower (kind : Token.Kind) : Bool :=
  kind = .symbol .openParen || kind = .symbol .power

namespace Form

def starts : Form → Token.Kind → Bool
  | expression, kind => kind = .keyword .not || kind.isUnary || kind.startsAtom
  | chain _, kind | factor, kind => kind.isUnary || kind.startsAtom
  | power, kind | call, kind | atom, kind => kind.startsAtom
  | arguments, kind => kind = .symbol .openParen

-- Whether a token of this kind behind the form is taken to be part of it.
def continues : Form → Token.Kind → Bool
  | atom, _ | arguments, _ => false
  | call, kind => kind = .symbol .openParen
  | power, kind | factor, kind => kind.continuesPower
  | chain .product, kind => kind.continuesPower || kind.isProduct
  | chain .sum, kind => kind.continuesPower || kind.isProduct || kind.isSum
  | chain .comparison, kind | expression, kind =>
    kind.continuesPower || kind.isProduct || kind.isSum || kind.isComparison

end Form

def Form.Stops (form : Form) (rest : List Token) : Prop :=
  ∀ token ∈ rest.head?, form.continues token.kind = false

def Category.Stops : Category → List Token → Prop
  | form kind, rest => kind.Stops rest
  | links tier, rest => (Form.chain tier).Stops rest
  | applications, rest => Form.call.Stops rest
  | moreArguments, rest => ∃ trailing closing behind,
    rest = Derivation.trailingTokens trailing ++ ⟨.symbol .closeParen, closing⟩ :: behind

theorem Tier.continues_chain (tier : Tier) (kind : Token.Kind) :
    (Form.chain tier).continues kind = (tier.operand.continues kind || tier.isOperator kind) := by
  cases tier <;> rfl

theorem Tier.starts_operand (tier : Tier) (kind : Token.Kind) :
    tier.operand.starts kind = (kind.isUnary || kind.startsAtom) := by
  cases tier <;> rfl

theorem Tier.not_continues_operand {tier : Tier} {kind : Token.Kind}
    (operator : tier.isOperator kind = true) : tier.operand.continues kind = false := by
  cases kind with
  | symbol sign => cases tier <;> cases sign <;> simp_all [isOperator, operand, Form.continues,
      Token.Kind.continuesPower, Token.Kind.isComparison, Token.Kind.isSum, Token.Kind.isProduct]
  | _ => cases tier <;> simp [isOperator, Token.Kind.isComparison, Token.Kind.isSum,
      Token.Kind.isProduct] at operator

theorem Form.starts_of_leaf {token : Token.Kind} {kind : Tree.Kind}
    (fits : token.leaf? = some kind) : token.startsAtom = true := by
  simp [Token.Kind.startsAtom, fits]

namespace Form

theorem Stops.cons {form : Form} {token : Token} {rest : List Token}
    (other : form.continues token.kind = false) : form.Stops (token :: rest) := by
  simpa [Stops] using other

theorem Stops.head {form : Form} {token : Token} {rest : List Token}
    (stops : form.Stops (token :: rest)) : form.continues token.kind = false :=
  stops token rfl

theorem Stops.mono {form wider : Form} {rest : List Token} (stops : wider.Stops rest)
    (less : ∀ kind, wider.continues kind = false → form.continues kind = false) :
    form.Stops rest :=
  fun token first => less token.kind (stops token first)

theorem atom_stops (rest : List Token) : atom.Stops rest := fun _ _ => rfl

theorem arguments_stops (rest : List Token) : arguments.Stops rest := fun _ _ => rfl

theorem Stops.operand {tier : Tier} {rest : List Token} (stops : (chain tier).Stops rest) :
    tier.operand.Stops rest := by
  refine stops.mono fun kind none => ?_
  rw [Tier.continues_chain, Bool.or_eq_false_iff] at none
  exact none.1

theorem Stops.call {rest : List Token} (stops : power.Stops rest) : Form.call.Stops rest := by
  refine stops.mono fun kind none => ?_
  simp only [continues, Token.Kind.continuesPower, Bool.or_eq_false_iff] at none
  exact none.1

end Form

namespace Derivation

attribute [local simp] tokens

theorem exists_head {category : Category} (derivation : Derivation category) :
    match category with
    | .form form => ∃ token rest, derivation.tokens = token :: rest ∧ form.starts token.kind = true
    | _ => True := by
  induction derivation with
  | not word operand => exact ⟨_, _, rfl, rfl⟩
  | compared operands ih =>
    obtain ⟨token, rest, same, starts⟩ := ih
    refine ⟨token, rest, same, ?_⟩
    rcases Bool.or_eq_true_iff.mp starts with starts | starts <;> simp [Form.starts, starts]
  | @chain tier first links ih =>
    obtain ⟨token, rest, same, starts⟩ := ih
    refine ⟨token, rest ++ links.tokens, by simp [same], ?_⟩
    rwa [Tier.starts_operand] at starts
  | unary sign fits operand => exact ⟨sign, _, rfl, by simp [Form.starts, fits]⟩
  | unsigned power ih =>
    obtain ⟨token, rest, same, starts⟩ := ih
    exact ⟨token, rest, same, Bool.or_eq_true_iff.mpr (.inr starts)⟩
  | base root ih => exact ih
  | raised root sign exponent ih =>
    obtain ⟨token, rest, same, starts⟩ := ih
    exact ⟨token, rest ++ ⟨.symbol .power, sign⟩ :: exponent.tokens, by simp [same], starts⟩
  | call callee applications ih =>
    obtain ⟨token, rest, same, starts⟩ := ih
    exact ⟨token, rest ++ applications.tokens, by simp [same], starts⟩
  | noArguments opening closing => exact ⟨_, _, rfl, rfl⟩
  | arguments opening first others trailing closing => exact ⟨_, _, rfl, rfl⟩
  | leaf token kind fits => exact ⟨token, [], rfl, Form.starts_of_leaf fits⟩
  | parenthesized opening inner closing => exact ⟨_, _, rfl, rfl⟩
  | _ => trivial

theorem starts_of_cons {form : Form} (derivation : Derivation (.form form)) {token : Token}
    {rest behind : List Token} (same : derivation.tokens ++ behind = token :: rest) :
    form.starts token.kind = true := by
  obtain ⟨first, inside, tokens, starts⟩ := derivation.exists_head
  rw [tokens, List.cons_append, List.cons.injEq] at same
  rwa [← same.1]

theorem stops_links {tier : Tier} (links : Derivation (.links tier)) {rest : List Token}
    (stops : (Form.chain tier).Stops rest) : tier.operand.Stops (links.tokens ++ rest) := by
  cases links with
  | noLink => exact stops.operand
  | link operator fits operand more => exact .cons (Tier.not_continues_operand fits)

theorem stops_moreArguments (more : Derivation .moreArguments) {rest : List Token}
    (stops : Category.moreArguments.Stops rest) : Form.expression.Stops (more.tokens ++ rest) := by
  cases more with
  | noMore =>
    obtain ⟨trailing, closing, behind, rfl⟩ := stops
    cases trailing <;> exact .cons rfl
  | more comma argument others => exact .cons rfl

theorem trailing_injective {trailing other : Option Span} {closing otherClosing : Span}
    {rest others : List Token}
    (same : trailingTokens trailing ++ ⟨.symbol .closeParen, closing⟩ :: rest =
      trailingTokens other ++ ⟨.symbol .closeParen, otherClosing⟩ :: others) :
    trailing = other ∧ closing = otherClosing ∧ rest = others := by
  cases trailing <;> cases other <;> simp_all [trailingTokens]

theorem not_stops_more {comma : Span} (argument : Derivation (.form .expression))
    (behind : List Token) :
    ¬ Category.moreArguments.Stops (⟨.symbol .comma, comma⟩ :: (argument.tokens ++ behind)) := by
  rintro ⟨trailing, closing, after, same⟩
  cases trailing with
  | none => simp [trailingTokens] at same
  | some other =>
    simp only [trailingTokens, Option.toList_some, List.map_cons, List.map_nil, List.cons_append,
      List.nil_append, List.cons.injEq] at same
    have starts := argument.starts_of_cons same.2
    simp [Form.starts, Token.Kind.isUnary, Token.Kind.startsAtom, Token.Kind.leaf?] at starts

/-- No other derivation of the category spells the same tokens, up to a place where what follows
continues neither. -/
def Determined {category : Category} (derivation : Derivation category) : Prop :=
  ∀ (other : Derivation category) (rest others : List Token), category.Stops rest →
    category.Stops others → derivation.tokens ++ rest = other.tokens ++ others →
    derivation = other ∧ rest = others

theorem determined_not (word : Span) {operand : Derivation (.form .expression)}
    (ih : operand.Determined) : (not word operand).Determined := by
  intro other rest others stops otherStops same
  cases other with
  | not otherWord otherOperand =>
    simp only [tokens, List.cons_append, List.cons.injEq, Token.mk.injEq, true_and] at same
    obtain ⟨rfl, same⟩ := same
    obtain ⟨rfl, rfl⟩ := ih otherOperand rest others stops otherStops same
    exact ⟨rfl, rfl⟩
  | compared operands =>
    have starts := operands.starts_of_cons same.symm
    simp [Form.starts, Token.Kind.isUnary, Token.Kind.startsAtom, Token.Kind.leaf?] at starts

theorem determined_compared {operands : Derivation (.form (.chain .comparison))}
    (ih : operands.Determined) : (compared operands).Determined := by
  intro other rest others stops otherStops same
  cases other with
  | not word operand =>
    have starts := operands.starts_of_cons same
    simp [Form.starts, Token.Kind.isUnary, Token.Kind.startsAtom, Token.Kind.leaf?] at starts
  | compared otherOperands =>
    obtain ⟨rfl, rfl⟩ := ih otherOperands rest others stops otherStops same
    exact ⟨rfl, rfl⟩

theorem determined_chain {tier : Tier} {first : Derivation (.form tier.operand)}
    {links : Derivation (.links tier)} (ihFirst : first.Determined) (ihLinks : links.Determined) :
    (chain first links).Determined := by
  intro other rest others stops otherStops same
  cases other with
  | chain otherFirst otherLinks =>
    simp only [tokens, List.append_assoc] at same
    obtain ⟨rfl, behind⟩ := ihFirst otherFirst _ _ (stops_links links stops)
      (stops_links otherLinks otherStops) same
    obtain ⟨rfl, rfl⟩ := ihLinks otherLinks rest others stops otherStops behind
    exact ⟨rfl, rfl⟩

theorem determined_noLink {tier : Tier} : (noLink : Derivation (.links tier)).Determined := by
  intro other rest others stops otherStops same
  cases other with
  | noLink => exact ⟨rfl, same⟩
  | link operator fits operand more =>
    simp only [tokens, List.nil_append, List.cons_append] at same
    subst same
    have continues := stops.head
    simp [Tier.continues_chain, fits] at continues

theorem determined_link {tier : Tier} {operator : Token}
    (fits : tier.isOperator operator.kind = true) {operand : Derivation (.form tier.operand)}
    {more : Derivation (.links tier)} (ihOperand : operand.Determined) (ihMore : more.Determined) :
    (link operator fits operand more).Determined := by
  intro other rest others stops otherStops same
  cases other with
  | noLink =>
    simp only [tokens, List.nil_append, List.cons_append] at same
    subst same
    have continues := otherStops.head
    simp [Tier.continues_chain, fits] at continues
  | link otherOperator otherFits otherOperand otherMore =>
    simp only [tokens, List.cons_append, List.cons.injEq, List.append_assoc] at same
    obtain ⟨rfl, same⟩ := same
    obtain ⟨rfl, behind⟩ := ihOperand otherOperand _ _ (stops_links more stops)
      (stops_links otherMore otherStops) same
    obtain ⟨rfl, rfl⟩ := ihMore otherMore rest others stops otherStops behind
    exact ⟨rfl, rfl⟩

theorem not_startsAtom_of_isUnary {kind : Token.Kind} (unary : kind.isUnary = true) :
    kind.startsAtom = false := by
  unfold Token.Kind.isUnary at unary
  split at unary <;> first | rfl | simp at unary

theorem determined_unary {sign : Token} (fits : sign.kind.isUnary = true)
    {operand : Derivation (.form .factor)} (ih : operand.Determined) :
    (unary sign fits operand).Determined := by
  intro other rest others stops otherStops same
  cases other with
  | unary otherSign otherFits otherOperand =>
    simp only [tokens, List.cons_append, List.cons.injEq] at same
    obtain ⟨rfl, same⟩ := same
    obtain ⟨rfl, rfl⟩ := ih otherOperand rest others stops otherStops same
    exact ⟨rfl, rfl⟩
  | unsigned power =>
    have starts := power.starts_of_cons same.symm
    simp [Form.starts, not_startsAtom_of_isUnary fits] at starts

theorem determined_unsigned {power : Derivation (.form .power)} (ih : power.Determined) :
    (unsigned power).Determined := by
  intro other rest others stops otherStops same
  cases other with
  | unary sign fits operand =>
    have starts := power.starts_of_cons same
    simp [Form.starts, not_startsAtom_of_isUnary fits] at starts
  | unsigned otherPower =>
    obtain ⟨rfl, rfl⟩ := ih otherPower rest others stops otherStops same
    exact ⟨rfl, rfl⟩

theorem determined_base {root : Derivation (.form .call)} (ih : root.Determined) :
    (base root).Determined := by
  intro other rest others stops otherStops same
  cases other with
  | base otherRoot =>
    obtain ⟨rfl, rfl⟩ := ih otherRoot rest others stops.call otherStops.call same
    exact ⟨rfl, rfl⟩
  | raised otherRoot sign exponent =>
    simp only [tokens, List.append_assoc, List.cons_append] at same
    -- The roots agree, so what follows this one is the sign of the other's power.
    obtain ⟨-, rfl⟩ := ih otherRoot rest _ stops.call (.cons rfl) same
    exact absurd stops.head (by simp [Form.continues, Token.Kind.continuesPower])

theorem determined_raised {root : Derivation (.form .call)} (sign : Span)
    {exponent : Derivation (.form .factor)} (ihRoot : root.Determined)
    (ihExponent : exponent.Determined) : (raised root sign exponent).Determined := by
  intro other rest others stops otherStops same
  cases other with
  | base otherRoot =>
    simp only [tokens, List.append_assoc, List.cons_append] at same
    obtain ⟨-, rfl⟩ := ihRoot otherRoot _ others (.cons rfl) otherStops.call same
    exact absurd otherStops.head (by simp [Form.continues, Token.Kind.continuesPower])
  | raised otherRoot otherSign otherExponent =>
    simp only [tokens, List.append_assoc, List.cons_append] at same
    obtain ⟨rfl, behind⟩ := ihRoot otherRoot _ _ (.cons rfl) (.cons rfl) same
    simp only [List.cons.injEq, Token.mk.injEq, true_and] at behind
    obtain ⟨rfl, behind⟩ := behind
    obtain ⟨rfl, rfl⟩ := ihExponent otherExponent rest others stops otherStops behind
    exact ⟨rfl, rfl⟩

theorem determined_call {callee : Derivation (.form .atom)}
    {applications : Derivation .applications} (ihCallee : callee.Determined)
    (ihApplications : applications.Determined) :
    (call callee applications).Determined := by
  intro other rest others stops otherStops same
  cases other with
  | call otherCallee otherApplications =>
    simp only [tokens, List.append_assoc] at same
    obtain ⟨rfl, behind⟩ := ihCallee otherCallee _ _ (Form.atom_stops _) (Form.atom_stops _) same
    obtain ⟨rfl, rfl⟩ := ihApplications otherApplications rest others stops otherStops behind
    exact ⟨rfl, rfl⟩

theorem not_stops_arguments (list : Derivation (.form .arguments)) (behind : List Token) :
    ¬ Form.call.Stops (list.tokens ++ behind) := by
  intro stops
  obtain ⟨token, rest, same, starts⟩ := list.exists_head
  rw [same] at stops
  have continues := stops.head
  simp_all [Form.starts, Form.continues]

theorem determined_noApplication : noApplication.Determined := by
  intro other rest others stops otherStops same
  cases other with
  | noApplication => exact ⟨rfl, same⟩
  | application list more =>
    simp only [tokens, List.nil_append, List.append_assoc] at same
    subst same
    exact absurd stops (not_stops_arguments list _)

theorem determined_application {list : Derivation (.form .arguments)}
    {more : Derivation .applications} (ihList : list.Determined) (ihMore : more.Determined) :
    (application list more).Determined := by
  intro other rest others stops otherStops same
  cases other with
  | noApplication =>
    simp only [tokens, List.nil_append, List.append_assoc] at same
    subst same
    exact absurd otherStops (not_stops_arguments list _)
  | application otherList otherMore =>
    simp only [tokens, List.append_assoc] at same
    obtain ⟨rfl, behind⟩ :=
      ihList otherList _ _ (Form.arguments_stops _) (Form.arguments_stops _) same
    obtain ⟨rfl, rfl⟩ := ihMore otherMore rest others stops otherStops behind
    exact ⟨rfl, rfl⟩

theorem not_starts_closeParen (first : Derivation (.form .expression)) {closing : Span}
    {rest behind : List Token} :
    first.tokens ++ behind ≠ ⟨.symbol .closeParen, closing⟩ :: rest := by
  intro same
  have starts := first.starts_of_cons same
  simp [Form.starts, Token.Kind.isUnary, Token.Kind.startsAtom, Token.Kind.leaf?] at starts

theorem determined_noArguments (opening closing : Span) :
    (noArguments opening closing).Determined := by
  intro other rest others stops otherStops same
  cases other with
  | noArguments otherOpening otherClosing => simp_all
  | arguments otherOpening first more trailing otherClosing =>
    simp only [tokens, List.cons_append, List.cons.injEq, List.append_assoc] at same
    exact absurd same.2.symm first.not_starts_closeParen

theorem determined_arguments (opening : Span) {first : Derivation (.form .expression)}
    {more : Derivation .moreArguments} (trailing : Option Span) (closing : Span)
    (ihFirst : first.Determined) (ihMore : more.Determined) :
    (arguments opening first more trailing closing).Determined := by
  intro other rest others stops otherStops same
  cases other with
  | noArguments otherOpening otherClosing =>
    simp only [tokens, List.cons_append, List.cons.injEq, List.append_assoc] at same
    exact absurd same.2 first.not_starts_closeParen
  | arguments otherOpening otherFirst otherMore otherTrailing otherClosing =>
    simp only [tokens, List.cons_append, List.cons.injEq, List.append_assoc, Token.mk.injEq,
      true_and, List.nil_append] at same
    obtain ⟨rfl, same⟩ := same
    -- Where the arguments are over, a comma may come before the closing parenthesis.
    have ends (trailing : Option Span) (closing : Span) (rest : List Token) :
        Category.moreArguments.Stops
          (trailingTokens trailing ++ ⟨.symbol .closeParen, closing⟩ :: rest) :=
      ⟨trailing, closing, rest, rfl⟩
    obtain ⟨rfl, behind⟩ := ihFirst otherFirst _ _ (stops_moreArguments more (ends ..))
      (stops_moreArguments otherMore (ends ..)) same
    obtain ⟨rfl, ending⟩ := ihMore otherMore _ _ (ends ..) (ends ..) behind
    obtain ⟨rfl, rfl, rfl⟩ := trailing_injective ending
    exact ⟨rfl, rfl⟩

theorem determined_noMore : noMore.Determined := by
  intro other rest others stops otherStops same
  cases other with
  | noMore => exact ⟨rfl, same⟩
  | more comma argument otherMore =>
    simp only [tokens, List.nil_append, List.cons_append, List.append_assoc] at same
    subst same
    exact absurd stops (not_stops_more argument _)

theorem determined_more (comma : Span) {argument : Derivation (.form .expression)}
    {further : Derivation .moreArguments} (ihArgument : argument.Determined)
    (ihFurther : further.Determined) : (more comma argument further).Determined := by
  intro other rest others stops otherStops same
  cases other with
  | noMore =>
    simp only [tokens, List.nil_append, List.cons_append, List.append_assoc] at same
    subst same
    exact absurd otherStops (not_stops_more argument _)
  | more otherComma otherArgument otherFurther =>
    simp only [tokens, List.cons_append, List.cons.injEq, List.append_assoc, Token.mk.injEq,
      true_and] at same
    obtain ⟨rfl, same⟩ := same
    obtain ⟨rfl, behind⟩ := ihArgument otherArgument _ _ (stops_moreArguments further stops)
      (stops_moreArguments otherFurther otherStops) same
    obtain ⟨rfl, rfl⟩ := ihFurther otherFurther rest others stops otherStops behind
    exact ⟨rfl, rfl⟩

theorem determined_leaf (token : Token) {kind : Tree.Kind} (fits : token.kind.leaf? = some kind) :
    (leaf token kind fits).Determined := by
  intro other rest others stops otherStops same
  cases other with
  | leaf otherToken otherKind otherFits =>
    simp only [tokens, List.cons_append, List.nil_append, List.cons.injEq] at same
    obtain ⟨rfl, rfl⟩ := same
    rw [fits, Option.some.injEq] at otherFits
    subst otherFits
    exact ⟨rfl, rfl⟩
  | parenthesized opening inner closing =>
    simp only [tokens, List.cons_append, List.cons.injEq] at same
    obtain ⟨rfl, -⟩ := same
    simp [Token.Kind.leaf?] at fits

theorem determined_parenthesized (opening closing : Span)
    {inner : Derivation (.form .expression)} (ih : inner.Determined) :
    (parenthesized opening inner closing).Determined := by
  intro other rest others stops otherStops same
  cases other with
  | leaf token kind fits =>
    simp only [tokens, List.cons_append, List.cons.injEq] at same
    obtain ⟨rfl, -⟩ := same
    simp [Token.Kind.leaf?] at fits
  | parenthesized otherOpening otherInner otherClosing =>
    simp only [tokens, List.cons_append, List.cons.injEq, List.append_assoc, Token.mk.injEq,
      true_and, List.nil_append] at same
    obtain ⟨rfl, same⟩ := same
    obtain ⟨rfl, behind⟩ := ih otherInner _ _ (.cons rfl) (.cons rfl) same
    simp only [List.cons.injEq, Token.mk.injEq, true_and] at behind
    obtain ⟨rfl, rfl⟩ := behind
    exact ⟨rfl, rfl⟩

theorem determined {category : Category} (derivation : Derivation category) :
    derivation.Determined := by
  -- What follows a part is what its own form does not continue, or tokens that stop the whole.
  induction derivation with
  | not word operand ih => exact determined_not word ih
  | compared operands ih => exact determined_compared ih
  | chain first links ihFirst ihLinks => exact determined_chain ihFirst ihLinks
  | noLink => exact determined_noLink
  | link operator fits operand more ihOperand ihMore =>
    exact determined_link fits ihOperand ihMore
  | unary sign fits operand ih => exact determined_unary fits ih
  | unsigned power ih => exact determined_unsigned ih
  | base root ih => exact determined_base ih
  | raised root sign exponent ihRoot ihExponent => exact determined_raised sign ihRoot ihExponent
  | call callee applications ihCallee ihApplications =>
    exact determined_call ihCallee ihApplications
  | noApplication => exact determined_noApplication
  | application list more ihList ihMore => exact determined_application ihList ihMore
  | noArguments opening closing => exact determined_noArguments opening closing
  | arguments opening first more trailing closing ihFirst ihMore =>
    exact determined_arguments opening trailing closing ihFirst ihMore
  | noMore => exact determined_noMore
  | more comma argument further ihArgument ihFurther =>
    exact determined_more comma ihArgument ihFurther
  | leaf token kind fits => exact determined_leaf token fits
  | parenthesized opening inner closing ih => exact determined_parenthesized opening closing ih

end Derivation

end StackScript
