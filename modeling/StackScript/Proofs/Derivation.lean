import StackScript.Phrase.Grammar

set_option autoImplicit false

namespace StackScript

inductive Tier where
  | comparison
  | sum
  | product
deriving DecidableEq, Repr

inductive Form where
  | expression
  | chain (tier : Tier)
  | factor
  | power
  | call
  | arguments
  | atom
deriving DecidableEq, Repr

/-- A form, or a part that is repeated: operators with their right operands, argument lists behind a
callee, arguments behind the first. -/
inductive Category where
  | form (form : Form)
  | links (tier : Tier)
  | applications
  | moreArguments
deriving DecidableEq, Repr

namespace Tier

def isOperator : Tier → Token.Kind → Bool
  | comparison => (·.isComparison)
  | sum => (·.isSum)
  | product => (·.isProduct)

def operatorKind : Tier → Tree.Kind
  | comparison => .comparisonOperator
  | sum | product => .arithmeticOperator

def operand : Tier → Form
  | comparison => .chain .sum
  | sum => .chain .product
  | product => .factor

end Tier

def Token.Kind.leaf? : Token.Kind → Option Tree.Kind
  | number => some .number
  | name => some .variableName
  | string => some .string
  | keyword .true | keyword .false => some .boolean
  | keyword .none => some .none
  | _ => none

inductive Derivation : Category → Type
  | not (word : Span) (operand : Derivation (.form .expression)) : Derivation (.form .expression)
  | compared (operands : Derivation (.form (.chain .comparison))) : Derivation (.form .expression)
  | chain {tier : Tier} (first : Derivation (.form tier.operand))
      (links : Derivation (.links tier)) : Derivation (.form (.chain tier))
  | noLink {tier : Tier} : Derivation (.links tier)
  | link {tier : Tier} (operator : Token) (fits : tier.isOperator operator.kind = true)
      (operand : Derivation (.form tier.operand)) (rest : Derivation (.links tier)) :
      Derivation (.links tier)
  | unary (sign : Token) (fits : sign.kind.isUnary = true) (operand : Derivation (.form .factor)) :
      Derivation (.form .factor)
  | unsigned (power : Derivation (.form .power)) : Derivation (.form .factor)
  | base (root : Derivation (.form .call)) : Derivation (.form .power)
  | raised (root : Derivation (.form .call)) (sign : Span)
      (exponent : Derivation (.form .factor)) : Derivation (.form .power)
  | call (callee : Derivation (.form .atom)) (applications : Derivation .applications) :
      Derivation (.form .call)
  | noApplication : Derivation .applications
  | application (list : Derivation (.form .arguments)) (rest : Derivation .applications) :
      Derivation .applications
  | noArguments (opening closing : Span) : Derivation (.form .arguments)
  | arguments (opening : Span) (first : Derivation (.form .expression))
      (others : Derivation .moreArguments) (trailing : Option Span) (closing : Span) :
      Derivation (.form .arguments)
  | noMore : Derivation .moreArguments
  | more (comma : Span) (argument : Derivation (.form .expression))
      (rest : Derivation .moreArguments) : Derivation .moreArguments
  | leaf (token : Token) (kind : Tree.Kind) (fits : token.kind.leaf? = some kind) :
      Derivation (.form .atom)
  | parenthesized (opening : Span) (inner : Derivation (.form .expression)) (closing : Span) :
      Derivation (.form .atom)

-- What a derivation of the category builds. Links and applications extend the phrase on their left.
abbrev Category.Building : Category → Type
  | form _ => Phrase
  | links _ | applications => Phrase → Phrase
  | moreArguments => List Phrase

namespace Derivation

def trailingTokens (trailing : Option Span) : List Token :=
  trailing.toList.map fun comma => ⟨.symbol .comma, comma⟩

def tokens : {category : Category} → Derivation category → List Token
  | _, not word operand => ⟨.keyword .not, word⟩ :: operand.tokens
  | _, compared operands => operands.tokens
  | _, chain first links => first.tokens ++ links.tokens
  | _, noLink => []
  | _, link operator _ operand rest => operator :: (operand.tokens ++ rest.tokens)
  | _, unary sign _ operand => sign :: operand.tokens
  | _, unsigned power => power.tokens
  | _, base root => root.tokens
  | _, raised root sign exponent => root.tokens ++ ⟨.symbol .power, sign⟩ :: exponent.tokens
  | _, call callee applications => callee.tokens ++ applications.tokens
  | _, noApplication => []
  | _, application list rest => list.tokens ++ rest.tokens
  | _, noArguments opening closing =>
    [⟨.symbol .openParen, opening⟩, ⟨.symbol .closeParen, closing⟩]
  | _, arguments opening first others trailing closing =>
    ⟨.symbol .openParen, opening⟩ ::
      (first.tokens ++ (others.tokens ++
        (trailingTokens trailing ++ [⟨.symbol .closeParen, closing⟩])))
  | _, noMore => []
  | _, more comma argument rest =>
    ⟨.symbol .comma, comma⟩ :: (argument.tokens ++ rest.tokens)
  | _, leaf token _ _ => [token]
  | _, parenthesized opening inner closing =>
    ⟨.symbol .openParen, opening⟩ :: (inner.tokens ++ [⟨.symbol .closeParen, closing⟩])

def tree : {category : Category} → Derivation category → category.Building
  | _, not word operand => .wrap .unaryExpression (.leaf .keyword word) [operand.tree]
  | _, compared operands => operands.tree
  | _, chain first links => links.tree first.tree
  | _, noLink => fun left => left
  | _, @link tier operator _ operand rest => fun left =>
    rest.tree
      (.wrap .binaryExpression left [.leaf tier.operatorKind operator.span, operand.tree])
  | _, unary sign _ operand =>
    .wrap .unaryExpression (.leaf .arithmeticOperator sign.span) [operand.tree]
  | _, unsigned power => power.tree
  | _, base root => root.tree
  | _, raised root sign exponent =>
    .wrap .binaryExpression root.tree [.leaf .arithmeticOperator sign, exponent.tree]
  | _, call callee applications => applications.tree callee.tree
  | _, noApplication => fun callee => callee
  | _, application list rest => fun callee =>
    rest.tree (.wrap .callExpression callee [list.tree])
  | _, noArguments opening closing =>
    .wrap .argumentList (.leaf .openParen opening) [.leaf .closeParen closing]
  | _, arguments opening first others trailing closing =>
    .wrap .argumentList (.leaf .openParen opening)
      (first.tree :: (others.tree ++
        (trailing.toList.map (Phrase.leaf .comma) ++ [.leaf .closeParen closing])))
  | _, noMore => []
  | _, more comma argument rest => .leaf .comma comma :: argument.tree :: rest.tree
  | _, leaf token kind _ => .leaf kind token.span
  | _, parenthesized opening inner closing =>
    .wrap .parenthesized (.leaf .openParen opening) [inner.tree, .leaf .closeParen closing]

/-- How many levels deep a derivation goes below its own: an argument, what stands in parentheses,
and an operand of `not`, of a sign or of `**` is a level below. -/
def nesting : {category : Category} → Derivation category → Nat
  | _, not _ operand => operand.nesting + 1
  | _, compared operands => operands.nesting
  | _, chain first links => max first.nesting links.nesting
  | _, noLink => 0
  | _, link _ _ operand rest => max operand.nesting rest.nesting
  | _, unary _ _ operand => operand.nesting + 1
  | _, unsigned power => power.nesting
  | _, base root => root.nesting
  | _, raised root _ exponent => max root.nesting (exponent.nesting + 1)
  | _, call callee applications => max callee.nesting applications.nesting
  | _, noApplication => 0
  | _, application list rest => max list.nesting rest.nesting
  | _, noArguments _ _ => 0
  | _, arguments _ first others _ _ => max (first.nesting + 1) others.nesting
  | _, noMore => 0
  | _, more _ argument rest => max (argument.nesting + 1) rest.nesting
  | _, leaf _ _ _ => 0
  | _, parenthesized _ inner _ => inner.nesting + 1

inductive Statement where
  | pass (word : Span)
  | assign (name sign : Span) (value : Derivation (.form .expression))
  | expression (value : Derivation (.form .expression))

namespace Statement

def tokens : Statement → List Token
  | pass word => [⟨.keyword .pass, word⟩]
  | assign name sign value => ⟨.name, name⟩ :: ⟨.symbol .assign, sign⟩ :: value.tokens
  | expression value => value.tokens

def tree : Statement → Phrase
  | pass word => .wrap .passStatement (.leaf .keyword word) []
  | assign name sign value =>
    .wrap .assignStatement (.leaf .variableName name) [.leaf .assignOperator sign, value.tree]
  | expression value => .wrap .expressionStatement value.tree []

def nesting : Statement → Nat
  | pass _ => 0
  | assign _ _ value => value.nesting + 1
  | expression value => value.nesting + 1

end Statement

structure Separators where
  tokens : List Token
  separate : ∀ token ∈ tokens, token.kind.isSeparator = true

inductive Lines where
  | last (statement : Statement) (after : Separators)
  | next (statement : Statement) (between : Separators) (apart : between.tokens ≠ [])
      (rest : Lines)

namespace Lines

def tokens : Lines → List Token
  | last statement after => statement.tokens ++ after.tokens
  | next statement between _ rest => statement.tokens ++ (between.tokens ++ rest.tokens)

def trees : Lines → List Phrase
  | last statement _ => [statement.tree]
  | next statement _ _ rest => statement.tree :: rest.trees

def nesting : Lines → Nat
  | last statement _ => statement.nesting
  | next statement _ _ rest => max statement.nesting rest.nesting

end Lines

structure Script where
  before : Separators
  lines : Option Lines

namespace Script

def tokens (script : Script) : List Token :=
  script.before.tokens ++ script.lines.elim [] (·.tokens)

def trees (script : Script) : List Phrase :=
  script.lines.elim [] (·.trees)

def tree (script : Script) (size : Nat) : Phrase :=
  .node .script ⟨0, size⟩ script.trees

def nesting (script : Script) : Nat :=
  script.lines.elim 0 (·.nesting)

end Script

end Derivation

end StackScript
