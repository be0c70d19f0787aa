import StackScript.CompileError
import StackScript.Phrase

/-!
Reading phrases from tokens.

```text
script     = separator* (statement (separator+ statement)*)? separator*
statement  = 'pass' | name '=' expression | expression
expression = 'not' expression | comparison
comparison = sum (('==' | '!=' | '<' | '>' | '<=' | '>=') sum)*
sum        = product (('+' | '-') product)*
product    = factor (('*' | '/' | '//' | '%') factor)*
factor     = ('+' | '-' | '~') factor | power
power      = call ('**' factor)?
call       = atom arguments*
arguments  = '(' (expression (',' expression)* ','?)? ')'
atom       = number | name | string | 'True' | 'False' | 'None' | '(' expression ')'
```

An expression of a statement, in parentheses or in an argument list, and an operand of `not`, of a
sign or of `**` is one level deeper than what it stands in; `levels` is how many levels are left.
-/

set_option autoImplicit false

namespace StackScript

abbrev Reader := List Token → Except CompileError (Phrase × List Token)

namespace Reader

def nextSpan (size : Nat) : List Token → Span
  | [] => ⟨size, size⟩
  | token :: _ => token.span

def unexpected (size : Nat) (expected : Fault.Expected) (tokens : List Token) : CompileError :=
  let fault :=
    match tokens with
    | [] => .unexpectedEnd expected
    | token :: _ => .unexpectedToken token.kind expected
  .fault fault (nextSpan size tokens)

def tooDeep (size : Nat) : Reader := fun tokens =>
  .error (.fault .nestingTooDeep (nextSpan size tokens))

def atom (size : Nat) (expression : Reader) : Reader
  | ⟨.number, span⟩ :: rest => .ok (.leaf .number span, rest)
  | ⟨.name, span⟩ :: rest => .ok (.leaf .variableName span, rest)
  | ⟨.string, span⟩ :: rest => .ok (.leaf .string span, rest)
  | ⟨.keyword .true, span⟩ :: rest => .ok (.leaf .boolean span, rest)
  | ⟨.keyword .false, span⟩ :: rest => .ok (.leaf .boolean span, rest)
  | ⟨.keyword .none, span⟩ :: rest => .ok (.leaf .none span, rest)
  | ⟨.symbol .openParen, opening⟩ :: rest => do
    let (inner, rest) ← expression rest
    match rest with
    | ⟨.symbol .closeParen, closing⟩ :: rest =>
      .ok (.wrap .parenthesized (.leaf .openParen opening) [inner, .leaf .closeParen closing], rest)
    | rest => .error (unexpected size .closeParen rest)
  | tokens => .error (unexpected size .expression tokens)

/-- What stands in an argument list behind its opening parenthesis. Each argument takes a token, so
`bound` may be any number above that of the tokens. -/
def argumentsUpTo (size : Nat) (expression : Reader) :
    (bound : Nat) → List Token → Except CompileError (List Phrase × List Token)
  | _, ⟨.symbol .closeParen, closing⟩ :: rest => .ok ([.leaf .closeParen closing], rest)
  | 0, tokens => .error (unexpected size .expression tokens)
  | bound + 1, tokens => do
    let (argument, rest) ← expression tokens
    match rest with
    | ⟨.symbol .comma, comma⟩ :: rest =>
      let (more, rest) ← argumentsUpTo size expression bound rest
      .ok (argument :: .leaf .comma comma :: more, rest)
    | ⟨.symbol .closeParen, closing⟩ :: rest => .ok ([argument, .leaf .closeParen closing], rest)
    | rest => .error (unexpected size .commaOrCloseParen rest)

def arguments (size : Nat) (expression : Reader) (opening : Span) : Reader := fun tokens => do
  let (inside, rest) ← argumentsUpTo size expression (tokens.length + 1) tokens
  .ok (.wrap .argumentList (.leaf .openParen opening) inside, rest)

def callsUpTo (size : Nat) (expression : Reader) : (bound : Nat) → Phrase → Reader
  | bound + 1, callee, ⟨.symbol .openParen, opening⟩ :: rest => do
    let (list, rest) ← arguments size expression opening rest
    callsUpTo size expression bound (.wrap .callExpression callee [list]) rest
  | _, callee, tokens => .ok (callee, tokens)

def call (size : Nat) (expression : Reader) : Reader := fun tokens => do
  let (callee, rest) ← atom size expression tokens
  callsUpTo size expression rest.length callee rest

def power (size : Nat) (expression exponent : Reader) : Reader := fun tokens => do
  let (base, rest) ← call size expression tokens
  match rest with
  | ⟨.symbol .power, sign⟩ :: rest =>
    let (raised, rest) ← exponent rest
    .ok (.wrap .binaryExpression base [.leaf .arithmeticOperator sign, raised], rest)
  | rest => .ok (base, rest)

def factorOf (size : Nat) (expression factor : Reader) : Reader
  | token :: rest =>
    if token.kind.isUnary then do
      let (operand, rest) ← factor rest
      .ok (.wrap .unaryExpression (.leaf .arithmeticOperator token.span) [operand], rest)
    else power size expression factor (token :: rest)
  | [] => power size expression factor []

def chainUpTo (isOperator : Token.Kind → Bool) (kind : Tree.Kind) (operand : Reader) :
    (bound : Nat) → Phrase → Reader
  | bound + 1, left, token :: rest =>
    if isOperator token.kind then do
      let (right, rest) ← operand rest
      chainUpTo isOperator kind operand bound
        (.wrap .binaryExpression left [.leaf kind token.span, right]) rest
    else .ok (left, token :: rest)
  | _, left, tokens => .ok (left, tokens)

def chain (isOperator : Token.Kind → Bool) (kind : Tree.Kind) (operand : Reader) : Reader :=
  fun tokens => do
    let (left, rest) ← operand tokens
    chainUpTo isOperator kind operand rest.length left rest

def comparison (factor : Reader) : Reader :=
  chain (·.isComparison) .comparisonOperator <|
    chain (·.isSum) .arithmeticOperator <|
      chain (·.isProduct) .arithmeticOperator factor

def expressionOf (expression factor : Reader) : Reader
  | ⟨.keyword .not, word⟩ :: rest => do
    let (operand, rest) ← expression rest
    .ok (.wrap .unaryExpression (.leaf .keyword word) [operand], rest)
  | tokens => comparison factor tokens

structure Level where
  expression : Reader
  factor : Reader

def Level.above (size : Nat) (inner : Level) : Level :=
  let factor := factorOf size inner.expression inner.factor
  ⟨expressionOf inner.expression factor, factor⟩

/-- The readers that may go `levels` levels deep, themselves counted. -/
def level (size : Nat) : (levels : Nat) → Level
  | 0 => ⟨tooDeep size, tooDeep size⟩
  | levels + 1 => (level size levels).above size

def expression (size : Nat) : Reader :=
  (level size nestingLimit).expression

def statement (size : Nat) : Reader
  | ⟨.keyword .pass, word⟩ :: rest => .ok (.wrap .passStatement (.leaf .keyword word) [], rest)
  | ⟨.name, name⟩ :: ⟨.symbol .assign, sign⟩ :: rest => do
    let (value, rest) ← expression size rest
    .ok (.wrap .assignStatement (.leaf .variableName name) [.leaf .assignOperator sign, value],
      rest)
  | tokens => do
    let (value, rest) ← expression size tokens
    .ok (.wrap .expressionStatement value [], rest)

def statementsUpTo (size : Nat) :
    (bound : Nat) → List Token → Except CompileError (List Phrase)
  | bound + 1, token :: rest =>
    if token.kind.isSeparator then statementsUpTo size bound rest
    else do
      let (first, rest) ← statement size (token :: rest)
      match rest with
      | [] => .ok [first]
      | next :: rest =>
        if next.kind.isSeparator then
          return first :: (← statementsUpTo size bound (next :: rest))
        else .error (unexpected size .statementEnd (next :: rest))
  | _, _ => .ok []

end Reader

/-- The tokens without the newlines inside parentheses, `depth` of which are open. -/
def Token.joinLines : (depth : Nat) → List Token → List Token
  | _, [] => []
  | depth, token :: rest =>
    match token.kind with
    | .symbol .openParen => token :: joinLines (depth + 1) rest
    | .symbol .closeParen => token :: joinLines (depth - 1) rest
    | .newline => if depth = 0 then token :: joinLines depth rest else joinLines depth rest
    | _ => token :: joinLines depth rest

namespace Phrase

def ofTokens (size : Nat) (tokens : List Token) : Except CompileError Phrase := do
  let joined := Token.joinLines 0 tokens
  return .node .script ⟨0, size⟩ (← Reader.statementsUpTo size joined.length joined)

def ofSource (source : List Char) : Except CompileError Phrase := do
  let tokens ← (Token.ofSource source).mapError .lexical
  ofTokens (Text.byteLength source) tokens

end Phrase

def Tree.ofSource (source : List Char) : Except CompileError Tree := do
  return (← Phrase.ofSource source).toTree

end StackScript
