import StackScript.Token.Scan
import StackScript.Tree

set_option autoImplicit false

namespace StackScript

namespace Fault

inductive Kind where
  | emptyProgram
  | noStatements
  | unexpectedToken
  | unsupportedStatement
  | unsupportedExpression
  | unknownBuiltin
  | argumentCount
  | unsupportedUnaryOperator
  | invalidUnaryOperand
  | unsupportedBinaryOperator
  | nonIntegerLiteral
  | literalOutOfRange
  | nestingTooDeep
deriving DecidableEq, Repr

namespace Kind

def all : List Kind :=
  [emptyProgram, noStatements, unexpectedToken, unsupportedStatement, unsupportedExpression,
    unknownBuiltin, argumentCount, unsupportedUnaryOperator, invalidUnaryOperand,
    unsupportedBinaryOperator, nonIntegerLiteral, literalOutOfRange, nestingTooDeep]

def name : Kind → String
  | emptyProgram => "EmptyProgram"
  | noStatements => "NoStatements"
  | unexpectedToken => "UnexpectedToken"
  | unsupportedStatement => "UnsupportedStatement"
  | unsupportedExpression => "UnsupportedExpression"
  | unknownBuiltin => "UnknownBuiltin"
  | argumentCount => "ArgumentCount"
  | unsupportedUnaryOperator => "UnsupportedUnaryOperator"
  | invalidUnaryOperand => "InvalidUnaryOperand"
  | unsupportedBinaryOperator => "UnsupportedBinaryOperator"
  | nonIntegerLiteral => "NonIntegerLiteral"
  | literalOutOfRange => "LiteralOutOfRange"
  | nestingTooDeep => "NestingTooDeep"

def ofName? (name : String) : Option Kind :=
  all.find? (·.name = name)

theorem ofName?_name (kind : Kind) : ofName? kind.name = some kind := by
  cases kind <;> decide

end Kind

inductive Expected where
  | statementEnd
  | expression
  | closeParen
  | commaOrCloseParen
deriving DecidableEq, Repr

def Expected.text : Expected → String
  | statementEnd => "end of statement"
  | expression => "expression"
  | closeParen => "')'"
  | commaOrCloseParen => "',' or ')'"

inductive Part where
  | assignSign
  | value
  | argumentList
  | operand
  | operator
  | rightOperand
deriving DecidableEq, Repr

def Part.text : Part → String
  | assignSign => "'='"
  | value => "a value"
  | argumentList => "an argument list"
  | operand => "an operand"
  | operator => "an operator"
  | rightOperand => "a right operand"

inductive Complaint where
  | notProgram
  | statement
  | assignTarget
  | expression
  | noArgumentList
  | argumentSeparator
  | noUnaryBuiltin
  | noBinaryBuiltin
  | unaryOperator
  | unaryOperand
  | binaryOperator
  | malformed (kind : Tree.Kind)
  | missing (part : Part)
  | other (kind : Kind) (words : String)
deriving DecidableEq, Repr

def Complaint.kind : Complaint → Kind
  | notProgram | statement | assignTarget => .unsupportedStatement
  | expression | noArgumentList => .unsupportedExpression
  | argumentSeparator | malformed _ | missing _ => .unexpectedToken
  | noUnaryBuiltin | noBinaryBuiltin => .unknownBuiltin
  | unaryOperator => .unsupportedUnaryOperator
  | unaryOperand => .invalidUnaryOperand
  | binaryOperator => .unsupportedBinaryOperator
  | other kind _ => kind

def Complaint.words : Complaint → String
  | notProgram => "Could not parse program"
  | statement => "Not in grammar, could not parse statement"
  | assignTarget => "Unsupported assignment target"
  | expression => "Not in grammar"
  | noArgumentList => "Expected an argument list"
  | argumentSeparator => "Expected ',' or ')' in argument list"
  | noUnaryBuiltin => "Unknown builtin taking one argument"
  | noBinaryBuiltin => "Unknown builtin taking two arguments"
  | unaryOperator => "Unsupported unary operator"
  | unaryOperand => "Unary operators only apply to number literals"
  | binaryOperator => "Unknown binary operator"
  | malformed kind => "Malformed " ++ kind.name ++ " node"
  | missing part => "Expected " ++ part.text ++ " after"
  | other _ words => words

end Fault

/-- The deepest nesting of expressions that is followed. -/
def nestingLimit : Nat := 200

inductive Fault where
  | emptyProgram
  | noStatements
  | unexpectedToken (token : Token.Kind) (expected : Fault.Expected)
  | unexpectedEnd (expected : Fault.Expected)
  | nestingTooDeep
  | shape (complaint : Fault.Complaint) (text : String)
  | argumentCount (callee : String) (count : Nat)
  | nonIntegerLiteral (text : String)
  | literalOutOfRange (text : String)
  | constantOutOfRange (value : Int)
  | other (kind : Fault.Kind) (message : String)
deriving DecidableEq, Repr

namespace Fault

def kind : Fault → Kind
  | emptyProgram => .emptyProgram
  | noStatements => .noStatements
  | unexpectedToken _ _ | unexpectedEnd _ => .unexpectedToken
  | nestingTooDeep => .nestingTooDeep
  | shape complaint _ => complaint.kind
  | argumentCount _ _ => .argumentCount
  | nonIntegerLiteral _ => .nonIntegerLiteral
  | literalOutOfRange _ | constantOutOfRange _ => .literalOutOfRange
  | other kind _ => kind

def message : Fault → String
  | emptyProgram => "Empty Program"
  | noStatements => "Program has no statements"
  | unexpectedToken token expected =>
    "Unexpected token " ++ token.describe ++ ". Expected " ++ expected.text
  | unexpectedEnd expected => "Unexpected end of input. Expected " ++ expected.text
  | nestingTooDeep => "Expression nests deeper than " ++ toString nestingLimit ++ " levels"
  | shape complaint text => complaint.words ++ ": '" ++ text ++ "'"
  | argumentCount callee count =>
    "Can't call '" ++ callee ++ "' with " ++ toString count ++
      (if count = 1 then " argument" else " arguments") ++ "; builtins take 1 or 2"
  | nonIntegerLiteral text => "UNSUPPORTED TYPE: only allow i32, got '" ++ text ++ "'"
  | literalOutOfRange text => "Literal '" ++ text ++ "' does not fit in i32"
  | constantOutOfRange value => "UNSUPPORTED TYPE: only allow i32, got " ++ toString value
  | other _ message => message

end Fault

end StackScript
