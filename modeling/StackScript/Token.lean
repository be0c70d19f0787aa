import StackScript.Span

set_option autoImplicit false

namespace StackScript

inductive Keyword where
  | pass
  | not
  | true
  | false
  | none
deriving DecidableEq, Repr

namespace Keyword

def all : List Keyword := [pass, not, true, false, none]

def text : Keyword → String
  | pass => "pass"
  | not => "not"
  | true => "True"
  | false => "False"
  | none => "None"

theorem mem_all (word : Keyword) : word ∈ all := by
  cases word <;> decide

end Keyword

inductive Symbol where
  | equal
  | notEqual
  | lessEqual
  | greaterEqual
  | less
  | greater
  | assign
  | plus
  | minus
  | power
  | times
  | floorDivide
  | divide
  | modulo
  | tilde
  | openParen
  | closeParen
  | comma
  | semicolon
deriving DecidableEq, Repr

namespace Symbol

def all : List Symbol :=
  [equal, notEqual, lessEqual, greaterEqual, less, greater, assign, plus, minus, power, times,
    floorDivide, divide, modulo, tilde, openParen, closeParen, comma, semicolon]

def text : Symbol → String
  | equal => "=="
  | notEqual => "!="
  | lessEqual => "<="
  | greaterEqual => ">="
  | less => "<"
  | greater => ">"
  | assign => "="
  | plus => "+"
  | minus => "-"
  | power => "**"
  | times => "*"
  | floorDivide => "//"
  | divide => "/"
  | modulo => "%"
  | tilde => "~"
  | openParen => "("
  | closeParen => ")"
  | comma => ","
  | semicolon => ";"

theorem mem_all (sign : Symbol) : sign ∈ all := by
  cases sign <;> decide

end Symbol

inductive Token.Kind where
  | keyword (word : Keyword)
  | name
  | number
  | string
  | symbol (sign : Symbol)
  | newline
deriving DecidableEq, Repr

structure Token where
  kind : Token.Kind
  span : Span
deriving DecidableEq, Repr

namespace Token.Kind

def describe : Kind → String
  | keyword word => "'" ++ word.text ++ "'"
  | name => "name"
  | number => "number"
  | string => "string"
  | symbol sign => "'" ++ sign.text ++ "'"
  | newline => "newline"

def isSeparator : Kind → Bool
  | newline => true
  | symbol .semicolon => true
  | _ => false

def isComparison : Kind → Bool
  | symbol .equal | symbol .notEqual => true
  | symbol .less | symbol .greater | symbol .lessEqual | symbol .greaterEqual => true
  | _ => false

def isSum : Kind → Bool
  | symbol .plus | symbol .minus => true
  | _ => false

def isProduct : Kind → Bool
  | symbol .times | symbol .divide | symbol .floorDivide | symbol .modulo => true
  | _ => false

def isUnary : Kind → Bool
  | symbol .plus | symbol .minus | symbol .tilde => true
  | _ => false

end Token.Kind

end StackScript
