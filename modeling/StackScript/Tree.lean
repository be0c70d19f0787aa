import StackScript.Span

set_option autoImplicit false

namespace StackScript

inductive Tree.Kind where
  | script
  | assignStatement
  | expressionStatement
  | passStatement
  | binaryExpression
  | unaryExpression
  | callExpression
  | argumentList
  | parenthesized
  | number
  | variableName
  | string
  | boolean
  | none
  | arithmeticOperator
  | comparisonOperator
  | assignOperator
  | keyword
  | openParen
  | closeParen
  | comma
deriving DecidableEq, Repr

namespace Tree.Kind

def all : List Kind :=
  [script, assignStatement, expressionStatement, passStatement, binaryExpression, unaryExpression,
    callExpression, argumentList, parenthesized, number, variableName, string, boolean, none,
    arithmeticOperator, comparisonOperator, assignOperator, keyword, openParen, closeParen, comma]

def name : Kind → String
  | script => "Script"
  | assignStatement => "AssignStatement"
  | expressionStatement => "ExpressionStatement"
  | passStatement => "PassStatement"
  | binaryExpression => "BinaryExpression"
  | unaryExpression => "UnaryExpression"
  | callExpression => "CallExpression"
  | argumentList => "ArgList"
  | parenthesized => "ParenthesizedExpression"
  | number => "Number"
  | variableName => "VariableName"
  | string => "String"
  | boolean => "Boolean"
  | none => "None"
  | arithmeticOperator => "ArithOp"
  | comparisonOperator => "CompareOp"
  | assignOperator => "AssignOp"
  | keyword => "Keyword"
  | openParen => "("
  | closeParen => ")"
  | comma => ","

def ofName? (name : String) : Option Kind :=
  all.find? (·.name = name)

theorem ofName?_name (kind : Kind) : ofName? kind.name = some kind := by
  cases kind <;> decide

def isToken : Kind → Bool
  | script | assignStatement | expressionStatement | passStatement => false
  | binaryExpression | unaryExpression | callExpression | argumentList | parenthesized => false
  | number | variableName | string | boolean | none => true
  | arithmeticOperator | comparisonOperator | assignOperator | keyword => true
  | openParen | closeParen | comma => true

end Tree.Kind

structure Tree.Node where
  kind : Tree.Kind
  span : Span
  children : List Nat
  parent : Option Nat := none
  index : Nat := 0
deriving DecidableEq, Repr

structure Tree where
  nodes : Array Tree.Node
deriving DecidableEq, Repr

namespace Tree

def empty : Tree := ⟨#[]⟩

def adopt (parent : Nat) : Nat → List Nat → Array Node → Array Node
  | _, [], nodes => nodes
  | index, child :: rest, nodes =>
    adopt parent (index + 1) rest
      (nodes.modify child fun node => { node with parent := some parent, index })

@[simp] theorem size_adopt (parent index : Nat) (children : List Nat) (nodes : Array Node) :
    (adopt parent index children nodes).size = nodes.size := by
  induction children generalizing index nodes with
  | nil => rfl
  | cons child rest ih => simp [adopt, ih]

def push (tree : Tree) (kind : Kind) (span : Span) (children : List Nat) : Tree :=
  ⟨(adopt tree.nodes.size 0 children tree.nodes).push { kind, span, children }⟩

@[simp] theorem size_push (tree : Tree) (kind : Kind) (span : Span) (children : List Nat) :
    (tree.push kind span children).nodes.size = tree.nodes.size + 1 := by
  simp [push]

def node? (tree : Tree) (id : Nat) : Option Node :=
  tree.nodes[id]?

@[simp] theorem node?_push_size (tree : Tree) (kind : Kind) (span : Span) (children : List Nat) :
    (tree.push kind span children).node? tree.nodes.size = some { kind, span, children } := by
  simp [push, node?, Array.getElem_push]

def root? (tree : Tree) : Option Nat :=
  if tree.nodes.size = 0 then none else some (tree.nodes.size - 1)

@[simp] theorem root?_push (tree : Tree) (kind : Kind) (span : Span) (children : List Nat) :
    (tree.push kind span children).root? = some tree.nodes.size := by
  simp [root?]

end Tree

end StackScript
