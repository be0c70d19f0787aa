import StackScript.Tree

set_option autoImplicit false

namespace StackScript

structure Cursor where
  tree : Tree
  place : Option Nat
deriving DecidableEq, Repr

inductive Cursor.Move where
  | child
  | next
  | parent
deriving DecidableEq, Repr

namespace Cursor

def node? (cursor : Cursor) : Option Tree.Node :=
  cursor.place.bind cursor.tree.node?

/-- The cursor of an empty tree reads as an empty script. -/
def kind (cursor : Cursor) : Tree.Kind :=
  match cursor.node? with
  | some node => node.kind
  | none => .script

def span (cursor : Cursor) : Span :=
  match cursor.node? with
  | some node => node.span
  | none => ⟨0, 0⟩

def firstChild? (cursor : Cursor) : Option Nat :=
  cursor.node?.bind (·.children.head?)

def parent? (cursor : Cursor) : Option Nat :=
  cursor.node?.bind (·.parent)

def nextSibling? (cursor : Cursor) : Option Nat := do
  let node ← cursor.node?
  let above ← cursor.tree.node? (← node.parent)
  above.children[node.index + 1]?

def target? (cursor : Cursor) : Move → Option Nat
  | .child => cursor.firstChild?
  | .next => cursor.nextSibling?
  | .parent => cursor.parent?

def goto (cursor : Cursor) (id : Nat) : Cursor :=
  { cursor with place := some id }

def move (cursor : Cursor) (step : Move) : Bool × Cursor :=
  match cursor.target? step with
  | some id => (true, cursor.goto id)
  | none => (false, cursor)

theorem move_of_target? {cursor : Cursor} {step : Move} {id : Nat}
    (found : cursor.target? step = some id) : cursor.move step = (true, cursor.goto id) := by
  simp [move, found]

theorem move_of_no_target {cursor : Cursor} {step : Move} (missing : cursor.target? step = none) :
    cursor.move step = (false, cursor) := by
  simp [move, missing]

def moves (cursor : Cursor) (steps : List Move) : Cursor :=
  steps.foldl (fun current step => (current.move step).2) cursor

def siblingsLeft (cursor : Cursor) : Nat :=
  match cursor.node? with
  | none => 0
  | some node =>
    match node.parent.bind cursor.tree.node? with
    | none => 0
    | some above => above.children.length - (node.index + 1)

end Cursor

def Tree.cursor (tree : Tree) : Cursor := ⟨tree, tree.root?⟩

end StackScript
