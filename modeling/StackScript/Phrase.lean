import StackScript.Tree

set_option autoImplicit false

namespace StackScript

inductive Phrase where
  | node (kind : Tree.Kind) (span : Span) (children : List Phrase)
deriving Repr

namespace Phrase

def kind : Phrase → Tree.Kind
  | node kind _ _ => kind

def span : Phrase → Span
  | node _ span _ => span

def children : Phrase → List Phrase
  | node _ _ children => children

def leaf (kind : Tree.Kind) (span : Span) : Phrase :=
  node kind span []

def wrap (kind : Tree.Kind) (first : Phrase) (rest : List Phrase) : Phrase :=
  node kind (first.span.join (rest.getLastD first).span) (first :: rest)

@[simp] theorem kind_wrap (kind : Tree.Kind) (first : Phrase) (rest : List Phrase) :
    (wrap kind first rest).kind = kind := rfl

@[simp] theorem children_wrap (kind : Tree.Kind) (first : Phrase) (rest : List Phrase) :
    (wrap kind first rest).children = first :: rest := rfl

mutual

def plant (tree : Tree) : Phrase → Tree × Nat
  | node kind span children =>
    let (planted, ids) := plantAll tree children
    (planted.push kind span ids, planted.nodes.size)

def plantAll (tree : Tree) : List Phrase → Tree × List Nat
  | [] => (tree, [])
  | first :: rest =>
    let (planted, id) := plant tree first
    let (grown, ids) := plantAll planted rest
    (grown, id :: ids)

end

def toTree (phrase : Phrase) : Tree :=
  (phrase.plant .empty).1

end Phrase

namespace Tree

/-- The phrase of a node. Children come before their parent, so a number that does not is no
child. -/
def phrase (tree : Tree) (id : Nat) : Option Phrase := do
  let node ← tree.node? id
  return .node node.kind node.span
    (node.children.filterMap fun child => if child < id then tree.phrase child else none)
termination_by id

end Tree

end StackScript
