import StackScript.Proofs.Nodes

set_option autoImplicit false

namespace StackScript

namespace Tree

/-- A node of a branch: its kind, and the place of the child that the branch goes on to, if it does
not end there. -/
abbrev Step := Kind × Option Nat

inductive Branch (tree : Tree) : Nat → List Step → Prop
  | leaf {id : Nat} {node : Node} (found : tree.node? id = some node)
      (isLeaf : node.children = []) : Branch tree id [(node.kind, none)]
  | inner {id place child : Nat} {node : Node} {steps : List Step}
      (found : tree.node? id = some node) (isChild : node.children[place]? = some child)
      (below : Branch tree child steps) : Branch tree id ((node.kind, some place) :: steps)

def RootBranch (tree : Tree) (steps : List Step) : Prop :=
  ∃ id, tree.root? = some id ∧ tree.Branch id steps

def Step.passes (kind : Kind) (step : Step) : Bool :=
  step.1 == kind

/-- Whether a node has this kind and the branch does not go on to its first child. -/
def Step.turns (kind : Kind) (step : Step) : Bool :=
  step.1 == kind && step.2 != some 0

end Tree

namespace Phrase

inductive Branch : Phrase → List Tree.Step → Prop
  | leaf {kind : Tree.Kind} {span : Span} : Branch (.node kind span []) [(kind, none)]
  | inner {kind : Tree.Kind} {span : Span} {children : List Phrase} {place : Nat} {child : Phrase}
      {steps : List Tree.Step} (isChild : children[place]? = some child)
      (below : Branch child steps) : Branch (.node kind span children) ((kind, some place) :: steps)

end Phrase

namespace Tree

section Linked

variable {tree : Tree} (linked : tree.Linked) {id : Nat} {steps : List Step}
include linked

theorem Branch.exists_phrase (branch : tree.Branch id steps) :
    ∃ phrase, tree.phrase id = some phrase ∧ phrase.Branch steps := by
  induction branch with
  | leaf found isLeaf =>
    obtain ⟨phrases, same, shown⟩ := linked.phrase_eq found
    obtain rfl : phrases = [] := List.forall₂_nil_left_iff.mp (isLeaf ▸ shown)
    exact ⟨_, same, .leaf⟩
  | inner found isChild below ih =>
    obtain ⟨phrases, same, shown⟩ := linked.phrase_eq found
    obtain ⟨part, isPart, shownPart⟩ := exists_shown_of_getElem? shown isChild
    obtain ⟨child, shownChild, branch⟩ := ih
    obtain rfl := Option.some.inj (shownPart.symm.trans shownChild)
    exact ⟨_, same, .inner isPart branch⟩

theorem branch_of_phrase {phrase : Phrase} (branch : phrase.Branch steps)
    (shown : tree.phrase id = some phrase) : tree.Branch id steps := by
  induction branch generalizing id with
  | leaf =>
    obtain ⟨node, found⟩ := exists_node_of_phrase shown
    obtain ⟨phrases, same, shownBelow⟩ := linked.phrase_eq found
    cases Option.some.inj (same.symm.trans shown)
    exact .leaf found (List.forall₂_nil_right_iff.mp shownBelow)
  | inner isPart below ih =>
    obtain ⟨node, found⟩ := exists_node_of_phrase shown
    obtain ⟨phrases, same, shownBelow⟩ := linked.phrase_eq found
    cases Option.some.inj (same.symm.trans shown)
    rw [getElem?_of_showsAll shownBelow] at isPart
    obtain ⟨child, isChild, shownChild⟩ := Option.bind_eq_some_iff.mp isPart
    exact .inner found isChild (ih shownChild)

end Linked

end Tree

namespace Phrase

theorem rootBranch_toTree (phrase : Phrase) {steps : List Tree.Step} :
    phrase.toTree.RootBranch steps ↔ phrase.Branch steps := by
  have linked := phrase.built_toTree.linked
  obtain ⟨root, isRoot, shown⟩ := Option.bind_eq_some_iff.mp phrase.phrase_toTree
  constructor
  next =>
    rintro ⟨id, isTop, branch⟩
    obtain rfl := Option.some.inj (isRoot.symm.trans isTop)
    obtain ⟨other, otherShown, branch⟩ := branch.exists_phrase linked
    obtain rfl := Option.some.inj (shown.symm.trans otherShown)
    exact branch
  next =>
    intro branch
    exact ⟨root, isRoot, Tree.branch_of_phrase linked branch shown⟩

def Bounded (test : Tree.Step → Bool) (bound : Nat) (phrase : Phrase) : Prop :=
  ∀ steps, phrase.Branch steps → steps.countP test ≤ bound

variable {test : Tree.Step → Bool} {bound lower : Nat} {kind : Tree.Kind} {span : Span}

theorem Bounded.mono {phrase : Phrase} (bounded : phrase.Bounded test lower) (le : lower ≤ bound) :
    phrase.Bounded test bound :=
  fun steps branch => Nat.le_trans (bounded steps branch) le

theorem bounded_leaf (other : test (kind, none) = false) : (leaf kind span).Bounded test bound := by
  intro steps branch
  cases branch with
  | leaf => simp [other]
  | inner isChild => simp at isChild

theorem bounded_succ {children : List Phrase}
    (inside : ∀ child ∈ children, child.Bounded test bound) :
    (node kind span children).Bounded test (bound + 1) := by
  intro steps branch
  cases branch with
  | leaf => exact Nat.le_trans List.countP_le_length (Nat.le_add_left 1 bound)
  | inner isChild below =>
    have counted := inside _ (List.mem_of_getElem? isChild) _ below
    rw [List.countP_cons]
    split <;> omega

theorem bounded_of_children {children : List Phrase} (other : ∀ place, test (kind, place) = false)
    (inside : ∀ child ∈ children, child.Bounded test bound) :
    (node kind span children).Bounded test bound := by
  intro steps branch
  cases branch with
  | leaf => simp [other]
  | inner isChild below =>
    have counted := inside _ (List.mem_of_getElem? isChild) _ below
    rwa [List.countP_cons_of_neg (by simp [other])]

theorem bounded_turns {first : Phrase} {rest : List Phrase}
    (firstBounded : first.Bounded (Tree.Step.turns kind) bound)
    (restBounded : ∀ child ∈ rest, child.Bounded (Tree.Step.turns kind) lower)
    (lt : lower < bound) :
    (node kind span (first :: rest)).Bounded (Tree.Step.turns kind) bound := by
  intro steps branch
  cases branch with
  | @inner _ _ _ place child below isChild branch =>
    rw [List.countP_cons]
    cases place with
    | zero =>
      cases Option.some.inj isChild
      simpa [Tree.Step.turns] using firstBounded _ branch
    | succ place =>
      have counted := restBounded child (List.mem_of_getElem? isChild) _ branch
      simp only [Tree.Step.turns, beq_self_eq_true, Bool.true_and]
      split <;> omega

end Phrase

end StackScript
