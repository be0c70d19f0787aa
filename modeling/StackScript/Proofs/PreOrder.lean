import Mathlib.Data.List.Induction
import StackScript.Proofs.Nodes

set_option autoImplicit false

namespace StackScript

namespace Phrase

mutual

def visits : Phrase → List (List Nat × Phrase)
  | node kind span children => ([], node kind span children) :: visitsFrom 0 children

def visitsFrom (place : Nat) : List Phrase → List (List Nat × Phrase)
  | [] => []
  | first :: rest =>
    (visits first).map (fun (path, phrase) => (place :: path, phrase)) ++
      visitsFrom (place + 1) rest

end

def descend : List Nat → Phrase → Option Phrase
  | [], phrase => some phrase
  | place :: path, phrase => phrase.children[place]?.bind (descend path)

mutual

theorem mem_visits {path : List Nat} {part : Phrase} : (phrase : Phrase) →
    ((path, part) ∈ phrase.visits ↔ phrase.descend path = some part)
  | node kind span children => by
    rw [visits, List.mem_cons, mem_visitsFrom 0 children]
    cases path with
    | nil => simp [descend, eq_comm]
    | cons place below => simp [descend, Phrase.children]

theorem mem_visitsFrom {path : List Nat} {part : Phrase} (place : Nat) : (phrases : List Phrase) →
    ((path, part) ∈ visitsFrom place phrases ↔
      ∃ number below, path = (place + number) :: below ∧
        phrases[number]?.bind (descend below) = some part)
  | [] => by simp [visitsFrom]
  | first :: rest => by
    have here : (path, part) ∈ first.visits.map (fun (path, phrase) => (place :: path, phrase)) ↔
        ∃ below, path = place :: below ∧ first.descend below = some part := by
      simp only [List.mem_map, Prod.exists, mem_visits first, Prod.mk.injEq]
      grind
    rw [visitsFrom, List.mem_append, here, mem_visitsFrom (place + 1) rest]
    constructor
    next =>
      rintro (⟨below, same, leads⟩ | ⟨number, below, same, leads⟩)
      next => exact ⟨0, below, same, leads⟩
      next => exact ⟨number + 1, below, by rw [same, Nat.add_assoc, Nat.add_comm 1], leads⟩
    next =>
      rintro ⟨_ | number, below, same, leads⟩
      next => exact .inl ⟨below, same, leads⟩
      next => exact .inr ⟨number, below, by rw [same, Nat.add_assoc, Nat.add_comm 1], leads⟩

end

theorem descend_append (path : List Nat) (place : Nat) (phrase : Phrase) :
    phrase.descend (path ++ [place]) =
      (phrase.descend path).bind fun part => part.children[place]? := by
  induction path generalizing phrase with
  | nil => simp [descend]
  | cons first rest ih =>
    rw [List.cons_append, descend, descend, Option.bind_assoc, funext ih]

mutual

theorem pairwise_visits : (phrase : Phrase) →
    (phrase.visits.map (·.1)).Pairwise (List.Lex (· < ·))
  | node kind span children => by
    rw [visits, List.map_cons, List.pairwise_cons]
    refine ⟨?_, pairwise_visitsFrom 0 children⟩
    intro path member
    obtain ⟨⟨path, part⟩, visited, rfl⟩ := List.mem_map.mp member
    obtain ⟨number, below, rfl, -⟩ := (mem_visitsFrom 0 children).mp visited
    exact .nil

theorem pairwise_visitsFrom (place : Nat) : (phrases : List Phrase) →
    ((visitsFrom place phrases).map (·.1)).Pairwise (List.Lex (· < ·))
  | [] => .nil
  | first :: rest => by
    rw [visitsFrom, List.map_append, List.pairwise_append]
    refine ⟨?_, pairwise_visitsFrom (place + 1) rest, ?_⟩
    next =>
      rw [List.map_map, List.pairwise_map]
      exact (List.pairwise_map.mp (pairwise_visits first)).imp .cons
    next =>
      -- Those of the first child start with its place, the others with a later one.
      intro path member later laterMember
      simp only [List.mem_map, Prod.exists, exists_and_right, exists_eq_right] at member laterMember
      obtain ⟨part, below, inner, visited, same⟩ := member
      obtain ⟨other, laterVisited⟩ := laterMember
      obtain ⟨number, lower, rfl, -⟩ := (mem_visitsFrom (place + 1) rest).mp laterVisited
      cases same
      exact .rel (by omega)

end

end Phrase

namespace Tree

structure PreOrder (tree : Tree) (visits : List (List Nat × Nat)) : Prop where
  path : ∀ visit ∈ visits, tree.Path visit.1 visit.2
  once : (visits.map (·.2)).Perm (List.range tree.nodes.size)
  ordered : (visits.map (·.1)).Pairwise (List.Lex (· < ·))

theorem Path.target_unique {tree : Tree} {path : List Nat} {id other : Nat}
    (first : tree.Path path id) (second : tree.Path path other) : id = other := by
  generalize twin : path = otherPath at second
  induction first generalizing other otherPath with
  | root isRoot =>
    cases second with
    | root otherIsRoot => exact Option.some.inj (isRoot.symm.trans otherIsRoot)
    | child => simp at twin
  | child above found isChild ih =>
    cases second with
    | root => simp at twin
    | child otherAbove otherFound otherIsChild =>
      obtain ⟨paths, places⟩ := List.append_inj' twin rfl
      cases places
      obtain rfl := ih _ paths otherAbove
      obtain rfl := Option.some.inj (found.symm.trans otherFound)
      exact Option.some.inj (isChild.symm.trans otherIsChild)

section Paths

variable {tree : Tree} {whole : Phrase} (linked : tree.Linked)
  (shown : tree.root?.bind tree.phrase = some whole)
include linked shown

theorem Path.descend {path : List Nat} {id : Nat} (leads : tree.Path path id) :
    ∃ part, whole.descend path = some part ∧ tree.phrase id = some part := by
  induction leads with
  | root isRoot =>
    rw [isRoot, Option.bind_some] at shown
    exact ⟨whole, rfl, shown⟩
  | @child path id place child node above found isChild ih =>
    obtain ⟨part, here, shownHere⟩ := ih
    obtain ⟨phrases, same, shownBelow⟩ := linked.phrase_eq found
    obtain rfl := Option.some.inj (same.symm.trans shownHere)
    obtain ⟨part, isPart, shownPart⟩ := exists_shown_of_getElem? shownBelow isChild
    exact ⟨part, by rw [Phrase.descend_append, here]; exact isPart, shownPart⟩

theorem exists_path_of_descend {path : List Nat} {part : Phrase}
    (leads : whole.descend path = some part) :
    ∃ id, tree.Path path id ∧ tree.phrase id = some part := by
  induction path using List.reverseRecOn generalizing part with
  | nil =>
    obtain rfl : whole = part := Option.some.inj leads
    obtain ⟨id, isRoot, shownRoot⟩ := Option.bind_eq_some_iff.mp shown
    exact ⟨id, .root isRoot, shownRoot⟩
  | append_singleton path place ih =>
    rw [Phrase.descend_append] at leads
    obtain ⟨above, leadsAbove, isPart⟩ := Option.bind_eq_some_iff.mp leads
    obtain ⟨id, path, shownAbove⟩ := ih leadsAbove
    obtain ⟨node, found⟩ := exists_node_of_phrase shownAbove
    obtain ⟨phrases, same, shownBelow⟩ := linked.phrase_eq found
    obtain rfl := Option.some.inj (same.symm.trans shownAbove)
    rw [Phrase.children, getElem?_of_showsAll shownBelow] at isPart
    obtain ⟨child, isChild, shownChild⟩ := Option.bind_eq_some_iff.mp isPart
    exact ⟨child, .child path found isChild, shownChild⟩

end Paths

end Tree

namespace Phrase

theorem exists_preOrder_toTree (phrase : Phrase) :
    ∃ number : List Nat × Phrase → Nat,
      phrase.toTree.PreOrder (phrase.visits.map fun visit => (visit.1, number visit)) ∧
      ∀ visit ∈ phrase.visits, phrase.toTree.phrase (number visit) = some visit.2 := by
  have linked := phrase.built_toTree.linked
  have known : ∀ visit ∈ phrase.visits, ∃ id, phrase.toTree.Path visit.1 id ∧
      phrase.toTree.phrase id = some visit.2 := fun visit visited =>
    Tree.exists_path_of_descend linked phrase.phrase_toTree ((mem_visits phrase).mp visited)
  choose! number leads shown using known
  refine ⟨number, ⟨?_, ?_, ?_⟩, shown⟩
  next =>
    intro visit member
    obtain ⟨visit, visited, rfl⟩ := List.mem_map.mp member
    exact leads visit visited
  next =>
    rw [List.map_map]
    refine (List.perm_ext_iff_of_nodup ?_ List.nodup_range).mpr fun id => ?_
    next =>
      refine List.pairwise_map.mpr ((List.pairwise_map.mp phrase.pairwise_visits).imp_of_mem ?_)
      intro visit later visited laterVisited before same
      have same : number visit = number later := same
      obtain ⟨node, found⟩ := Tree.exists_node_of_phrase (shown visit visited)
      have paths := (existsUnique_path_toTree phrase (Tree.node?_lt found)).unique
        (leads visit visited) (same ▸ leads later laterVisited)
      exact List.lt_irrefl later.1 (paths ▸ before)
    next =>
      rw [List.mem_map, List.mem_range]
      constructor
      next =>
        rintro ⟨visit, visited, rfl⟩
        obtain ⟨node, found⟩ := Tree.exists_node_of_phrase (shown visit visited)
        exact Tree.node?_lt found
      next =>
        intro bound
        obtain ⟨path, leadsHere, -⟩ := existsUnique_path_toTree phrase bound
        obtain ⟨part, here, -⟩ := leadsHere.descend linked phrase.phrase_toTree
        have visited := (mem_visits phrase).mpr here
        exact ⟨(path, part), visited, (leads _ visited).target_unique leadsHere⟩
  next =>
    rw [List.map_map]
    exact phrase.pairwise_visits

end Phrase

end StackScript
