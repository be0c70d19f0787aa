import Mathlib.Data.List.Forall2
import StackScript.Phrase

set_option autoImplicit false

namespace StackScript

namespace Tree

inductive Built : Tree → Prop
  | empty : Built .empty
  | push {tree : Tree} (kind : Kind) (span : Span) {children : List Nat} (built : Built tree)
      (distinct : children.Nodup)
      (loose : ∀ child ∈ children, ∃ node, tree.node? child = some node ∧ node.parent = none) :
      Built (tree.push kind span children)

def Linked (tree : Tree) : Prop :=
  ∀ id node, tree.node? id = some node → ∀ place child, node.children[place]? = some child →
    child < id ∧ ∃ below, tree.node? child = some below ∧ below.parent = some id ∧
      below.index = place

theorem getElem?_adopt_of_notMem {children : List Nat} {id : Nat} (other : id ∉ children)
    (parent index : Nat) (nodes : Array Node) :
    (adopt parent index children nodes)[id]? = nodes[id]? := by
  induction children generalizing index nodes with
  | nil => rfl
  | cons child rest ih =>
    rw [List.mem_cons, not_or] at other
    rw [adopt, ih other.2, Array.getElem?_modify, if_neg (Ne.symm other.1)]

theorem getElem?_adopt_of_getElem? {children : List Nat} {place id : Nat}
    (distinct : children.Nodup) (found : children[place]? = some id) (parent index : Nat)
    (nodes : Array Node) :
    (adopt parent index children nodes)[id]? =
      nodes[id]?.map fun node => { node with parent := some parent, index := index + place } := by
  induction children generalizing place index nodes with
  | nil => simp at found
  | cons child rest ih =>
    obtain ⟨absent, distinct⟩ := List.nodup_cons.mp distinct
    cases place with
    | zero =>
      simp only [List.getElem?_cons_zero, Option.some.injEq] at found
      subst found
      rw [adopt, getElem?_adopt_of_notMem absent, Array.getElem?_modify, if_pos rfl]
      rfl
    | succ place =>
      rw [List.getElem?_cons_succ] at found
      have different : child ≠ id := fun same => absent (same ▸ List.mem_of_getElem? found)
      rw [adopt, ih distinct found, Array.getElem?_modify, if_neg different, Nat.add_assoc,
        Nat.add_comm 1]

theorem node?_lt {tree : Tree} {id : Nat} {node : Node} (found : tree.node? id = some node) :
    id < tree.nodes.size :=
  (Array.getElem?_eq_some_iff.mp found).1

theorem node?_push_of_lt {tree : Tree} {id : Nat} (old : id < tree.nodes.size) (kind : Kind)
    (span : Span) (children : List Nat) :
    (tree.push kind span children).node? id =
      (adopt tree.nodes.size 0 children tree.nodes)[id]? := by
  rw [node?, push, Array.getElem?_push, if_neg (by simpa using Nat.ne_of_lt old)]

theorem node?_push_of_notMem {tree : Tree} {id : Nat} {children : List Nat}
    (old : id < tree.nodes.size) (other : id ∉ children) (kind : Kind) (span : Span) :
    (tree.push kind span children).node? id = tree.node? id := by
  rw [node?_push_of_lt old, getElem?_adopt_of_notMem other]
  rfl

def Node.content (node : Node) : Kind × Span × List Nat :=
  (node.kind, node.span, node.children)

theorem map_content_push {tree : Tree} {id : Nat} {children : List Nat}
    (old : id < tree.nodes.size) (distinct : children.Nodup) (kind : Kind) (span : Span) :
    ((tree.push kind span children).node? id).map Node.content =
      (tree.node? id).map Node.content := by
  by_cases child : id ∈ children
  · obtain ⟨place, found⟩ := List.mem_iff_getElem?.mp child
    rw [node?_push_of_lt old, getElem?_adopt_of_getElem? distinct found, Option.map_map]
    rfl
  · rw [node?_push_of_notMem old child]

theorem exists_content_push {tree : Tree} {id : Nat} {node : Node} {children : List Nat}
    (found : tree.node? id = some node) (distinct : children.Nodup) (kind : Kind) (span : Span) :
    ∃ after, (tree.push kind span children).node? id = some after ∧
      after.content = node.content := by
  have content := map_content_push (node?_lt found) distinct kind span
  rw [found, Option.map_some, Option.map_eq_some_iff] at content
  exact content

theorem node?_push_of_getElem? {tree : Tree} {id place : Nat} {node : Node} {children : List Nat}
    (found : tree.node? id = some node) (distinct : children.Nodup)
    (isChild : children[place]? = some id) (kind : Kind) (span : Span) :
    (tree.push kind span children).node? id =
      some { node with parent := some tree.nodes.size, index := place } := by
  rw [node?_push_of_lt (node?_lt found), getElem?_adopt_of_getElem? distinct isChild]
  change (tree.node? id).map _ = _
  rw [found, Option.map_some, Nat.zero_add]

theorem exists_content_of_push {tree : Tree} {id : Nat} {after : Node} {kind : Kind} {span : Span}
    {children : List Nat} (old : id < tree.nodes.size)
    (found : (tree.push kind span children).node? id = some after) (distinct : children.Nodup) :
    ∃ before, tree.node? id = some before ∧ before.content = after.content := by
  have content := map_content_push old distinct kind span
  rw [found, Option.map_some, eq_comm, Option.map_eq_some_iff] at content
  exact content

theorem phrase_congr {tree other : Tree} {id : Nat}
    (same : ∀ below ≤ id,
      (other.node? below).map Node.content = (tree.node? below).map Node.content) :
    other.phrase id = tree.phrase id := by
  induction id using Nat.strongRecOn with
  | ind id ih =>
    have children : ∀ child, (if child < id then other.phrase child else none) =
        if child < id then tree.phrase child else none := by
      intro child
      split
      next before =>
        exact ih child before fun below bound =>
          same below (Nat.le_trans bound (Nat.le_of_lt before))
      next => rfl
    have here := same id (Nat.le_refl id)
    rw [phrase, phrase]
    simp only [children]
    cases found : tree.node? id <;> cases otherFound : other.node? id <;>
      simp_all [Node.content]

theorem Built.linked {tree : Tree} (built : tree.Built) : tree.Linked := by
  induction built with
  | empty => simp [Linked, Tree.empty, node?]
  | @push tree kind span children built distinct loose ih =>
    intro id node found place child isChild
    have bound : id < tree.nodes.size + 1 := by simpa using node?_lt found
    by_cases last : id = tree.nodes.size
    · subst last
      rw [node?_push_size, Option.some.injEq] at found
      subst found
      obtain ⟨old, oldFound, -⟩ := loose child (List.mem_of_getElem? isChild)
      exact ⟨node?_lt oldFound, _, node?_push_of_getElem? oldFound distinct isChild kind span, rfl,
        rfl⟩
    · -- An older node keeps its children, and they are not adopted again: they have a parent.
      have old : id < tree.nodes.size := by omega
      obtain ⟨oldNode, oldFound, content⟩ := exists_content_of_push old found distinct
      simp only [Node.content, Prod.mk.injEq] at content
      rw [← content.2.2] at isChild
      obtain ⟨before, below, belowFound, hasParent, hasPlace⟩ :=
        ih id oldNode oldFound place child isChild
      have kept : child ∉ children := by
        intro adopted
        obtain ⟨free, freeFound, noParent⟩ := loose child adopted
        rw [belowFound, Option.some.injEq] at freeFound
        rw [← freeFound, hasParent] at noParent
        simp at noParent
      refine ⟨before, below, ?_, hasParent, hasPlace⟩
      rw [node?_push_of_notMem (node?_lt belowFound) kept, belowFound]

abbrev ShowsAll (tree : Tree) (ids : List Nat) (phrases : List Phrase) : Prop :=
  List.Forall₂ (fun id phrase => tree.phrase id = some phrase) ids phrases

theorem isSome_phrase {tree : Tree} {id : Nat} {node : Node} (found : tree.node? id = some node) :
    ∃ phrase, tree.phrase id = some phrase := by
  rw [phrase, found]
  exact ⟨_, rfl⟩

theorem exists_node_of_phrase {tree : Tree} {id : Nat} {phrase : Phrase}
    (shown : tree.phrase id = some phrase) : ∃ node, tree.node? id = some node := by
  rw [Tree.phrase] at shown
  cases found : tree.node? id with
  | none => simp [found] at shown
  | some node => exact ⟨node, rfl⟩

theorem phrase_of_showsAll {tree : Tree} {id : Nat} {node : Node} {phrases : List Phrase}
    (found : tree.node? id = some node) (before : ∀ child ∈ node.children, child < id)
    (shown : tree.ShowsAll node.children phrases) :
    tree.phrase id = some (.node node.kind node.span phrases) := by
  have children (ids : List Nat) (bounded : ∀ child ∈ ids, child < id) (phrases : List Phrase)
      (shown : tree.ShowsAll ids phrases) :
      ids.filterMap (fun child => if child < id then tree.phrase child else none) = phrases := by
    induction shown with
    | nil => rfl
    | cons first rest ih =>
      rw [List.forall_mem_cons] at bounded
      simp [bounded.1, first, ih bounded.2]
  rw [phrase, found]
  simp [children node.children before phrases shown]

theorem Linked.phrase_eq {tree : Tree} (linked : tree.Linked) {id : Nat} {node : Node}
    (found : tree.node? id = some node) :
    ∃ phrases, tree.phrase id = some (.node node.kind node.span phrases) ∧
      tree.ShowsAll node.children phrases := by
  have known : ∀ child ∈ node.children, child < id ∧ ∃ phrase, tree.phrase child = some phrase := by
    intro child member
    obtain ⟨place, isChild⟩ := List.mem_iff_getElem?.mp member
    obtain ⟨before, below, belowFound, -⟩ := linked id node found place child isChild
    exact ⟨before, isSome_phrase belowFound⟩
  have collect (ids : List Nat) (shown : ∀ child ∈ ids, ∃ phrase, tree.phrase child = some phrase) :
      ∃ phrases, tree.ShowsAll ids phrases := by
    induction ids with
    | nil => exact ⟨[], .nil⟩
    | cons first rest ih =>
      rw [List.forall_mem_cons] at shown
      obtain ⟨phrase, firstShown⟩ := shown.1
      obtain ⟨phrases, restShown⟩ := ih shown.2
      exact ⟨phrase :: phrases, .cons firstShown restShown⟩
  obtain ⟨phrases, shown⟩ := collect node.children fun child member => (known child member).2
  exact ⟨phrases, phrase_of_showsAll found (fun child member => (known child member).1) shown,
    shown⟩

/-- Phrases were planted behind the nodes of `before`: the new ids show them and are free to be
adopted. -/
structure Planted (before after : Tree) (ids : List Nat) (phrases : List Phrase) : Prop where
  built : after.Built
  size : before.nodes.size ≤ after.nodes.size
  old : ∀ id < before.nodes.size, after.node? id = before.node? id
  distinct : ids.Nodup
  new : ∀ id ∈ ids, before.nodes.size ≤ id ∧ ∃ node, after.node? id = some node ∧ node.parent = none
  shown : after.ShowsAll ids phrases

namespace Planted

variable {before middle after : Tree} {ids more : List Nat} {phrases rest : List Phrase}

theorem nil (built : before.Built) : Planted before before [] [] where
  built := built
  size := Nat.le_refl _
  old _ _ := rfl
  distinct := List.nodup_nil
  new := by simp
  shown := .nil

theorem append (first : Planted before middle ids phrases)
    (second : Planted middle after more rest) :
    Planted before after (ids ++ more) (phrases ++ rest) where
  built := second.built
  size := Nat.le_trans first.size second.size
  old id bound := by
    rw [second.old id (Nat.lt_of_lt_of_le bound first.size), first.old id bound]
  distinct := by
    refine List.nodup_append.mpr ⟨first.distinct, second.distinct, ?_⟩
    intro id firstId other secondId same
    obtain ⟨node, found, -⟩ := (first.new id firstId).2
    have bound := node?_lt found
    have above := (second.new other secondId).1
    omega
  new id member := by
    rcases List.mem_append.mp member with member | member
    · obtain ⟨above, node, found, loose⟩ := first.new id member
      exact ⟨above, node, by rw [second.old id (node?_lt found), found], loose⟩
    · exact ⟨Nat.le_trans first.size (second.new id member).1, (second.new id member).2⟩
  shown := by
    refine List.rel_append (List.Forall₂.imp ?_ first.shown) second.shown
    intro id phrase shown
    obtain ⟨node, found⟩ := exists_node_of_phrase shown
    rw [← shown]
    refine phrase_congr fun below bound => ?_
    rw [second.old below (Nat.lt_of_le_of_lt bound (node?_lt found))]

theorem push (planted : Planted before middle ids phrases) (kind : Kind) (span : Span) :
    Planted before (middle.push kind span ids) [middle.nodes.size] [.node kind span phrases] where
  built := .push kind span planted.built planted.distinct fun id member => (planted.new id member).2
  size := by
    have := planted.size
    simp only [size_push]
    omega
  old id bound := by
    have other : id ∉ ids := fun member => by
      have := (planted.new id member).1
      omega
    rw [node?_push_of_notMem (Nat.lt_of_lt_of_le bound planted.size) other, planted.old id bound]
  distinct := by simp
  new := by simpa using planted.size
  shown := by
    have below : ∀ id ∈ ids, id < middle.nodes.size := by
      intro id member
      obtain ⟨node, found, -⟩ := (planted.new id member).2
      exact node?_lt found
    refine .cons (phrase_of_showsAll (node?_push_size ..) below ?_) .nil
    refine List.Forall₂.imp ?_ planted.shown
    intro id phrase shown
    obtain ⟨node, found⟩ := exists_node_of_phrase shown
    rw [← shown]
    refine phrase_congr fun lower bound => ?_
    exact map_content_push (Nat.lt_of_le_of_lt bound (node?_lt found)) planted.distinct kind span

end Planted

end Tree

namespace Phrase

mutual

theorem planted_plant {tree : Tree} (built : tree.Built) :
    (phrase : Phrase) →
      Tree.Planted tree (plant tree phrase).1 [(plant tree phrase).2] [phrase]
  | node kind span children => (planted_plantAll built children).push kind span

theorem planted_plantAll {tree : Tree} (built : tree.Built) :
    (phrases : List Phrase) →
      Tree.Planted tree (plantAll tree phrases).1 (plantAll tree phrases).2 phrases
  | [] => .nil built
  | first :: rest =>
    (planted_plant built first).append
      (planted_plantAll (planted_plant built first).built rest)

end

theorem built_toTree (phrase : Phrase) : phrase.toTree.Built :=
  (planted_plant .empty phrase).built

theorem root?_toTree (phrase : Phrase) : phrase.toTree.root? = some (phrase.plant .empty).2 := by
  cases phrase with
  | node kind span children => exact Tree.root?_push ..

theorem phrase_toTree (phrase : Phrase) :
    phrase.toTree.root?.bind phrase.toTree.phrase = some phrase := by
  rw [root?_toTree]
  exact (List.forall₂_cons.mp (planted_plant .empty phrase).shown).1

end Phrase

end StackScript
