import StackScript.Proofs.Nodes

set_option autoImplicit false

namespace StackScript

namespace Tree

theorem Built.parent_of_root {tree : Tree} (built : tree.Built) {id : Nat} {node : Node}
    (isRoot : tree.root? = some id) (found : tree.node? id = some node) : node.parent = none := by
  cases built with
  | empty => cases isRoot
  | push kind span built distinct loose =>
    rw [root?_push, Option.some.injEq] at isRoot
    rw [← isRoot, node?_push_size, Option.some.injEq] at found
    rw [← found]

namespace Path

variable {tree : Tree} {path : List Nat} {id : Nat} {node : Node}

theorem exists_node (built : tree.Built) (leads : tree.Path path id) :
    ∃ node, tree.node? id = some node := by
  cases leads with
  | root isRoot =>
    rw [root?] at isRoot
    split at isRoot
    next => cases isRoot
    next nonempty =>
      have bound : id < tree.nodes.size := by
        have last := Option.some.inj isRoot
        omega
      exact ⟨_, Array.getElem?_eq_getElem bound⟩
  | child above found isChild =>
    obtain ⟨-, below, belowFound, -⟩ := built.linked _ _ found _ _ isChild
    exact ⟨below, belowFound⟩

theorem root_or_parent (built : tree.Built) (leads : tree.Path path id)
    (found : tree.node? id = some node) :
    (tree.root? = some id ∧ node.parent = none) ∨
      ∃ front parent above, tree.Path front parent ∧ tree.node? parent = some above ∧
        node.parent = some parent := by
  cases leads with
  | root isRoot => exact .inl ⟨isRoot, built.parent_of_root isRoot found⟩
  | @child front parent place _ above leads aboveFound isChild =>
    obtain ⟨-, below, belowFound, hasParent, -⟩ :=
      built.linked parent above aboveFound place id isChild
    obtain rfl : below = node := Option.some.inj (belowFound.symm.trans found)
    exact .inr ⟨front, parent, above, leads, aboveFound, hasParent⟩

theorem parent_eq_none (built : tree.Built) (leads : tree.Path path id)
    (found : tree.node? id = some node) : node.parent = none ↔ tree.root? = some id := by
  rcases leads.root_or_parent built found with ⟨isRoot, noParent⟩ | ⟨_, _, _, _, _, hasParent⟩
  next => exact iff_of_true noParent isRoot
  next =>
    constructor
    next =>
      intro noParent
      rw [hasParent] at noParent
      cases noParent
    next => exact fun isRoot => built.parent_of_root isRoot found

end Path

end Tree

namespace Cursor

def trail (cursor : Cursor) : List Move → List (Bool × Cursor)
  | [] => []
  | step :: steps => cursor.move step :: (cursor.move step).2.trail steps

variable {tree : Tree} {path : List Nat} {id : Nat} {node : Tree.Node}

theorem exists_path_of_target (built : tree.Built) (leads : tree.Path path id) {step : Move}
    {target : Nat} (moves : (Cursor.mk tree (some id)).target? step = some target) :
    ∃ further, tree.Path further target := by
  obtain ⟨node, found⟩ := leads.exists_node built
  cases step with
  | child =>
    have first : node.children[0]? = some target := by
      simpa [target?, firstChild?, node?, found, List.head?_eq_getElem?] using moves
    exact ⟨_, .child leads found first⟩
  | next =>
    rcases leads.root_or_parent built found with
      ⟨-, noParent⟩ | ⟨front, parent, above, upper, aboveFound, hasParent⟩
    next => simp [target?, nextSibling?, node?, found, noParent] at moves
    next =>
      have sibling : above.children[node.index + 1]? = some target := by
        simpa [target?, nextSibling?, node?, found, hasParent, aboveFound] using moves
      exact ⟨_, .child upper aboveFound sibling⟩
  | parent =>
    have up : node.parent = some target := by
      simpa [target?, parent?, node?, found] using moves
    rcases leads.root_or_parent built found with
      ⟨-, noParent⟩ | ⟨front, parent, above, upper, -, hasParent⟩
    next =>
      rw [noParent] at up
      cases up
    next =>
      rw [hasParent, Option.some.injEq] at up
      exact ⟨front, up ▸ upper⟩

/-- The cursor stands on a node below the root; in a tree without a root, on none. -/
def StandsIn (tree : Tree) (cursor : Cursor) : Prop :=
  (tree.root? = none ∧ cursor = ⟨tree, none⟩) ∨
    ∃ path id node, cursor = ⟨tree, some id⟩ ∧ tree.Path path id ∧ tree.node? id = some node

theorem StandsIn.start (built : tree.Built) : StandsIn tree tree.cursor := by
  cases isRoot : tree.root? with
  | none => exact .inl ⟨isRoot, by rw [Tree.cursor, isRoot]⟩
  | some id =>
    have leads : tree.Path [] id := .root isRoot
    obtain ⟨node, found⟩ := leads.exists_node built
    exact .inr ⟨[], id, node, by rw [Tree.cursor, isRoot], leads, found⟩

theorem StandsIn.move (built : tree.Built) {cursor : Cursor} (stands : StandsIn tree cursor)
    (step : Move) : StandsIn tree (cursor.move step).2 := by
  cases moves : cursor.target? step with
  | none => rwa [move_of_no_target moves]
  | some target =>
    rw [move_of_target? moves]
    rcases stands with ⟨-, rfl⟩ | ⟨path, id, node, rfl, leads, -⟩
    next => cases step <;> cases moves
    next =>
      obtain ⟨further, leads⟩ := exists_path_of_target built leads moves
      obtain ⟨below, found⟩ := leads.exists_node built
      exact .inr ⟨further, target, below, rfl, leads, found⟩

theorem StandsIn.moves (built : tree.Built) {cursor : Cursor} (stands : StandsIn tree cursor)
    (steps : List Move) : StandsIn tree (cursor.moves steps) := by
  induction steps generalizing cursor with
  | nil => exact stands
  | cons step steps ih => exact ih (stands.move built step)

theorem move_in_place {cursor : Cursor} {step : Move} (refused : (cursor.move step).1 = false) :
    (cursor.move step).2 = cursor := by
  cases moves : cursor.target? step with
  | none => rw [move_of_no_target moves]
  | some target =>
    rw [move_of_target? moves] at refused
    cases refused

section Children

variable {place child : Nat} {rest : List Nat}

theorem links_of_drop (linked : tree.Linked) (found : tree.node? id = some node)
    (children : node.children.drop place = child :: rest) :
    (Cursor.mk tree (some child)).move .parent = (true, ⟨tree, some id⟩) ∧
      (Cursor.mk tree (some child)).nextSibling? = rest.head? := by
  have isChild : node.children[place]? = some child := by
    rw [← List.head?_drop, children, List.head?_cons]
  obtain ⟨-, below, belowFound, -⟩ := linked id node found place child isChild
  obtain ⟨phrase, shown, -⟩ := linked.phrase_eq belowFound
  obtain ⟨isChild, next⟩ := childOf_of_drop linked found children shown
  exact ⟨isChild.back, next⟩

theorem trail_siblings (linked : tree.Linked) (found : tree.node? id = some node)
    (children : node.children.drop place = child :: rest) :
    (Cursor.mk tree (some child)).trail (List.replicate (rest.length + 1) .next) =
      rest.map (fun sibling => (true, ⟨tree, some sibling⟩)) ++
        [(false, ⟨tree, some (rest.getLastD child)⟩)] := by
  -- On the children that are left: the next sibling is the first of them.
  induction rest generalizing place child with
  | nil =>
    have stop : (Cursor.mk tree (some child)).move .next = (false, ⟨tree, some child⟩) :=
      move_of_no_target (links_of_drop linked found children).2
    simp [trail, stop]
  | cons following rest ih =>
    have step : (Cursor.mk tree (some child)).move .next = (true, ⟨tree, some following⟩) :=
      move_of_target? (links_of_drop linked found children).2
    have behind : node.children.drop (place + 1) = following :: rest := by
      rw [← List.tail_drop, children, List.tail_cons]
    rw [List.length_cons, List.replicate_succ, trail, step, ih behind, List.getLastD_cons,
      List.map_cons, List.cons_append]

/-- Down and then on from sibling to sibling, the cursor meets the children in order; the move after
the last of them fails. -/
theorem trail_children (linked : tree.Linked) (found : tree.node? id = some node) :
    (Cursor.mk tree (some id)).trail (.child :: List.replicate node.children.length .next) =
      node.children.map (fun child => (true, ⟨tree, some child⟩)) ++
        [(false, ⟨tree, some (node.children.getLastD id)⟩)] := by
  have down : (Cursor.mk tree (some id)).target? .child = node.children.head? := by
    simp [target?, firstChild?, node?, found]
  cases children : node.children with
  | nil =>
    rw [children] at down
    rw [List.length_nil, List.replicate_zero, trail, move_of_no_target down]
    rfl
  | cons first rest =>
    rw [children] at down
    have siblings := trail_siblings linked found (by rw [List.drop_zero, children])
    rw [List.length_cons, trail, move_of_target? down, goto, siblings, List.getLastD_cons,
      List.map_cons, List.cons_append]

theorem move_parent_of_mem (linked : tree.Linked) (found : tree.node? id = some node)
    (member : child ∈ node.children) :
    (Cursor.mk tree (some child)).move .parent = (true, ⟨tree, some id⟩) := by
  obtain ⟨place, bound, isChild⟩ := List.mem_iff_getElem.mp member
  have behind := List.drop_eq_getElem_cons bound
  rw [isChild] at behind
  exact (links_of_drop linked found behind).1

end Children

theorem move_parent_fails (built : tree.Built) (leads : tree.Path path id) :
    ((Cursor.mk tree (some id)).move .parent).1 = false ↔ tree.root? = some id := by
  obtain ⟨node, found⟩ := leads.exists_node built
  rw [← leads.parent_eq_none built found]
  have up : (Cursor.mk tree (some id)).target? .parent = node.parent := by
    simp [target?, parent?, node?, found]
  cases parent : node.parent with
  | none => simp [move_of_no_target (up.trans parent)]
  | some above => simp [move_of_target? (up.trans parent)]

/-- What the cursor answers is what the nodes of the tree say: it stands below the root, a move that
fails leaves it there, and it goes to each child of its node, in order, and back. -/
structure Faithful (tree : Tree) (cursor : Cursor) : Prop where
  stands : StandsIn tree cursor
  stays : ∀ step, (cursor.move step).1 = false → (cursor.move step).2 = cursor
  children : ∀ node, cursor.node? = some node →
    cursor.trail (.child :: List.replicate node.children.length .next) =
      node.children.map (fun child => (true, cursor.goto child)) ++
        [(false, (node.children.map cursor.goto).getLastD cursor)]
  back : ∀ node, cursor.node? = some node → ∀ child ∈ node.children,
    (cursor.goto child).move .parent = (true, cursor)

theorem StandsIn.exists_id {cursor : Cursor} (stands : StandsIn tree cursor)
    (found : cursor.node? = some node) :
    ∃ id, cursor = ⟨tree, some id⟩ ∧ tree.node? id = some node := by
  rcases stands with ⟨-, rfl⟩ | ⟨path, id, _, rfl, -, -⟩
  next => cases found
  next => exact ⟨id, rfl, found⟩

theorem StandsIn.faithful (built : tree.Built) {cursor : Cursor} (stands : StandsIn tree cursor) :
    Faithful tree cursor where
  stands := stands
  stays := fun _ => move_in_place
  children := by
    intro node under
    obtain ⟨id, rfl, found⟩ := stands.exists_id under
    have last : (node.children.map (Cursor.mk tree (some id)).goto).getLastD ⟨tree, some id⟩ =
        ⟨tree, some (node.children.getLastD id)⟩ := by
      rw [List.getLastD_eq_getLast?, List.getLastD_eq_getLast?, List.getLast?_map]
      cases node.children.getLast? <;> rfl
    rw [last]
    exact trail_children built.linked found
  back := by
    intro node under child member
    obtain ⟨id, rfl, found⟩ := stands.exists_id under
    exact move_parent_of_mem built.linked found member

end Cursor

/-- However a tree was built, the walks from its root are faithful to its nodes, and of the nodes
below the root the root alone has no way up. -/
theorem Tree.cursor_walks_faithfully {tree : Tree} (built : tree.Built) :
    (∀ steps, (tree.cursor.moves steps).Faithful tree) ∧
      ∀ path id, tree.Path path id →
        (((Cursor.mk tree (some id)).move .parent).1 = false ↔ tree.root? = some id) :=
  ⟨fun steps => ((Cursor.StandsIn.start built).moves built steps).faithful built,
    fun _ _ leads => Cursor.move_parent_fails built leads⟩

-- Nodes 1 and 3, a comma in an argument list, are left without a way to the root.
def Tree.withOrphans : Tree :=
  Tree.empty |>.push .number ⟨0, 1⟩ [] |>.push .comma ⟨1, 2⟩ [] |>.push .number ⟨2, 3⟩ []
    |>.push .argumentList ⟨1, 2⟩ [1] |>.push .binaryExpression ⟨0, 3⟩ [0, 2]
    |>.push .script ⟨0, 3⟩ [4]

theorem Tree.cursor_walks_past_orphans :
    withOrphans.Built ∧ withOrphans.Path [0, 1] 2 ∧
      withOrphans.cursor.moves [.child, .child, .next, .next] = ⟨withOrphans, some 2⟩ ∧
      (withOrphans.cursor.moves [.child, .child, .next, .next]).Faithful withOrphans ∧
      (((Cursor.mk withOrphans (some 2)).move .parent).1 = false ↔
        withOrphans.root? = some 2) := by
  have built : withOrphans.Built := by
    refine .push _ _ (.push _ _ (.push _ _ (.push _ _ (.push _ _ (.push _ _ .empty ?_ ?_) ?_ ?_)
      ?_ ?_) ?_ ?_) ?_ ?_) ?_ ?_
    all_goals simp [Tree.empty, push, adopt, node?]
  have top : withOrphans.Path [] 5 := .root rfl
  have inner : withOrphans.Path [0] 4 := .child top rfl rfl
  have leads : withOrphans.Path [0, 1] 2 := .child inner rfl rfl
  exact ⟨built, leads, by decide, (cursor_walks_faithfully built).1 _,
    (cursor_walks_faithfully built).2 _ _ leads⟩

end StackScript
