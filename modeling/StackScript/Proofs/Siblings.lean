import StackScript.Proofs.Links
import StackScript.Tree.Walk

set_option autoImplicit false

namespace StackScript

namespace Cursor

def Shows (cursor : Cursor) (phrase : Phrase) : Prop :=
  cursor.tree.Linked ∧ ∃ id, cursor.place = some id ∧ cursor.tree.phrase id = some phrase

structure ChildOf (origin cursor : Cursor) (phrase : Phrase) (left : Nat) : Prop where
  shows : cursor.Shows phrase
  back : cursor.move .parent = (true, origin)
  left : cursor.siblingsLeft = left

/-- The cursor stands on a child of the node under `origin`, and the children behind it show the
list of phrases. -/
inductive Among (origin : Cursor) : Cursor → Phrase → List Phrase → Prop
  | last {cursor : Cursor} {phrase : Phrase} (child : ChildOf origin cursor phrase 0)
      (stop : cursor.move .next = (false, cursor)) : Among origin cursor phrase []
  | before {cursor following : Cursor} {phrase next : Phrase} {rest : List Phrase}
      (child : ChildOf origin cursor phrase (rest.length + 1))
      (step : cursor.move .next = (true, following)) (more : Among origin following next rest) :
      Among origin cursor phrase (next :: rest)

theorem Among.child {origin cursor : Cursor} {phrase : Phrase} {rest : List Phrase}
    (among : Among origin cursor phrase rest) : ChildOf origin cursor phrase rest.length := by
  cases among with
  | last child => exact child
  | before child => exact child

theorem Shows.node {cursor : Cursor} {phrase : Phrase} (shows : cursor.Shows phrase) :
    ∃ id node phrases, cursor = ⟨cursor.tree, some id⟩ ∧ cursor.tree.node? id = some node ∧
      phrase = .node node.kind node.span phrases ∧ cursor.tree.ShowsAll node.children phrases := by
  obtain ⟨linked, id, placed, shown⟩ := shows
  obtain ⟨node, found⟩ := Tree.exists_node_of_phrase shown
  obtain ⟨phrases, phraseEq, children⟩ := linked.phrase_eq found
  rw [shown, Option.some.injEq] at phraseEq
  exact ⟨id, node, phrases, by rw [← placed], found, phraseEq, children⟩

theorem Shows.kind_eq {cursor : Cursor} {phrase : Phrase} (shows : cursor.Shows phrase) :
    cursor.kind = phrase.kind := by
  obtain ⟨id, node, phrases, placed, found, rfl, -⟩ := shows.node
  rw [placed, kind, node?]
  simp [found, Phrase.kind]

theorem Shows.span_eq {cursor : Cursor} {phrase : Phrase} (shows : cursor.Shows phrase) :
    cursor.span = phrase.span := by
  obtain ⟨id, node, phrases, placed, found, rfl, -⟩ := shows.node
  rw [placed, span, node?]
  simp [found, Phrase.span]

section Children

variable {tree : Tree} {id : Nat} {node : Tree.Node} {place child : Nat} {rest : List Nat}
  {phrase : Phrase} {phrases : List Phrase}

theorem childOf_of_drop (linked : tree.Linked) (found : tree.node? id = some node)
    (children : node.children.drop place = child :: rest)
    (shown : tree.phrase child = some phrase) :
    ChildOf ⟨tree, some id⟩ ⟨tree, some child⟩ phrase rest.length ∧
      (Cursor.mk tree (some child)).nextSibling? = rest.head? := by
  have isChild : node.children[place]? = some child := by
    rw [← List.head?_drop, children, List.head?_cons]
  have next : node.children[place + 1]? = rest.head? := by
    rw [← List.head?_drop, ← List.tail_drop, children, List.tail_cons]
  have count : node.children.length - (place + 1) = rest.length := by
    rw [← List.length_drop, ← List.tail_drop, children, List.tail_cons]
  obtain ⟨-, below, belowFound, parent, index⟩ := linked id node found place child isChild
  refine ⟨⟨⟨linked, child, rfl, shown⟩, ?_, ?_⟩, ?_⟩
  · apply move_of_target?
    simp [target?, parent?, node?, belowFound, parent]
  · simp [siblingsLeft, node?, belowFound, parent, found, index, count]
  · simp [nextSibling?, node?, belowFound, parent, found, index, next]

theorem among_of_drop (linked : tree.Linked) (found : tree.node? id = some node)
    (children : node.children.drop place = child :: rest) (shown : tree.phrase child = some phrase)
    (restShown : tree.ShowsAll rest phrases) :
    Among ⟨tree, some id⟩ ⟨tree, some child⟩ phrase phrases := by
  -- A child knows its place among the children, so the next one is found at the place behind it.
  induction rest generalizing place child phrase phrases with
  | nil =>
    obtain rfl := List.forall₂_nil_left_iff.mp restShown
    obtain ⟨isChild, next⟩ := childOf_of_drop linked found children shown
    exact .last isChild (move_of_no_target next)
  | cons following rest ih =>
    obtain ⟨nextPhrase, later, nextShown, laterShown, rfl⟩ :=
      List.forall₂_cons_left_iff.mp restShown
    obtain ⟨isChild, next⟩ := childOf_of_drop linked found children shown
    rw [List.length_cons, laterShown.length_eq] at isChild
    have behind : node.children.drop (place + 1) = following :: rest := by
      rw [← List.tail_drop, children, List.tail_cons]
    exact .before isChild (move_of_target? next) (ih behind nextShown laterShown)

end Children

theorem Shows.firstChild?_eq_none {cursor : Cursor} {phrase : Phrase} (shows : cursor.Shows phrase)
    (childless : phrase.children = []) : cursor.firstChild? = none := by
  obtain ⟨id, node, phrases, placed, found, rfl, children⟩ := shows.node
  simp only [Phrase.children] at childless
  subst childless
  rw [placed]
  simp [firstChild?, node?, found, List.forall₂_nil_right_iff.mp children]

theorem Shows.no_child {cursor : Cursor} {phrase : Phrase} (shows : cursor.Shows phrase)
    (childless : phrase.children = []) : cursor.move .child = (false, cursor) :=
  move_of_no_target (shows.firstChild?_eq_none childless)

theorem Shows.exists_first_child {cursor : Cursor} {phrase first : Phrase} {rest : List Phrase}
    (shows : cursor.Shows phrase) (children : phrase.children = first :: rest) :
    ∃ child, cursor.firstChild? = some child ∧ Among cursor (cursor.goto child) first rest := by
  obtain ⟨id, node, phrases, placed, found, rfl, shown⟩ := shows.node
  simp only [Phrase.children] at children
  subst children
  obtain ⟨child, others, firstShown, restShown, same⟩ := List.forall₂_cons_right_iff.mp shown
  refine ⟨child, ?_, ?_⟩
  · rw [placed]
    simp [firstChild?, node?, found, same]
  · rw [placed]
    exact among_of_drop shows.1 found (by rw [List.drop_zero, same]) firstShown restShown

theorem Shows.first_child {cursor : Cursor} {phrase first : Phrase} {rest : List Phrase}
    (shows : cursor.Shows phrase) (children : phrase.children = first :: rest) :
    ∃ child, cursor.move .child = (true, child) ∧ Among cursor child first rest := by
  obtain ⟨child, target, among⟩ := shows.exists_first_child children
  exact ⟨cursor.goto child, move_of_target? target, among⟩

end Cursor

theorem Phrase.shows_cursor_toTree (phrase : Phrase) : phrase.toTree.cursor.Shows phrase := by
  have shown := phrase.phrase_toTree
  rw [root?_toTree] at shown
  exact ⟨phrase.built_toTree.linked, _, phrase.root?_toTree, shown⟩

end StackScript
