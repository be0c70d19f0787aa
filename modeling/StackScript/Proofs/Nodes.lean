import StackScript.Proofs.Composition

set_option autoImplicit false

namespace StackScript

namespace Tree

def Anchored (tree : Tree) : Prop :=
  ∀ id node, tree.node? id = some node → ∀ parent, node.parent = some parent →
    ∃ above, tree.node? parent = some above ∧ above.children[node.index]? = some id

theorem Built.anchored {tree : Tree} (built : tree.Built) : tree.Anchored := by
  induction built with
  | empty => simp [Anchored, Tree.empty, node?]
  | @push tree kind span children built distinct loose ih =>
    intro id node found parent hasParent
    have bound : id < tree.nodes.size + 1 := by simpa using node?_lt found
    by_cases last : id = tree.nodes.size
    next =>
      rw [last, node?_push_size, Option.some.injEq] at found
      simp [← found] at hasParent
    next =>
      have old : id < tree.nodes.size := by omega
      by_cases adopted : id ∈ children
      next =>
        obtain ⟨place, isChild⟩ := List.mem_iff_getElem?.mp adopted
        obtain ⟨before, foundBefore, -⟩ := loose id adopted
        rw [node?_push_of_getElem? foundBefore distinct isChild, Option.some.injEq] at found
        subst found
        simp only [Option.some.injEq] at hasParent
        exact ⟨_, hasParent ▸ node?_push_size .., isChild⟩
      next =>
        rw [node?_push_of_notMem old adopted] at found
        obtain ⟨above, foundAbove, isChild⟩ := ih id node found parent hasParent
        obtain ⟨after, foundAfter, content⟩ := exists_content_push foundAbove distinct kind span
        simp only [Node.content, Prod.mk.injEq] at content
        exact ⟨after, foundAfter, content.2.2 ▸ isChild⟩

def Adopted (start : Nat) (ids : List Nat) (tree : Tree) : Prop :=
  ∀ id node, start ≤ id → tree.node? id = some node → id ∉ ids →
    ∃ parent, node.parent = some parent

theorem Adopted.push {start : Nat} {ids : List Nat} {tree : Tree} (adopted : Adopted start ids tree)
    (distinct : ids.Nodup) (kind : Kind) (span : Span) :
    Adopted start [tree.nodes.size] (tree.push kind span ids) := by
  intro id node bound found other
  have old : id < tree.nodes.size := by
    have bound : id < tree.nodes.size + 1 := by simpa using node?_lt found
    have different : id ≠ tree.nodes.size := by simpa using other
    omega
  by_cases member : id ∈ ids
  next =>
    obtain ⟨place, isChild⟩ := List.mem_iff_getElem?.mp member
    have before : tree.node? id = some (tree.nodes[id]) := Array.getElem?_eq_getElem old
    rw [node?_push_of_getElem? before distinct isChild, Option.some.injEq] at found
    exact ⟨_, by rw [← found]⟩
  next =>
    rw [node?_push_of_notMem old member] at found
    exact adopted id node bound found member

end Tree

namespace Phrase

mutual

theorem adopted_plant {tree : Tree} (built : tree.Built) : (phrase : Phrase) →
    Tree.Adopted tree.nodes.size [(plant tree phrase).2] (plant tree phrase).1
  | node kind span children =>
    (adopted_plantAll built children).push (planted_plantAll built children).distinct kind span

theorem adopted_plantAll {tree : Tree} (built : tree.Built) : (phrases : List Phrase) →
    Tree.Adopted tree.nodes.size (plantAll tree phrases).2 (plantAll tree phrases).1
  | [] => fun id node bound found _ => absurd (Tree.node?_lt found) (Nat.not_lt.mpr bound)
  | first :: rest => by
    have planted := planted_plant built first
    have plantedRest := planted_plantAll planted.built rest
    intro id node bound found other
    simp only [plantAll, List.mem_cons, not_or] at other
    by_cases early : id < (plant tree first).1.nodes.size
    next =>
      rw [plantAll, plantedRest.old id early] at found
      exact adopted_plant built first id node bound found (by simpa using other.1)
    next =>
      exact adopted_plantAll planted.built rest id node (Nat.not_lt.mp early) found other.2

end

end Phrase

namespace Tree

inductive Path (tree : Tree) : List Nat → Nat → Prop
  | root {id : Nat} (isRoot : tree.root? = some id) : Path tree [] id
  | child {path : List Nat} {id place child : Nat} {node : Node} (above : Path tree path id)
      (found : tree.node? id = some node) (isChild : node.children[place]? = some child) :
      Path tree (path ++ [place]) child

theorem Linked.path_unique {tree : Tree} (linked : tree.Linked)
    (top : ∀ id node, tree.root? = some id → tree.node? id = some node → node.parent = none)
    {path other : List Nat} {id : Nat} (first : tree.Path path id) (second : tree.Path other id) :
    path = other := by
  have notRoot {above place child : Nat} {node : Node} (found : tree.node? above = some node)
      (isChild : node.children[place]? = some child) : tree.root? ≠ some child := by
    intro isRoot
    obtain ⟨-, below, belowFound, hasParent, -⟩ := linked above node found place child isChild
    rw [top child below isRoot belowFound] at hasParent
    cases hasParent
  induction first generalizing other with
  | root isRoot =>
    cases second with
    | root => rfl
    | child above found isChild => exact absurd isRoot (notRoot found isChild)
  | child above found isChild ih =>
    cases second with
    | root isRoot => exact absurd isRoot (notRoot found isChild)
    | child otherAbove otherFound otherIsChild =>
      obtain ⟨-, below, belowFound, hasParent, hasPlace⟩ := linked _ _ found _ _ isChild
      obtain ⟨-, twin, twinFound, twinParent, twinPlace⟩ :=
        linked _ _ otherFound _ _ otherIsChild
      obtain rfl : below = twin := Option.some.inj (belowFound.symm.trans twinFound)
      obtain rfl := Option.some.inj (hasParent.symm.trans twinParent)
      rw [ih otherAbove, ← hasPlace, ← twinPlace]

theorem exists_path {tree : Tree} (linked : tree.Linked) (anchored : tree.Anchored)
    (adopted : ∀ id node, tree.node? id = some node → tree.root? ≠ some id →
      ∃ parent, node.parent = some parent) {id : Nat} (bound : id < tree.nodes.size) :
    ∃ path, tree.Path path id := by
  -- Parents have larger numbers, up to the root.
  induction above : tree.nodes.size - id using Nat.strongRecOn generalizing id with
  | ind distance ih =>
    by_cases isRoot : tree.root? = some id
    next => exact ⟨[], .root isRoot⟩
    next =>
      have found : tree.node? id = some (tree.nodes[id]) := Array.getElem?_eq_getElem bound
      obtain ⟨parent, hasParent⟩ := adopted id _ found isRoot
      obtain ⟨node, parentFound, isChild⟩ := anchored id _ found parent hasParent
      have before := (linked parent node parentFound _ id isChild).1
      have parentBound := node?_lt parentFound
      obtain ⟨path, leads⟩ := ih (tree.nodes.size - parent) (by omega) parentBound rfl
      exact ⟨path ++ [tree.nodes[id].index], .child leads parentFound isChild⟩

theorem getElem?_of_showsAll {tree : Tree} {ids : List Nat} {phrases : List Phrase}
    (shown : tree.ShowsAll ids phrases) (place : Nat) :
    phrases[place]? = ids[place]?.bind tree.phrase := by
  induction shown generalizing place with
  | nil => simp
  | cons first rest ih =>
    cases place with
    | zero => simp [first]
    | succ place => simpa using ih place

theorem exists_shown_of_getElem? {tree : Tree} {ids : List Nat} {phrases : List Phrase}
    (shown : tree.ShowsAll ids phrases) {place id : Nat} (found : ids[place]? = some id) :
    ∃ phrase, phrases[place]? = some phrase ∧ tree.phrase id = some phrase := by
  have bound : place < phrases.length := by
    rw [← shown.length_eq]
    exact (List.getElem?_eq_some_iff.mp found).1
  have same := getElem?_of_showsAll shown place
  rw [found, Option.bind_some, List.getElem?_eq_getElem bound] at same
  exact ⟨phrases[place], List.getElem?_eq_getElem bound, same.symm⟩

theorem Path.every {tree : Tree} (linked : tree.Linked) {holds : Phrase → Prop} {whole : Phrase}
    (shown : tree.root?.bind tree.phrase = some whole)
    (inside : ∀ child ∈ whole.children, child.Every holds) {path : List Nat} {id : Nat}
    (leads : tree.Path path id) (below : tree.root? ≠ some id) :
    ∃ phrase, tree.phrase id = some phrase ∧ phrase.Every holds := by
  induction leads with
  | root isRoot => exact absurd isRoot below
  | @child path id place child node above found isChild ih =>
    obtain ⟨phrases, shownHere, shownBelow⟩ := linked.phrase_eq found
    obtain ⟨phrase, isPart, shownChild⟩ := exists_shown_of_getElem? shownBelow isChild
    have member := List.mem_of_getElem? isPart
    refine ⟨phrase, shownChild, ?_⟩
    by_cases isRoot : tree.root? = some id
    next =>
      rw [isRoot, Option.bind_some, shownHere, Option.some.injEq] at shown
      subst shown
      exact inside phrase member
    next =>
      obtain ⟨upper, shownUpper, every⟩ := ih isRoot
      rw [shownHere, Option.some.injEq] at shownUpper
      subst shownUpper
      exact every.inside phrase member

def childSpans (tree : Tree) (node : Node) : List Span :=
  (node.children.filterMap tree.node?).map (·.span)

theorem childSpans_eq {tree : Tree} {node : Node} {phrases : List Phrase}
    (shown : tree.ShowsAll node.children phrases) :
    tree.childSpans node = phrases.map (·.span) := by
  unfold childSpans
  generalize node.children = ids at shown
  induction shown with
  | nil => rfl
  | @cons id phrase ids phrases here rest ih =>
    obtain ⟨below, found⟩ := exists_node_of_phrase here
    rw [Tree.phrase, found] at here
    cases here
    simp [found, ih, Phrase.span]

def leafSpans (tree : Tree) : List Span :=
  ((tree.nodes.toList.map Node.content).filter (·.2.2.isEmpty)).map (·.2.1)

theorem map_content_adopt (parent index : Nat) (children : List Nat) (nodes : Array Node) :
    (adopt parent index children nodes).toList.map Node.content =
      nodes.toList.map Node.content := by
  induction children generalizing index nodes with
  | nil => rfl
  | cons child rest ih =>
    rw [adopt, ih]
    apply List.ext_getElem?
    intro id
    simp only [List.getElem?_map, Array.getElem?_toList, Array.getElem?_modify]
    split
    next => rw [Option.map_map]; rfl
    next => rfl

theorem leafSpans_push (tree : Tree) (kind : Kind) (span : Span) (children : List Nat) :
    (tree.push kind span children).leafSpans =
      tree.leafSpans ++ if children.isEmpty then [span] else [] := by
  cases children <;> simp [leafSpans, push, map_content_adopt, Node.content]

theorem mem_leafSpans {tree : Tree} {id : Nat} {node : Node} (found : tree.node? id = some node)
    (isLeaf : node.children = []) : node.span ∈ tree.leafSpans := by
  have member : node ∈ tree.nodes.toList :=
    Array.mem_def.mp (Array.mem_of_getElem? found)
  simp only [leafSpans, List.mem_map, List.mem_filter]
  exact ⟨node.content, ⟨⟨node, member, rfl⟩, by simp [Node.content, isLeaf]⟩, rfl⟩

theorem apart_of_lt {tree : Tree} (ordered : Span.Ordered tree.leafSpans) {id later : Nat}
    {node next : Node} (found : tree.node? id = some node) (isLeaf : node.children = [])
    (nextFound : tree.node? later = some next) (nextIsLeaf : next.children = [])
    (lt : id < later) : node.span.stop ≤ next.span.start := by
  have pairs := ordered.apart
  simp only [leafSpans, List.pairwise_map, List.pairwise_filter, Node.content] at pairs
  obtain ⟨bound, rfl⟩ := Array.getElem?_eq_some_iff.mp found
  obtain ⟨nextBound, rfl⟩ := Array.getElem?_eq_some_iff.mp nextFound
  exact List.pairwise_iff_getElem.mp pairs id later bound nextBound lt (by simp [isLeaf])
    (by simp [nextIsLeaf])

theorem leaf_unique {tree : Tree} (ordered : Span.Ordered tree.leafSpans) {id other : Nat}
    {node twin : Node} (found : tree.node? id = some node) (isLeaf : node.children = [])
    (twinFound : tree.node? other = some twin) (twinIsLeaf : twin.children = [])
    (same : node.span = twin.span) : id = other := by
  have nonempty := ordered.nonempty node.span (mem_leafSpans found isLeaf)
  rcases Nat.lt_trichotomy id other with lt | rfl | lt
  next =>
    have apart := apart_of_lt ordered found isLeaf twinFound twinIsLeaf lt
    rw [← same] at apart
    omega
  next => rfl
  next =>
    have apart := apart_of_lt ordered twinFound twinIsLeaf found isLeaf lt
    rw [← same] at apart
    omega

end Tree

namespace Phrase

mutual

theorem leafSpans_plant (tree : Tree) : (phrase : Phrase) →
    (plant tree phrase).1.leafSpans = tree.leafSpans ++ phrase.leafSpans
  | node kind span [] => by simp [plant, plantAll, Tree.leafSpans_push, leafSpans]
  | node kind span (first :: rest) => by
    have below := leafSpans_plantAll tree (first :: rest)
    rw [plant, Tree.leafSpans_push, below]
    simp [plantAll, leafSpans]

theorem leafSpans_plantAll (tree : Tree) : (phrases : List Phrase) →
    (plantAll tree phrases).1.leafSpans = tree.leafSpans ++ leafSpansAll phrases
  | [] => by simp [plantAll]
  | first :: rest => by
    rw [plantAll, leafSpans_plantAll, leafSpans_plant tree first]
    simp

end

end Phrase

/-- A tree over the tokens of a source. The root comes last and covers the source. One path leads to
each node, and the links to its parent name the one child slot that holds it. Its leaves are tokens,
each token once; any other node but the root runs from its first child to its last, and the children
of a node stand apart, in order. -/
structure Tree.WellFormed (source : List Char) (tokens : List Token) (tree : Tree) : Prop where
  root : ∃ children, tree.root? = some (tree.nodes.size - 1) ∧
    tree.node? (tree.nodes.size - 1) =
      some { kind := .script, span := ⟨0, Text.byteLength source⟩, children }
  path : ∀ id < tree.nodes.size, ∃! path, tree.Path path id
  parent : ∀ id node, tree.node? id = some node → tree.root? ≠ some id →
    ∃ parent above, node.parent = some parent ∧ id < parent ∧ tree.node? parent = some above ∧
      above.children[node.index]? = some id
  slot : ∀ id node, tree.node? id = some node → ∀ place child, node.children[place]? = some child →
    ∃ below, tree.node? child = some below ∧ below.parent = some id ∧ below.index = place
  leaf : ∀ id node, tree.node? id = some node → ¬ (node.kind = .script ∧ node.children = []) →
    (node.children = [] ↔ node.kind.isToken = true)
  token : ∀ id node, tree.node? id = some node → node.kind.isToken = true →
    ∃ token ∈ tokens, node.span = token.span
  distinct : ∀ id other node twin, tree.node? id = some node → tree.node? other = some twin →
    node.kind.isToken = true → twin.kind.isToken = true → node.span = twin.span → id = other
  covers : ∀ id node, tree.node? id = some node → tree.root? ≠ some id →
    node.kind.isToken = false → ∃ first last, (tree.childSpans node).head? = some first ∧
      (tree.childSpans node).getLast? = some last ∧ node.span = ⟨first.start, last.stop⟩
  nonempty : ∀ id node, tree.node? id = some node → tree.root? ≠ some id →
    node.span.start < node.span.stop
  apart : ∀ id node, tree.node? id = some node →
    (tree.childSpans node).Pairwise fun first second => first.stop ≤ second.start

namespace Phrase

theorem exists_root_toTree (kind : Tree.Kind) (span : Span) (children : List Phrase) :
    ∃ ids, (node kind span children).toTree.root? =
        some ((node kind span children).toTree.nodes.size - 1) ∧
      (node kind span children).toTree.node? ((node kind span children).toTree.nodes.size - 1) =
        some { kind, span, children := ids } := by
  refine ⟨(plantAll .empty children).2, ?_, ?_⟩
  all_goals
    rw [toTree, plant]
    simp

theorem exists_parent_toTree {phrase : Phrase} {id : Nat} {node : Tree.Node}
    (found : phrase.toTree.node? id = some node) (below : phrase.toTree.root? ≠ some id) :
    ∃ parent, node.parent = some parent := by
  refine adopted_plant .empty phrase id node (Nat.zero_le id) found ?_
  rw [root?_toTree] at below
  intro isRoot
  exact below (by rw [List.mem_singleton.mp isRoot])

theorem existsUnique_path_toTree (phrase : Phrase) {id : Nat}
    (bound : id < phrase.toTree.nodes.size) : ∃! path, phrase.toTree.Path path id := by
  have linked := phrase.built_toTree.linked
  obtain ⟨path, leads⟩ := Tree.exists_path linked phrase.built_toTree.anchored
    (fun _ _ => exists_parent_toTree) bound
  refine ⟨path, leads, fun other otherLeads => linked.path_unique ?_ otherLeads leads⟩
  obtain ⟨kind, span, children⟩ := phrase
  obtain ⟨ids, isRoot, root⟩ := exists_root_toTree kind span children
  intro top node isTop found
  obtain rfl : _ = top := Option.some.inj (isRoot.symm.trans isTop)
  rw [root, Option.some.injEq] at found
  rw [← found]

theorem exists_shown_toTree {phrase : Phrase} {holds : Phrase → Prop}
    (inside : ∀ child ∈ phrase.children, child.Every holds) {id : Nat} {node : Tree.Node}
    (found : phrase.toTree.node? id = some node) (below : phrase.toTree.root? ≠ some id) :
    ∃ phrases, phrase.toTree.ShowsAll node.children phrases ∧
      holds (.node node.kind node.span phrases) := by
  have linked := phrase.built_toTree.linked
  obtain ⟨path, leads, -⟩ := existsUnique_path_toTree phrase (Tree.node?_lt found)
  obtain ⟨shown, isShown, every⟩ := leads.every linked phrase.phrase_toTree inside below
  obtain ⟨phrases, same, shownBelow⟩ := linked.phrase_eq found
  rw [same, Option.some.injEq] at isShown
  subst isShown
  exact ⟨phrases, shownBelow, every.here⟩

theorem exists_content_toTree {kind : Tree.Kind} {span : Span} {children : List Phrase} {id : Nat}
    {after : Tree.Node} (found : (node kind span children).toTree.node? id = some after)
    (below : (node kind span children).toTree.root? ≠ some id) :
    ∃ before, (plantAll .empty children).1.node? id = some before ∧
      before.content = after.content := by
  have old : id < (plantAll .empty children).1.nodes.size := by
    have bound := Tree.node?_lt found
    rw [root?_toTree] at below
    simp only [toTree, plant, Tree.size_push, ne_eq, Option.some.injEq] at bound below
    omega
  exact Tree.exists_content_of_push old found (planted_plantAll .empty children).distinct

theorem leaf_unique_toTree {kind : Tree.Kind} {span : Span} {children : List Phrase}
    (ordered : Span.Ordered (leafSpansAll children)) {id other : Nat} {leaf twin : Tree.Node}
    (found : (node kind span children).toTree.node? id = some leaf)
    (below : (node kind span children).toTree.root? ≠ some id) (isLeaf : leaf.children = [])
    (twinFound : (node kind span children).toTree.node? other = some twin)
    (twinBelow : (node kind span children).toTree.root? ≠ some other)
    (twinIsLeaf : twin.children = []) (same : leaf.span = twin.span) : id = other := by
  have leaves : (plantAll .empty children).1.leafSpans = leafSpansAll children :=
    leafSpans_plantAll .empty children
  obtain ⟨first, firstFound, firstContent⟩ := exists_content_toTree found below
  obtain ⟨second, secondFound, secondContent⟩ := exists_content_toTree twinFound twinBelow
  simp only [Tree.Node.content, Prod.mk.injEq] at firstContent secondContent
  refine Tree.leaf_unique (leaves ▸ ordered) firstFound ?_ secondFound ?_ ?_
  next => rw [firstContent.2.2, isLeaf]
  next => rw [secondContent.2.2, twinIsLeaf]
  next => rw [firstContent.2.1, secondContent.2.1, same]

section WellFormed

variable {span : Span} {statements : List Phrase} {spans : List Span}

theorem root_or_exact (shaped : ∀ statement ∈ statements, statement.Every (Exact spans)) {id : Nat}
    {below : Tree.Node} (found : (node .script span statements).toTree.node? id = some below) :
    ((node .script span statements).toTree.root? = some id ∧ below.kind = .script ∧
      (node .script span statements).toTree.ShowsAll below.children statements) ∨
    ((node .script span statements).toTree.root? ≠ some id ∧
      ∃ phrases, (node .script span statements).toTree.ShowsAll below.children phrases ∧
        Exact spans (.node below.kind below.span phrases)) := by
  by_cases top : (node .script span statements).toTree.root? = some id
  next =>
    have whole := (node .script span statements).phrase_toTree
    obtain ⟨phrases, same, shown⟩ :=
      (node .script span statements).built_toTree.linked.phrase_eq found
    rw [top, Option.bind_some, same, Option.some.injEq, node.injEq] at whole
    obtain ⟨isScript, -, rfl⟩ := whole
    exact .inl ⟨top, isScript, shown⟩
  next =>
    have inside : ∀ child ∈ (node .script span statements).children,
        child.Every (Exact spans) := shaped
    exact .inr ⟨top, exists_shown_toTree inside found top⟩

theorem leaf_of_isToken (shaped : ∀ statement ∈ statements, statement.Every (Exact spans))
    {id : Nat} {below : Tree.Node}
    (found : (node .script span statements).toTree.node? id = some below)
    (isToken : below.kind.isToken = true) :
    (node .script span statements).toTree.root? ≠ some id ∧ below.children = [] ∧
      below.span ∈ spans := by
  rcases root_or_exact shaped found with ⟨-, isScript, -⟩ | ⟨notRoot, phrases, shown, here⟩
  next => simp [isScript, Tree.Kind.isToken] at isToken
  next =>
    have empty : phrases = [] := here.leaf.mpr isToken
    subst empty
    exact ⟨notRoot, List.forall₂_nil_right_iff.mp shown, here.token isToken⟩

theorem wellFormed_toTree {source : List Char} {tokens : List Token}
    (ordered : Span.Ordered (leafSpansAll statements))
    (shaped : ∀ statement ∈ statements, statement.Every (Exact (tokens.map (·.span))))
    (apart : statements.Pairwise fun first second => first.span.stop ≤ second.span.start) :
    (node .script ⟨0, Text.byteLength source⟩ statements).toTree.WellFormed source tokens where
  root := exists_root_toTree ..
  path := fun _ bound => existsUnique_path_toTree _ bound
  parent := by
    intro id below found notRoot
    obtain ⟨parent, hasParent⟩ := exists_parent_toTree found notRoot
    obtain ⟨above, aboveFound, isChild⟩ :=
      (built_toTree _).anchored id below found parent hasParent
    have before := ((built_toTree _).linked parent above aboveFound _ id isChild).1
    exact ⟨parent, above, hasParent, before, aboveFound, isChild⟩
  slot := fun id above found place child isChild =>
    ((built_toTree _).linked id above found place child isChild).2
  leaf := by
    intro id below found nonempty
    rcases root_or_exact shaped found with ⟨-, isScript, -⟩ | ⟨-, phrases, shown, here⟩
    next =>
      have notEmpty : below.children ≠ [] := fun empty => nonempty ⟨isScript, empty⟩
      simp [notEmpty, isScript, Tree.Kind.isToken]
    next =>
      rw [← List.length_eq_zero_iff, shown.length_eq, List.length_eq_zero_iff]
      exact here.leaf
  token := by
    intro id below found isToken
    obtain ⟨-, -, member⟩ := leaf_of_isToken shaped found isToken
    obtain ⟨token, inTokens, same⟩ := List.mem_map.mp member
    exact ⟨token, inTokens, same.symm⟩
  distinct := by
    intro id other leaf twin found twinFound isToken twinIsToken same
    obtain ⟨notRoot, isLeaf, -⟩ := leaf_of_isToken shaped found isToken
    obtain ⟨twinNotRoot, twinIsLeaf, -⟩ := leaf_of_isToken shaped twinFound twinIsToken
    exact leaf_unique_toTree ordered found notRoot isLeaf twinFound twinNotRoot twinIsLeaf same
  covers := by
    intro id below found notRoot inner
    rcases root_or_exact shaped found with ⟨isRoot, -⟩ | ⟨-, phrases, shown, here⟩
    next => exact absurd isRoot notRoot
    next =>
      have nonempty : phrases ≠ [] := fun empty => by simpa [kind, inner] using here.leaf.mp empty
      rw [Tree.childSpans_eq shown, List.head?_map, List.getLast?_map,
        List.head?_eq_some_head nonempty, List.getLast?_eq_some_getLast nonempty]
      exact ⟨_, _, rfl, rfl, here.covers _ (List.head?_eq_some_head nonempty) _
        (List.getLast?_eq_some_getLast nonempty)⟩
  nonempty := by
    intro id below found notRoot
    rcases root_or_exact shaped found with ⟨isRoot, -⟩ | ⟨-, phrases, -, here⟩
    next => exact absurd isRoot notRoot
    next => exact here.spread.lt
  apart := by
    intro id below found
    rcases root_or_exact shaped found with ⟨-, -, shown⟩ | ⟨-, phrases, shown, here⟩
    next =>
      rw [Tree.childSpans_eq shown]
      exact List.pairwise_map.mpr apart
    next =>
      rw [Tree.childSpans_eq shown]
      exact List.pairwise_map.mpr here.apart

end WellFormed

end Phrase

theorem Tree.wellFormed_of_ofSource {source : List Char} {tree : Tree}
    (read : ofSource source = .ok tree) :
    ∃ tokens, Token.ofSource source = .ok tokens ∧ tree.WellFormed source tokens := by
  obtain ⟨phrase, parsed, same⟩ := bind_eq_ok.mp read
  obtain rfl : phrase.toTree = tree := Except.ok.inj same
  obtain ⟨tokens, scanned, parsed⟩ := bind_eq_ok.mp parsed
  rw [mapError_eq_ok] at scanned
  have placed := Token.placed_of_ofSource scanned
  obtain ⟨statements, rfl, sublist, shaped, apart⟩ := Phrase.exact_of_ofTokens placed parsed
  exact ⟨tokens, scanned,
    Phrase.wellFormed_toTree (placed.ordered_spans.sublist sublist) shaped apart⟩

theorem Tree.wellFormed_calls :
    ∃ tree tokens, ofSource "x = f()(1,\n2,) # çà".toList = .ok tree ∧ tree.nodes.size = 17 ∧
      Token.ofSource "x = f()(1,\n2,) # çà".toList = .ok tokens ∧
      tree.WellFormed "x = f()(1,\n2,) # çà".toList tokens := by
  have size : (ofSource "x = f()(1,\n2,) # çà".toList).toOption.map (·.nodes.size) = some 17 := by
    decide +kernel
  obtain ⟨tree, read, counted⟩ := Option.map_eq_some_iff.mp size
  have read := eq_ok_of_toOption read
  obtain ⟨tokens, scanned, wellFormed⟩ := wellFormed_of_ofSource read
  exact ⟨tree, tokens, read, counted, scanned, wellFormed⟩

end StackScript
