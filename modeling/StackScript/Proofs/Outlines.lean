import StackScript.Proofs.PreOrder
import StackScript.Proofs.Quoting
import StackScript.Tree.Outline

set_option autoImplicit false

namespace StackScript

namespace Text

theorem append_cons_injective {separator : Char} {left right other rest : List Char}
    (absent : separator ∉ left) (otherAbsent : separator ∉ other)
    (same : left ++ separator :: right = other ++ separator :: rest) :
    left = other ∧ right = rest := by
  induction left generalizing other with
  | nil =>
    cases other with
    | nil => simpa using same
    | cons first behind =>
      simp only [List.nil_append, List.cons_append, List.cons.injEq] at same
      exact absurd (by simp [same.1]) otherAbsent
  | cons first behind ih =>
    cases other with
    | nil =>
      simp only [List.nil_append, List.cons_append, List.cons.injEq] at same
      exact absurd (by simp [same.1]) absent
    | cons second others =>
      simp only [List.mem_cons, not_or] at absent otherAbsent
      simp only [List.cons_append, List.cons.injEq] at same ⊢
      obtain ⟨front, back⟩ := ih absent.2 otherAbsent.2 same.2
      exact ⟨⟨same.1, front⟩, back⟩

theorem indented_injective {text other : List Char} (starts : ' ' ∉ text.head?)
    (otherStarts : ' ' ∉ other.head?) {count number : Nat}
    (same : List.replicate count ' ' ++ text = List.replicate number ' ' ++ other) :
    count = number ∧ text = other := by
  induction count generalizing number with
  | zero =>
    cases number with
    | zero => exact ⟨rfl, same⟩
    | succ number =>
      rw [List.replicate_zero, List.nil_append] at same
      exact absurd (by rw [same]; rfl) starts
  | succ count ih =>
    cases number with
    | zero =>
      rw [List.replicate_zero, List.nil_append] at same
      exact absurd (by rw [← same]; rfl) otherStarts
    | succ number =>
      rw [List.replicate_succ, List.replicate_succ, List.cons_append, List.cons_append,
        List.cons.injEq] at same
      obtain ⟨counts, texts⟩ := ih same.2
      exact ⟨congrArg (· + 1) counts, texts⟩

theorem isDigit_of_mem_toString {value : Nat} {character : Char}
    (member : character ∈ (toString value).toList) : character.isDigit = true := by
  rw [Nat.toString_eq_ofList_toDigits, String.toList_ofList] at member
  exact Nat.isDigit_of_mem_toDigits (by decide) (by decide) member

theorem toString_injective {value other : Nat}
    (same : (toString value).toList = (toString other).toList) : value = other := by
  rw [Nat.toString_eq_ofList_toDigits, Nat.toString_eq_ofList_toDigits, String.toList_ofList,
    String.toList_ofList] at same
  rw [← @Nat.ofDigitChars_ten_toDigits value, same, Nat.ofDigitChars_ten_toDigits]

end Text

namespace Tree.Kind

theorem name_injective {kind other : Kind} (same : kind.name = other.name) : kind = other := by
  rw [← Option.some.injEq, ← ofName?_name kind, same, ofName?_name other]

theorem isInlineWord_of_mem_name (kind : Kind) :
    ∀ character ∈ kind.name.toList, (character != ' ' && character != '\n') = true :=
  List.all_eq_true.mp (by cases kind <;> rfl)

theorem name_ne_nil (kind : Kind) : kind.name.toList ≠ [] := by
  cases kind <;> decide

end Tree.Kind

namespace Span

theorem toList_text (span : Span) :
    span.text.toList =
      (toString span.start).toList ++ '.' :: '.' :: (toString span.stop).toList := by
  simp [text]

theorem text_injective {span other : Span} (same : span.text = other.text) : span = other := by
  have plain (value : Nat) : '.' ∉ (toString value).toList := by
    intro member
    cases Text.isDigit_of_mem_toString member
  have lists := congrArg String.toList same
  rw [toList_text, toList_text] at lists
  obtain ⟨starts, rest⟩ := Text.append_cons_injective (plain _) (plain _) lists
  have start : span.start = other.start := Text.toString_injective starts
  have stop : span.stop = other.stop := Text.toString_injective (List.cons.inj rest).2
  cases span
  cases other
  exact congrArg₂ mk start stop

end Span

namespace Tree

def detail (source : List Char) (kind : Kind) (span : Span) : List Char :=
  if kind.isToken then Text.quote (span.slice source) else '[' :: (span.text.toList ++ [']'])

/-- The line of a node: two blanks for each level above it, the name of its kind, and then the text
of a token or the span of another node. -/
def line (source : List Char) (level : Nat) (kind : Kind) (span : Span) : String :=
  String.ofList
    (List.replicate (2 * level) ' ' ++ (kind.name.toList ++ ' ' :: detail source kind span))

structure SameLabel (source other : List Char) (kind twinKind : Kind) (span twinSpan : Span) :
    Prop where
  sameKind : kind = twinKind
  sameText : kind.isToken = true → span.slice source = twinSpan.slice other
  sameSpan : kind.isToken = false → span = twinSpan

variable {source other : List Char} {kind twinKind : Kind} {span twinSpan : Span}

theorem sameLabel_of_detail (sameKind : kind = twinKind)
    (same : detail source kind span = detail other twinKind twinSpan) :
    SameLabel source other kind twinKind span twinSpan := by
  subst sameKind
  unfold detail at same
  refine ⟨rfl, fun isToken => ?_, fun inner => ?_⟩
  next =>
    rw [if_pos isToken, if_pos isToken] at same
    exact Text.quote_injective same
  next =>
    rw [inner, if_neg Bool.false_ne_true, if_neg Bool.false_ne_true, List.cons.injEq,
      List.append_cancel_right_eq] at same
    exact Span.text_injective (String.toList_inj.mp same.2)

theorem blank_notMem_head?_name (kind : Kind) (rest : List Char) :
    ' ' ∉ (kind.name.toList ++ rest).head? := by
  cases letters : kind.name.toList with
  | nil => exact absurd letters kind.name_ne_nil
  | cons first behind =>
    have word := kind.isInlineWord_of_mem_name first (by simp [letters])
    rintro ⟨⟩
    cases word

theorem sameLabel_of_line {level height : Nat}
    (same : line source level kind span = line other height twinKind twinSpan) :
    level = height ∧ SameLabel source other kind twinKind span twinSpan := by
  have plain (kind : Kind) : ' ' ∉ kind.name.toList := fun member => by
    cases kind.isInlineWord_of_mem_name ' ' member
  have lists := congrArg String.toList same
  rw [line, line, String.toList_ofList, String.toList_ofList] at lists
  obtain ⟨counts, words⟩ := Text.indented_injective (blank_notMem_head?_name kind _)
    (blank_notMem_head?_name twinKind _) lists
  obtain ⟨names, details⟩ := Text.append_cons_injective (plain kind) (plain twinKind) words
  have sameKind : kind = twinKind := Kind.name_injective (String.toList_inj.mp names)
  exact ⟨by omega, sameLabel_of_detail sameKind details⟩

theorem newline_notMem_line (source : List Char) (level : Nat) (kind : Kind) (span : Span) :
    '\n' ∉ (line source level kind span).toList := by
  have name : '\n' ∉ kind.name.toList := fun member => by
    cases kind.isInlineWord_of_mem_name '\n' member
  have digits (value : Nat) : '\n' ∉ (toString value).toList := fun member => by
    cases Text.isDigit_of_mem_toString member
  have behind : '\n' ∉ detail source kind span := by
    unfold detail
    split
    next => exact Text.newline_notMem_quote _
    next =>
      rw [Span.toList_text]
      simp only [List.mem_cons, List.mem_append, digits]
      decide
  rw [line, String.toList_ofList]
  simp [name, behind]

end Tree

namespace Phrase

theorem headline_eq_line (source : List Char) (depth : Nat) (phrase : Phrase) :
    String.ofList (List.replicate (2 * depth) ' ') ++ headline source phrase =
      Tree.line source depth phrase.kind phrase.span := by
  apply String.toList_inj.mp
  unfold headline Tree.line Tree.detail
  split <;> simp

theorem outline_eq_cons (source : List Char) (depth : Nat) {phrase : Phrase}
    (plain : phrase.Plain) :
    outline source depth phrase =
      Tree.line source depth phrase.kind phrase.span ::
        outlineAll source (depth + 1) phrase.children := by
  obtain ⟨kind, span, children⟩ := phrase
  rw [outline, headline_eq_line]
  congr 1
  split
  next isToken =>
    have empty : children = [] := plain.here isToken
    simp [empty, Phrase.children, outlineAll]
  next => rfl

mutual

theorem outline_eq (source : List Char) (depth : Nat) : (phrase : Phrase) → phrase.Plain →
    outline source depth phrase =
      phrase.visits.map fun visit =>
        Tree.line source (depth + visit.1.length) visit.2.kind visit.2.span
  | node kind span children, plain => by
    rw [outline_eq_cons source depth plain, visits, List.map_cons, Phrase.children,
      outlineAll_eq source depth 0 children plain.inside]
    rfl

theorem outlineAll_eq (source : List Char) (depth place : Nat) : (phrases : List Phrase) →
    (∀ phrase ∈ phrases, phrase.Plain) →
    outlineAll source (depth + 1) phrases =
      (visitsFrom place phrases).map fun visit =>
        Tree.line source (depth + visit.1.length) visit.2.kind visit.2.span
  | [], _ => rfl
  | first :: rest, plain => by
    rw [List.forall_mem_cons] at plain
    rw [outlineAll, visitsFrom, List.map_append, List.map_map,
      outline_eq source (depth + 1) first plain.1,
      outlineAll_eq source depth (place + 1) rest plain.2]
    congr 1
    apply List.map_congr_left
    intro visit _
    simp [Nat.add_assoc, Nat.add_comm 1]

end

end Phrase

namespace Tree

def Outlined (source : List Char) (tree : Tree) (lines : List String) : Prop :=
  ∃ visits, tree.PreOrder visits ∧
    List.Forall₂ (fun visit text => '\n' ∉ text.toList ∧ ∃ node, tree.node? visit.2 = some node ∧
      text = line source visit.1.length node.kind node.span) visits lines

end Tree

namespace Phrase

theorem outline_toTree (source : List Char) (phrase : Phrase) :
    phrase.toTree.outline source = phrase.outline source 0 := by
  rw [Tree.outline, phrase_toTree]

theorem outlined_toTree (source : List Char) {phrase : Phrase} (plain : phrase.Plain) :
    phrase.toTree.Outlined source (phrase.toTree.outline source) := by
  obtain ⟨number, preOrder, shown⟩ := phrase.exists_preOrder_toTree
  refine ⟨_, preOrder, ?_⟩
  rw [outline_toTree, outline_eq source 0 phrase plain, List.forall₂_map_left_iff,
    List.forall₂_map_right_iff, List.forall₂_same]
  intro visit visited
  refine ⟨Tree.newline_notMem_line _ _ _ _, ?_⟩
  obtain ⟨node, found⟩ := Tree.exists_node_of_phrase (shown visit visited)
  obtain ⟨phrases, same, -⟩ := phrase.built_toTree.linked.phrase_eq found
  have same := Option.some.inj (same.symm.trans (shown visit visited))
  exact ⟨node, found, by rw [← same, Nat.zero_add]; rfl⟩

inductive Matches (source other : List Char) : Phrase → Phrase → Prop
  | node {kind twinKind : Tree.Kind} {span twinSpan : Span} {children twins : List Phrase}
      (label : Tree.SameLabel source other kind twinKind span twinSpan)
      (inside : List.Forall₂ (Matches source other) children twins) :
      Matches source other (.node kind span children) (.node twinKind twinSpan twins)

-- Lines before which every part on the level ends: the next line is less indented.
def Shallow (level : Nat) (lines : List String) : Prop :=
  ∀ first ∈ lines.head?, ∃ source height kind span, height < level ∧
    first = Tree.line source height kind span

theorem Shallow.mono {level deeper : Nat} (le : level ≤ deeper) {lines : List String}
    (shallow : Shallow level lines) : Shallow deeper lines := by
  intro first isFirst
  obtain ⟨source, height, kind, span, lt, same⟩ := shallow first isFirst
  exact ⟨source, height, kind, span, Nat.lt_of_lt_of_le lt le, same⟩

theorem Shallow.outlineAll {level : Nat} {rest : List String} (shallow : Shallow level rest)
    (source : List Char) {phrases : List Phrase} (plain : ∀ phrase ∈ phrases, phrase.Plain) :
    Shallow (level + 1) (outlineAll source level phrases ++ rest) := by
  cases phrases with
  | nil => exact shallow.mono (Nat.le_succ level)
  | cons first others =>
    rw [Phrase.outlineAll, outline_eq_cons source level (plain first (by simp))]
    rintro line ⟨⟩
    exact ⟨source, level, _, _, Nat.lt_succ_self level, rfl⟩

theorem Shallow.not_outlineAll {level : Nat} {rest others : List String}
    (shallow : Shallow level rest) {source : List Char} {first : Phrase} {phrases : List Phrase}
    (plain : first.Plain)
    (same : rest = Phrase.outlineAll source level (first :: phrases) ++ others) :
    False := by
  rw [Phrase.outlineAll, outline_eq_cons source level plain] at same
  obtain ⟨origin, height, kind, span, lt, line⟩ := shallow _ (by rw [same]; rfl)
  have levels := (Tree.sameLabel_of_line line).1
  omega

-- A phrase is read off the front of the lines. Its children end where a line is less indented, so
-- what follows may be anything that starts with such a line.
mutual

theorem matches_of_outline {source other : List Char} (depth : Nat) {rest others : List String}
    (shallow : Shallow (depth + 1) rest) (otherShallow : Shallow (depth + 1) others) :
    (phrase twin : Phrase) → phrase.Plain → twin.Plain →
    outline source depth phrase ++ rest = outline other depth twin ++ others →
    Matches source other phrase twin ∧ rest = others
  | node kind span children, node twinKind twinSpan twins, plain, twinPlain, same => by
    rw [outline_eq_cons source depth plain, outline_eq_cons other depth twinPlain,
      List.cons_append, List.cons_append, List.cons.injEq] at same
    obtain ⟨inside, rests⟩ := matches_of_outlineAll (depth + 1) shallow otherShallow children twins
      plain.inside twinPlain.inside same.2
    exact ⟨.node (Tree.sameLabel_of_line same.1).2 inside, rests⟩

theorem matches_of_outlineAll {source other : List Char} (depth : Nat) {rest others : List String}
    (shallow : Shallow depth rest) (otherShallow : Shallow depth others) :
    (phrases twins : List Phrase) → (∀ phrase ∈ phrases, phrase.Plain) →
    (∀ twin ∈ twins, twin.Plain) →
    outlineAll source depth phrases ++ rest = outlineAll other depth twins ++ others →
    List.Forall₂ (Matches source other) phrases twins ∧ rest = others
  | [], [], _, _, same => ⟨.nil, same⟩
  | [], twin :: _, _, twinPlain, same =>
    (shallow.not_outlineAll (twinPlain twin (by simp)) same).elim
  | phrase :: _, [], plain, _, same =>
    (otherShallow.not_outlineAll (plain phrase (by simp)) same.symm).elim
  | phrase :: phrases, twin :: twins, plain, twinPlain, same => by
    rw [List.forall_mem_cons] at plain twinPlain
    rw [outlineAll, outlineAll, List.append_assoc, List.append_assoc] at same
    obtain ⟨first, behind⟩ := matches_of_outline depth (shallow.outlineAll source plain.2)
      (otherShallow.outlineAll other twinPlain.2) phrase twin plain.1 twinPlain.1 same
    obtain ⟨inside, rests⟩ := matches_of_outlineAll depth shallow otherShallow phrases twins
      plain.2 twinPlain.2 behind
    exact ⟨.cons first inside, rests⟩

end

end Phrase

namespace Tree

structure Node.Matches (source other : List Char) (node twin : Node) : Prop extends
    SameLabel source other node.kind twin.kind node.span twin.span where
  children : node.children = twin.children
  parent : node.parent = twin.parent
  index : node.index = twin.index

/-- Trees that differ at most in where their tokens stand: nodes with the same number have the same
links and show the same. -/
def Matches (source other : List Char) (tree twin : Tree) : Prop :=
  List.Forall₂ (Node.Matches source other) tree.nodes.toList twin.nodes.toList

variable {source other : List Char}

theorem forall₂_modify (parent : Option Nat) (index child : Nat) {nodes twins : List Node}
    (matching : List.Forall₂ (Node.Matches source other) nodes twins) :
    List.Forall₂ (Node.Matches source other)
      (nodes.modify child fun node => { node with parent, index })
      (twins.modify child fun node => { node with parent, index }) := by
  induction matching generalizing child with
  | nil => simp
  | cons first rest ih =>
    cases child with
    | zero => exact .cons ⟨first.toSameLabel, first.children, rfl, rfl⟩ rest
    | succ child => exact .cons first (ih child)

theorem forall₂_adopt (parent index : Nat) (children : List Nat) {nodes twins : Array Node}
    (matching : List.Forall₂ (Node.Matches source other) nodes.toList twins.toList) :
    List.Forall₂ (Node.Matches source other) (adopt parent index children nodes).toList
      (adopt parent index children twins).toList := by
  induction children generalizing index nodes twins with
  | nil => exact matching
  | cons child rest ih =>
    apply ih
    rw [Array.toList_modify, Array.toList_modify]
    exact forall₂_modify (some parent) index child matching

theorem Matches.push {tree twin : Tree} (matching : tree.Matches source other twin)
    {kind twinKind : Kind} {span twinSpan : Span}
    (label : SameLabel source other kind twinKind span twinSpan) (children : List Nat) :
    (tree.push kind span children).Matches source other (twin.push twinKind twinSpan children) := by
  have sizes : tree.nodes.size = twin.nodes.size := matching.length_eq
  unfold Matches Tree.push
  rw [Array.toList_push, Array.toList_push, sizes]
  exact List.rel_append (forall₂_adopt _ _ _ matching) (.cons ⟨label, rfl, rfl, rfl⟩ .nil)

end Tree

namespace Phrase

mutual

theorem matches_plant {source other : List Char} {tree twin : Tree}
    (matching : tree.Matches source other twin) : (phrase partner : Phrase) →
    Matches source other phrase partner →
    (plant tree phrase).1.Matches source other (plant twin partner).1 ∧
      (plant tree phrase).2 = (plant twin partner).2
  | node kind span children, node twinKind twinSpan twins, .node label inside => by
    obtain ⟨grown, ids⟩ := matches_plantAll matching children twins inside
    exact ⟨by simpa only [plant, ids] using grown.push label _, grown.length_eq⟩

theorem matches_plantAll {source other : List Char} {tree twin : Tree}
    (matching : tree.Matches source other twin) : (phrases partners : List Phrase) →
    List.Forall₂ (Matches source other) phrases partners →
    (plantAll tree phrases).1.Matches source other (plantAll twin partners).1 ∧
      (plantAll tree phrases).2 = (plantAll twin partners).2
  | [], [], .nil => ⟨matching, rfl⟩
  | phrase :: phrases, partner :: partners, .cons first rest => by
    obtain ⟨planted, id⟩ := matches_plant matching phrase partner first
    obtain ⟨grown, ids⟩ := matches_plantAll planted phrases partners rest
    exact ⟨grown, by simp only [plantAll, id, ids]⟩

end

theorem matches_toTree {source other : List Char} {phrase twin : Phrase} (plain : phrase.Plain)
    (twinPlain : twin.Plain)
    (same : phrase.toTree.outline source = twin.toTree.outline other) :
    phrase.toTree.Matches source other twin.toTree := by
  rw [outline_toTree, outline_toTree] at same
  have none : Shallow 1 [] := by simp [Shallow]
  obtain ⟨matching, -⟩ := matches_of_outline 0 none none phrase twin plain twinPlain (by rw [same])
  have empty : Tree.empty.Matches source other .empty := List.Forall₂.nil
  exact (matches_plant empty phrase twin matching).1

end Phrase

namespace Tree

theorem exists_plain_of_ofSource {source : List Char} {tree : Tree}
    (read : ofSource source = .ok tree) :
    ∃ phrase, Phrase.ofSource source = .ok phrase ∧ phrase.Plain ∧ tree = phrase.toTree := by
  obtain ⟨phrase, parsed, same⟩ := bind_eq_ok.mp read
  obtain rfl : phrase.toTree = tree := Except.ok.inj same
  refine ⟨phrase, parsed, ?_, rfl⟩
  obtain ⟨tokens, -, parsed⟩ := bind_eq_ok.mp parsed
  obtain ⟨script, -, -, rfl⟩ := Phrase.ofTokens_eq_ok.mp parsed
  refine .node (fun isToken => by cases isToken) fun statement member => ?_
  exact (script.composed_trees statement member).plain

/-- An outline has a line for each node, and sources with the same outline have the same tree, up to
the places of tokens. -/
theorem outline_is_lossless {source other : List Char} {tree twin : Tree}
    (read : ofSource source = .ok tree) (twinRead : ofSource other = .ok twin) :
    tree.Outlined source (tree.outline source) ∧ twin.Outlined other (twin.outline other) ∧
      (tree.outline source = twin.outline other → tree.Matches source other twin) := by
  obtain ⟨phrase, -, plain, rfl⟩ := exists_plain_of_ofSource read
  obtain ⟨partner, -, partnerPlain, rfl⟩ := exists_plain_of_ofSource twinRead
  exact ⟨Phrase.outlined_toTree source plain, Phrase.outlined_toTree other partnerPlain,
    Phrase.matches_toTree plain partnerPlain⟩

-- The blank before the sign or behind it: two trees, one outline.
theorem outline_is_lossless_up_to_blanks :
    ∃ tree twin, ofSource "x  = 1".toList = .ok tree ∧ ofSource "x =  1".toList = .ok twin ∧
      tree ≠ twin ∧ tree.outline "x  = 1".toList = twin.outline "x =  1".toList ∧
      tree.Outlined "x  = 1".toList (tree.outline "x  = 1".toList) ∧
      tree.Matches "x  = 1".toList "x =  1".toList twin := by
  have lines (source : List Char) (isSource : source = "x  = 1".toList ∨ source = "x =  1".toList) :
      (Phrase.ofSource source).toOption.map (·.outline source 0) =
        some ["Script [0..6]", "  AssignStatement [0..6]", "    VariableName \"x\"",
          "    AssignOp \"=\"", "    Number \"1\""] := by
    rcases isSource with rfl | rfl <;> decide +kernel
  have differ : (ofSource "x  = 1".toList).toOption ≠ (ofSource "x =  1".toList).toOption := by
    decide +kernel
  obtain ⟨phrase, parsed, first⟩ := Option.map_eq_some_iff.mp (lines "x  = 1".toList (.inl rfl))
  obtain ⟨partner, partnerParsed, second⟩ :=
    Option.map_eq_some_iff.mp (lines "x =  1".toList (.inr rfl))
  have read : ofSource "x  = 1".toList = .ok phrase.toTree := by
    rw [ofSource, eq_ok_of_toOption parsed]
    rfl
  have twinRead : ofSource "x =  1".toList = .ok partner.toTree := by
    rw [ofSource, eq_ok_of_toOption partnerParsed]
    rfl
  have same : phrase.toTree.outline "x  = 1".toList = partner.toTree.outline "x =  1".toList := by
    rw [Phrase.outline_toTree, Phrase.outline_toTree, first, second]
  obtain ⟨outlined, -, matching⟩ := outline_is_lossless read twinRead
  refine ⟨_, _, read, twinRead, fun trees => differ ?_, same, outlined, matching same⟩
  rw [read, twinRead, trees]

end Tree

end StackScript
