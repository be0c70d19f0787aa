import StackScript.Proofs.Extent

set_option autoImplicit false

namespace StackScript

structure Span.Ordered (spans : List Span) : Prop where
  nonempty : ∀ span ∈ spans, span.start < span.stop
  apart : spans.Pairwise fun first second => first.stop ≤ second.start

namespace Span.Ordered

theorem sublist {spans fewer : List Span} (ordered : Ordered spans)
    (sublist : fewer.Sublist spans) :
    Ordered fewer :=
  ⟨fun span member => ordered.nonempty span (sublist.subset member),
    ordered.apart.sublist sublist⟩

theorem across {front back : List Span} (ordered : Ordered (front ++ back)) {first second : Span}
    (inFront : first ∈ front) (inBack : second ∈ back) : first.stop ≤ second.start :=
  (List.pairwise_append.mp ordered.apart).2.2 first inFront second inBack

end Span.Ordered

theorem Token.Placed.ordered_spans {source : List Char} {tokens : List Token}
    (placed : Placed source tokens) : Span.Ordered (tokens.map (·.span)) := by
  constructor
  next =>
    intro span member
    obtain ⟨token, inside, rfl⟩ := List.mem_map.mp member
    exact (placed.within token inside).lt
  next => exact List.pairwise_map.mpr placed.ordered

namespace Phrase

inductive Composed : Phrase → Prop
  | leaf {kind : Tree.Kind} (isToken : kind.isToken = true) (span : Span) :
      Composed (.leaf kind span)
  | wrap {kind : Tree.Kind} {first : Phrase} {rest : List Phrase} (inner : kind.isToken = false)
      (parts : ∀ part ∈ first :: rest, Composed part) : Composed (.wrap kind first rest)

abbrev Plain (phrase : Phrase) : Prop :=
  phrase.Every fun part => part.kind.isToken = true → part.children = []

theorem Composed.plain {phrase : Phrase} (composed : phrase.Composed) : phrase.Plain := by
  induction composed with
  | leaf isToken span => exact .node (fun _ => rfl) (by simp)
  | wrap inner parts ih => exact .node (by simp [Phrase.kind, inner]) ih

end Phrase

namespace Derivation

open Phrase

theorem composed_tree {category : Category} (derivation : Derivation category) :
    match category, derivation.tree with
    | .form _, phrase => phrase.Composed
    | .links _, extend | .applications, extend => ∀ left : Phrase,
      left.Composed → (extend left).Composed
    | .moreArguments, phrases => ∀ phrase ∈ phrases, phrase.Composed := by
  induction derivation with
  | not word operand ih => exact .wrap rfl (by simpa using ⟨.leaf rfl word, ih⟩)
  | compared operands ih => exact ih
  | chain first links ihFirst ihLinks => exact ihLinks _ ihFirst
  | noLink => exact fun left composed => composed
  | @link tier operator fits operand rest ihOperand ihRest =>
    intro left composed
    have isToken : tier.operatorKind.isToken = true := by cases tier <;> rfl
    exact ihRest _ (.wrap rfl (by simpa using ⟨composed, .leaf isToken _, ihOperand⟩))
  | unary sign fits operand ih => exact .wrap rfl (by simpa using ⟨.leaf rfl sign.span, ih⟩)
  | unsigned power ih => exact ih
  | base root ih => exact ih
  | raised root sign exponent ihRoot ihExponent =>
    exact .wrap rfl (by simpa using ⟨ihRoot, .leaf rfl sign, ihExponent⟩)
  | call callee applications ihCallee ihApplications => exact ihApplications _ ihCallee
  | noApplication => exact fun callee composed => composed
  | application list rest ihList ihRest =>
    intro callee composed
    exact ihRest _ (.wrap rfl (by simpa using ⟨composed, ihList⟩))
  | noArguments opening closing =>
    exact .wrap rfl (by simpa using ⟨.leaf rfl opening, .leaf rfl closing⟩)
  | arguments opening first others trailing closing ihFirst ihOthers =>
    refine .wrap rfl ?_
    intro part member
    simp only [List.mem_cons, List.mem_append, List.mem_map, List.not_mem_nil, or_false] at member
    rcases member with rfl | rfl | member | ⟨comma, -, rfl⟩ | rfl
    next => exact .leaf rfl opening
    next => exact ihFirst
    next => exact ihOthers part member
    next => exact .leaf rfl comma
    next => exact .leaf rfl closing
  | noMore => exact fun phrase member => absurd member (by simp [tree])
  | more comma argument rest ihArgument ihRest =>
    simpa [tree] using ⟨.leaf rfl comma, ihArgument, ihRest⟩
  | leaf token kind fits => exact .leaf (isToken_of_leaf fits) token.span
  | parenthesized opening inner closing ih =>
    exact .wrap rfl (by simpa using ⟨.leaf rfl opening, ih, .leaf rfl closing⟩)

theorem Statement.composed_tree (statement : Statement) : statement.tree.Composed := by
  cases statement with
  | pass word => exact .wrap rfl (by simpa using .leaf rfl word)
  | assign name sign value =>
    exact .wrap rfl
      (by simpa using ⟨.leaf rfl name, .leaf rfl sign, Derivation.composed_tree value⟩)
  | expression value => exact .wrap rfl (by simpa using Derivation.composed_tree value)

theorem Lines.composed_trees (lines : Lines) : ∀ phrase ∈ lines.trees, phrase.Composed := by
  induction lines with
  | last statement after => simpa [trees] using statement.composed_tree
  | next statement between apart rest ih => simpa [trees] using ⟨statement.composed_tree, ih⟩

theorem Script.composed_trees (script : Script) : ∀ phrase ∈ script.trees, phrase.Composed := by
  obtain ⟨before, lines⟩ := script
  cases lines with
  | none => simp [Script.trees]
  | some lines => exact lines.composed_trees

end Derivation

namespace Phrase

theorem leafSpans_sublist {phrase : Phrase} {phrases : List Phrase} (member : phrase ∈ phrases) :
    phrase.leafSpans.Sublist (leafSpansAll phrases) := by
  induction phrases with
  | nil => cases member
  | cons first rest ih =>
    rw [leafSpansAll_cons]
    rcases List.mem_cons.mp member with rfl | later
    next => exact List.sublist_append_left ..
    next => exact (ih later).trans (List.sublist_append_right ..)

structure Spread (spans : List Span) (phrase : Phrase) : Prop where
  start : ∃ first ∈ spans, phrase.span.start = first.start
  stop : ∃ last ∈ spans, phrase.span.stop = last.stop
  lt : phrase.span.start < phrase.span.stop

theorem Spread.mono {spans more : List Span} {phrase : Phrase} (spread : phrase.Spread spans)
    (subset : spans ⊆ more) : phrase.Spread more where
  start := spread.start.imp fun _ first => ⟨subset first.1, first.2⟩
  stop := spread.stop.imp fun _ last => ⟨subset last.1, last.2⟩
  lt := spread.lt

theorem Spread.apart {front back : List Span} (ordered : Span.Ordered (front ++ back))
    {phrase next : Phrase} (spread : phrase.Spread front) (spreadNext : next.Spread back) :
    phrase.span.stop ≤ next.span.start := by
  obtain ⟨last, inFront, stop⟩ := spread.stop
  obtain ⟨first, inBack, start⟩ := spreadNext.start
  rw [stop, start]
  exact ordered.across inFront inBack

theorem span_wrap (kind : Tree.Kind) {first : Phrase} {rest : List Phrase}
    (spread : ∀ part ∈ first :: rest, part.Spread part.leafSpans)
    (ordered : Span.Ordered (leafSpansAll (first :: rest))) :
    (wrap kind first rest).span = ⟨first.span.start, (rest.getLastD first).span.stop⟩ ∧
      first.span.start < (rest.getLastD first).span.stop := by
  have ltFirst := (spread first (by simp)).lt
  change first.span.join (rest.getLastD first).span = _ ∧ _
  rcases rest.eq_nil_or_concat with rfl | ⟨middle, last, rfl⟩
  next => simpa [Span.join] using ltFirst
  next =>
    rw [List.concat_eq_append] at spread ordered ⊢
    rw [List.getLastD_concat, Span.join]
    have ltLast := (spread last (by simp)).lt
    have apart := Spread.apart ordered (spread first (by simp))
      ((spread last (by simp)).mono (leafSpans_sublist (by simp)).subset)
    rw [Nat.min_eq_left (by omega), Nat.max_eq_right (by omega)]
    exact ⟨rfl, by omega⟩

theorem Composed.spread {phrase : Phrase} (composed : phrase.Composed)
    (ordered : Span.Ordered phrase.leafSpans) : phrase.Spread phrase.leafSpans := by
  induction composed with
  | leaf isToken span =>
    exact ⟨⟨span, by simp, rfl⟩, ⟨span, by simp, rfl⟩, ordered.nonempty span (by simp)⟩
  | @wrap kind first rest inner parts ih =>
    have spread : ∀ part ∈ first :: rest, part.Spread part.leafSpans := fun part member =>
      ih part member (ordered.sublist (leafSpans_sublist member))
    have firstMember : first ∈ first :: rest := List.mem_cons_self
    have lastMember : rest.getLastD first ∈ first :: rest := List.getLastD_mem_cons
    obtain ⟨same, lt⟩ := span_wrap kind spread ordered
    have front := (spread first firstMember).mono (leafSpans_sublist firstMember).subset
    have back := (spread _ lastMember).mono (leafSpans_sublist lastMember).subset
    exact ⟨by simpa [same] using front.start, by simpa [same] using back.stop, by rwa [same]⟩

theorem pairwise_span {phrases : List Phrase} (composed : ∀ phrase ∈ phrases, phrase.Composed)
    (ordered : Span.Ordered (leafSpansAll phrases)) :
    phrases.Pairwise fun first second => first.span.stop ≤ second.span.start := by
  induction phrases with
  | nil => exact .nil
  | cons first rest ih =>
    have spread : ∀ phrase ∈ first :: rest, phrase.Spread phrase.leafSpans := fun phrase member =>
      (composed phrase member).spread (ordered.sublist (leafSpans_sublist member))
    rw [leafSpansAll_cons] at ordered
    refine .cons ?_ (ih (fun phrase member => composed phrase (by simp [member]))
      (ordered.sublist (List.sublist_append_right ..)))
    intro second member
    exact Spread.apart ordered (spread first (by simp))
      ((spread second (by simp [member])).mono (leafSpans_sublist member).subset)

/-- A phrase that is one of the spans and has no parts, or runs from the first of its parts to the
last and keeps them apart. -/
structure Exact (spans : List Span) (phrase : Phrase) : Prop where
  spread : phrase.Spread spans
  leaf : phrase.children = [] ↔ phrase.kind.isToken = true
  token : phrase.kind.isToken = true → phrase.span ∈ spans
  covers : ∀ first ∈ phrase.children.head?, ∀ last ∈ phrase.children.getLast?,
    phrase.span = ⟨first.span.start, last.span.stop⟩
  apart : phrase.children.Pairwise fun first second => first.span.stop ≤ second.span.start

theorem Composed.exact {phrase : Phrase} (composed : phrase.Composed)
    (ordered : Span.Ordered phrase.leafSpans) {spans : List Span}
    (inside : phrase.leafSpans ⊆ spans) : phrase.Every (Exact spans) := by
  induction composed with
  | leaf isToken span =>
    refine .node ⟨?_, ?_, ?_, by simp [children], by simp [children]⟩ (by simp)
    next => exact ((Composed.leaf isToken span).spread ordered).mono inside
    next => simpa [children, kind] using isToken
    next => exact fun _ => inside (by simp [Phrase.span])
  | @wrap kind first rest inner parts ih =>
    have spread : ∀ part ∈ first :: rest, part.Spread part.leafSpans := fun part member =>
      (parts part member).spread (ordered.sublist (leafSpans_sublist member))
    refine .node ⟨?_, ?_, ?_, ?_, pairwise_span parts ordered⟩ ?_
    next => exact ((Composed.wrap inner parts).spread ordered).mono inside
    next => simpa [children, Phrase.kind] using inner
    next => simp [Phrase.kind, inner]
    next =>
      intro head isHead last ending
      obtain rfl : first = head := by simpa [children] using isHead
      simp only [children, List.getLast?_cons, Option.mem_def, Option.some.injEq] at ending
      rw [← ending, ← List.getLastD_eq_getLast?]
      exact (span_wrap kind spread ordered).1
    next =>
      intro part member
      have sublist := leafSpans_sublist member
      exact ih part member (ordered.sublist sublist) fun span found =>
        inside (sublist.subset found)

theorem exact_of_ofTokens {source : List Char} {tokens : List Token} {size : Nat} {phrase : Phrase}
    (placed : Token.Placed source tokens) (read : ofTokens size tokens = .ok phrase) :
    ∃ statements, phrase = .node .script ⟨0, size⟩ statements ∧
      (leafSpansAll statements).Sublist (tokens.map (·.span)) ∧
      (∀ statement ∈ statements, statement.Every (Exact (tokens.map (·.span)))) ∧
      statements.Pairwise fun first second => first.span.stop ≤ second.span.start := by
  obtain ⟨script, same, -, rfl⟩ := ofTokens_eq_ok.mp read
  have sublist : (leafSpansAll script.trees).Sublist (tokens.map (·.span)) := by
    rw [script.leafSpans_trees, same]
    exact (List.filter_sublist.trans (Token.sublist_joinLines 0 tokens)).map _
  have ordered := placed.ordered_spans.sublist sublist
  refine ⟨script.trees, rfl, sublist, ?_, pairwise_span script.composed_trees ordered⟩
  intro statement member
  have inside := leafSpans_sublist member
  exact (script.composed_trees statement member).exact (ordered.sublist inside)
    (inside.trans sublist).subset

end Phrase

end StackScript
