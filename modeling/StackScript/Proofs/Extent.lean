import StackScript.Proofs.Lowering
import StackScript.Proofs.Tiling

set_option autoImplicit false

namespace StackScript

theorem Text.append_inj_of_byteLength {left right other rest : List Char}
    (same : left ++ right = other ++ rest) (length : byteLength left = byteLength other) :
    left = other ∧ right = rest := by
  have cut := cut?_byteLength left right
  rw [same, length, cut?_byteLength other rest] at cut
  simp only [Option.some.injEq, Prod.mk.injEq] at cut
  exact ⟨cut.1.symm, cut.2.symm⟩

namespace Span

def Within (source : List Char) (span : Span) : Prop :=
  ∃ before text after, source = before ++ text ++ after ∧ text ≠ [] ∧
    span = ⟨Text.byteLength before, Text.byteLength before + Text.byteLength text⟩

theorem Within.lt {source : List Char} {span : Span} (within : span.Within source) :
    span.start < span.stop := by
  obtain ⟨before, text, after, -, nonempty, rfl⟩ := within
  cases text with
  | nil => exact absurd rfl nonempty
  | cons first rest =>
    have positive := first.utf8Size_pos
    simp only [Text.byteLength]
    omega

theorem exists_slice (source : List Char) (span : Span) :
    span.slice source = [] ∨ ∃ before after, source = before ++ span.slice source ++ after ∧
      Text.byteLength (before ++ span.slice source) = span.stop := by
  unfold slice
  split
  next => exact .inl rfl
  next ordered =>
    split
    next => exact .inl rfl
    next before rest cut =>
      split
      next => exact .inl rfl
      next text after inner =>
        obtain ⟨rfl, start⟩ := Text.cut?_eq_some cut
        obtain ⟨rfl, length⟩ := Text.cut?_eq_some inner
        right
        refine ⟨before, after, by simp, ?_⟩
        rw [Text.byteLength_append]
        omega

theorem getLast?_slice {source : List Char} {span closing : Span}
    (closes : closing.slice source = [')']) (stop : span.stop = closing.stop) :
    ∀ last ∈ (span.slice source).getLast?, last = ')' := by
  intro last ending
  rcases exists_slice source span with empty | ⟨before, after, same, length⟩
  next => simp [empty] at ending
  next =>
    rcases exists_slice source closing with none | ⟨front, back, sameClosing, lengthClosing⟩
    next => simp [closes] at none
    next =>
      rw [closes] at sameClosing lengthClosing
      obtain ⟨together, -⟩ := Text.append_inj_of_byteLength (same.symm.trans sameClosing)
        ((length.trans stop).trans lengthClosing.symm)
      have lasts := congrArg List.getLast? together
      simpa [List.getLast?_append, Option.mem_def.mp ending] using lasts

end Span

namespace Token

structure Placed (source : List Char) (tokens : List Token) : Prop where
  within : ∀ token ∈ tokens, token.span.Within source
  spelled : ∀ token ∈ tokens, token.SpelledIn source
  ordered : tokens.Pairwise fun first second => first.span.stop ≤ second.span.start

theorem Placed.sublist {source : List Char} {tokens fewer : List Token}
    (placed : Placed source tokens) (sublist : fewer.Sublist tokens) : Placed source fewer :=
  ⟨fun token member => placed.within token (sublist.subset member),
    fun token member => placed.spelled token (sublist.subset member),
    placed.ordered.sublist sublist⟩

theorem Placed.middle {source : List Char} {front part back : List Token}
    (placed : Placed source (front ++ (part ++ back))) : Placed source part :=
  placed.sublist ((List.sublist_append_left ..).trans (List.sublist_append_right ..))

theorem Scans.ordered {source before text : List Char} {offset : Nat} {tokens : List Token}
    (scans : Scans offset text tokens) (same : source = before ++ text)
    (start : offset = Text.byteLength before) :
    (∀ token ∈ tokens, token.span.Within source ∧ offset ≤ token.span.start) ∧
      tokens.Pairwise fun first second => first.span.stop ≤ second.span.start := by
  induction scans generalizing before with
  | nil offset => simp
  | @step offset piece rest pattern tokens nonempty longest behind ih =>
    rw [← List.append_assoc] at same
    obtain ⟨within, ordered⟩ := ih same (by rw [Text.byteLength_append, start])
    have later : ∀ token ∈ tokens, token.span.Within source ∧ offset ≤ token.span.start :=
      fun token member => ⟨(within token member).1, Nat.le_of_add_right_le (within token member).2⟩
    cases pattern with
    | token kind =>
      have here : (⟨offset, offset + Text.byteLength piece⟩ : Span).Within source :=
        ⟨before, piece, rest, same, nonempty, by rw [start]⟩
      constructor
      next =>
        intro token member
        rcases List.mem_cons.mp member with rfl | member
        next => exact ⟨here, Nat.le_refl _⟩
        next => exact later token member
      next => exact List.pairwise_cons.mpr ⟨fun token member => (within token member).2, ordered⟩
    | _ => exact ⟨later, ordered⟩

theorem placed_of_ofSource {source : List Char} {tokens : List Token}
    (scanned : ofSource source = .ok tokens) : Placed source tokens := by
  obtain ⟨within, ordered⟩ :=
    (ofSource_eq_ok.mp scanned).ordered (List.nil_append source).symm rfl
  exact ⟨fun token member => (within token member).1, spelledIn_of_mem_ofSource scanned, ordered⟩

def cover (tokens : List Token) : Span :=
  ⟨tokens.head?.elim 0 (·.span.start), tokens.getLast?.elim 0 (·.span.stop)⟩

theorem Placed.join_cover {source : List Char} {front middle back : List Token}
    (placed : Placed source (front ++ (middle ++ back))) (nonempty : front ≠ [])
    (otherNonempty : back ≠ []) :
    (cover front).join (cover back) = cover (front ++ (middle ++ back)) := by
  have apart : ∀ first ∈ front, ∀ second ∈ back, first.span.stop ≤ second.span.start := by
    intro first inFront second inBack
    exact (List.pairwise_append.mp placed.ordered).2.2 first inFront second
      (List.mem_append_right _ inBack)
  have heads := apart _ (List.head_mem nonempty) _ (List.head_mem otherNonempty)
  have lasts := apart _ (List.getLast_mem nonempty) _ (List.getLast_mem otherNonempty)
  have first := (placed.within _ (List.mem_append_left _ (List.head_mem nonempty))).lt
  have last := (placed.within _ (List.mem_append_right _
    (List.mem_append_right _ (List.getLast_mem otherNonempty)))).lt
  simp only [cover, Span.join, List.head?_append, List.getLast?_append,
    List.head?_eq_some_head nonempty, List.head?_eq_some_head otherNonempty,
    List.getLast?_eq_some_getLast nonempty, List.getLast?_eq_some_getLast otherNonempty,
    Option.some_or, Option.elim_some, Span.mk.injEq]
  omega

end Token

namespace Phrase

inductive Every (holds : Phrase → Prop) : Phrase → Prop
  | node {kind : Tree.Kind} {span : Span} {children : List Phrase}
      (here : holds (.node kind span children)) (inside : ∀ child ∈ children, Every holds child) :
      Every holds (.node kind span children)

variable {source : List Char} {holds : Phrase → Prop}

theorem Every.here {phrase : Phrase} (every : phrase.Every holds) : holds phrase := by
  cases every with
  | node here inside => exact here

theorem Every.inside {phrase : Phrase} (every : phrase.Every holds) :
    ∀ child ∈ phrase.children, child.Every holds := by
  cases every with
  | node here inside => exact inside

theorem Every.imp {follows : Phrase → Prop} (implies : ∀ phrase, holds phrase → follows phrase)
    {phrase : Phrase} (every : phrase.Every holds) : phrase.Every follows := by
  induction every with
  | node here inside ih => exact .node (implies _ here) ih

/-- Where the text of a part decides what a phrase means, it is the text of one token. Only a callee
may be more, but then its text is no builtin's name. -/
structure Legible (source : List Char) (phrase : Phrase) : Prop where
  sign : phrase.kind = .unaryExpression → ∀ sign ∈ phrase.children[0]?, sign.kind.isToken = true
  operator : phrase.kind = .binaryExpression →
    ∀ sign ∈ phrase.children[1]?, sign.kind.isToken = true
  callee : phrase.kind = .callExpression → ∀ callee ∈ phrase.children[0]?,
    callee.kind.isToken = true ∨ ∀ builtin : Builtin, callee.text source ≠ builtin.name

structure Laid (source : List Char) (tokens : List Token) (phrase : Phrase) : Prop where
  span : phrase.span = Token.cover tokens
  legible : phrase.Every (Legible source)

def Closed (tokens : List Token) (phrase : Phrase) : Prop :=
  phrase.kind.isToken = true ∨ ∃ closing, tokens.getLast? = some ⟨.symbol .closeParen, closing⟩

theorem every_leaf {kind : Tree.Kind} (token : kind.isToken = true) (span : Span) :
    (leaf kind span).Every (Legible source) := by
  refine .node ⟨?_, ?_, ?_⟩ (by simp)
  all_goals
    intro same
    cases same
    cases token

theorem laid_leaf {kind : Tree.Kind} (isToken : kind.isToken = true) (token : Token) :
    Laid source [token] (leaf kind token.span) :=
  ⟨rfl, every_leaf isToken token.span⟩

theorem Laid.text_ne_name {tokens : List Token} {phrase : Phrase} (laid : Laid source tokens phrase)
    (placed : Token.Placed source tokens) {closing : Span}
    (closed : tokens.getLast? = some ⟨.symbol .closeParen, closing⟩) (builtin : Builtin) :
    phrase.text source ≠ builtin.name := by
  intro same
  have closes : closing.slice source = [')'] := placed.spelled _ (List.mem_of_getLast? closed)
  have stop : phrase.span.stop = closing.stop := by
    rw [laid.span, Token.cover, closed]
    rfl
  have ending := Span.getLast?_slice closes stop
  rw [← String.toList_ofList (l := phrase.span.slice source)] at ending
  rw [text] at same
  rw [same] at ending
  cases builtin <;> simp [Builtin.name] at ending

theorem laid_wrap {kind : Tree.Kind} {first : Phrase} {rest : List Phrase}
    (front middle back : List Token) (placed : Token.Placed source (front ++ (middle ++ back)))
    (nonempty : front ≠ []) (otherNonempty : back ≠ []) (laidFirst : Laid source front first)
    (laidLast : Laid source back (rest.getLastD first))
    (inside : ∀ child ∈ rest, child.Every (Legible source))
    (here : Legible source (wrap kind first rest)) :
    Laid source (front ++ (middle ++ back)) (wrap kind first rest) := by
  constructor
  next =>
    change first.span.join (rest.getLastD first).span = _
    rw [laidFirst.span, laidLast.span, placed.join_cover nonempty otherNonempty]
  next =>
    apply Every.node here
    intro child member
    rcases List.mem_cons.mp member with rfl | member
    next => exact laidFirst.legible
    next => exact inside child member

end Phrase

namespace Derivation

open Phrase

variable {source : List Char}

-- The derivation's tokens stand in the source, so its tree is laid over them. What extends a phrase
-- on its left is laid together with it.
def Lays (source : List Char) : {category : Category} → Derivation category → Prop
  | .form _, derivation => Token.Placed source derivation.tokens →
    Laid source derivation.tokens derivation.tree
  | .links _, derivation => ∀ {left : Phrase} {before : List Token}, before ≠ [] →
    Laid source before left → Token.Placed source (before ++ derivation.tokens) →
      Laid source (before ++ derivation.tokens) (derivation.tree left)
  | .applications, derivation => ∀ {callee : Phrase} {before : List Token}, before ≠ [] →
    Laid source before callee → callee.Closed before →
      Token.Placed source (before ++ derivation.tokens) →
        Laid source (before ++ derivation.tokens) (derivation.tree callee)
  | .moreArguments, derivation => Token.Placed source derivation.tokens →
    ∀ phrase ∈ derivation.tree, phrase.Every (Legible source)

theorem tokens_ne_nil {form : Form} (derivation : Derivation (.form form)) :
    derivation.tokens ≠ [] := by
  obtain ⟨token, rest, same, -⟩ := derivation.exists_head
  simp [same]

theorem laid_prefixed {kind : Tree.Kind} (isToken : kind.isToken = true) (token : Token)
    {form : Form} {operand : Derivation (.form form)} (ih : operand.Lays source)
    (placed : Token.Placed source (token :: operand.tokens)) :
    Laid source (token :: operand.tokens)
      (.wrap .unaryExpression (.leaf kind token.span) [operand.tree]) := by
  have laid : Laid source operand.tokens operand.tree :=
    ih (placed.sublist (List.sublist_cons_self ..))
  refine laid_wrap [token] [] operand.tokens placed (by simp) operand.tokens_ne_nil
    (laid_leaf isToken token) laid ?_ ?_
  next => simpa using laid.legible
  next => exact ⟨fun _ => by simpa [Phrase.leaf, Phrase.kind] using isToken, by simp, by simp⟩

theorem laid_joined {kind : Tree.Kind} (isToken : kind.isToken = true) (token : Token)
    {left : Phrase} {before : List Token} (nonempty : before ≠ [])
    (laidLeft : Laid source before left)
    {form : Form} {operand : Derivation (.form form)} (ih : operand.Lays source)
    (placed : Token.Placed source (before ++ token :: operand.tokens)) :
    Laid source (before ++ token :: operand.tokens)
      (.wrap .binaryExpression left [.leaf kind token.span, operand.tree]) := by
  have sublist : operand.tokens.Sublist (before ++ token :: operand.tokens) :=
    (List.sublist_cons_self ..).trans (List.sublist_append_right ..)
  have laid : Laid source operand.tokens operand.tree := ih (placed.sublist sublist)
  refine laid_wrap before [token] operand.tokens placed nonempty operand.tokens_ne_nil laidLeft
    laid ?_ ?_
  next => simpa using ⟨every_leaf isToken token.span, laid.legible⟩
  next => exact ⟨by simp, fun _ => by simpa [Phrase.leaf, Phrase.kind] using isToken, by simp⟩

theorem lays_noArguments (opening closing : Span) : (noArguments opening closing).Lays source := by
  intro placed
  refine laid_wrap [⟨.symbol .openParen, opening⟩] [] [⟨.symbol .closeParen, closing⟩] placed
    (by simp) (by simp) (laid_leaf rfl _) (laid_leaf rfl _) ?_ ⟨by simp, by simp, by simp⟩
  simpa using every_leaf rfl closing

theorem lays_arguments (opening : Span) {first : Derivation (.form .expression)}
    {others : Derivation .moreArguments} (trailing : Option Span) (closing : Span)
    (ihFirst : first.Lays source) (ihOthers : others.Lays source) :
    (arguments opening first others trailing closing).Lays source := by
  intro placed
  have sublistFirst : first.tokens.Sublist
      (arguments opening first others trailing closing).tokens :=
    (List.sublist_append_left ..).trans (List.sublist_cons_self ..)
  have sublistOthers : others.tokens.Sublist
      (arguments opening first others trailing closing).tokens :=
    ((List.sublist_append_left ..).trans (List.sublist_append_right ..)).trans
      (List.sublist_cons_self ..)
  have laidFirst : Laid source first.tokens first.tree := ihFirst (placed.sublist sublistFirst)
  have legible : ∀ phrase ∈ others.tree, phrase.Every (Legible source) :=
    ihOthers (placed.sublist sublistOthers)
  have split : (arguments opening first others trailing closing).tokens =
      [⟨.symbol .openParen, opening⟩] ++
        ((first.tokens ++ (others.tokens ++ trailingTokens trailing)) ++
          [⟨.symbol .closeParen, closing⟩]) := by
    simp [tokens]
  have ending : (first.tree :: (others.tree ++ (trailing.toList.map (Phrase.leaf .comma) ++
      [.leaf .closeParen closing]))).getLastD (.leaf .openParen opening) =
        .leaf .closeParen closing := by
    simp only [← List.append_assoc, ← List.cons_append, List.getLastD_concat]
  rw [split] at placed ⊢
  refine laid_wrap _ _ _ placed (by simp) (by simp) (laid_leaf rfl ⟨.symbol .openParen, opening⟩)
    ?_ ?_ ⟨by simp, by simp, by simp⟩
  next =>
    rw [ending]
    exact laid_leaf rfl ⟨.symbol .closeParen, closing⟩
  next =>
    intro child member
    simp only [List.mem_cons, List.mem_append, List.mem_map, List.not_mem_nil, or_false] at member
    rcases member with rfl | member | ⟨comma, -, rfl⟩ | rfl
    next => exact laidFirst.legible
    next => exact legible child member
    next => exact every_leaf rfl comma
    next => exact every_leaf rfl closing

theorem lays_parenthesized (opening : Span) {inner : Derivation (.form .expression)}
    (closing : Span) (ih : inner.Lays source) :
    (parenthesized opening inner closing).Lays source := by
  intro placed
  have sublist : inner.tokens.Sublist (parenthesized opening inner closing).tokens :=
    (List.sublist_append_left ..).trans (List.sublist_cons_self ..)
  have laid : Laid source inner.tokens inner.tree := ih (placed.sublist sublist)
  refine laid_wrap [⟨.symbol .openParen, opening⟩] inner.tokens [⟨.symbol .closeParen, closing⟩]
    placed (by simp) (by simp) (laid_leaf rfl _) (laid_leaf rfl _) ?_ ⟨by simp, by simp, by simp⟩
  simpa using ⟨laid.legible, every_leaf rfl closing⟩

theorem getLast?_arguments (list : Derivation (.form .arguments)) :
    ∃ closing, list.tokens.getLast? = some ⟨.symbol .closeParen, closing⟩ := by
  cases list with
  | noArguments opening closing => exact ⟨closing, rfl⟩
  | arguments opening first others trailing closing =>
    refine ⟨closing, ?_⟩
    simp only [tokens, ← List.append_assoc, ← List.cons_append, List.getLast?_concat]

theorem isToken_of_leaf {kind : Token.Kind} {leaf : Tree.Kind} (fits : kind.leaf? = some leaf) :
    leaf.isToken = true := by
  unfold Token.Kind.leaf? at fits
  split at fits <;> cases fits <;> rfl

theorem closed_atom (atom : Derivation (.form .atom)) : Closed atom.tokens atom.tree := by
  cases atom with
  | leaf token kind fits => exact .inl (isToken_of_leaf fits)
  | parenthesized opening inner closing =>
    right
    refine ⟨closing, ?_⟩
    simp only [tokens, ← List.cons_append, List.getLast?_concat]

theorem lays_application {list : Derivation (.form .arguments)} {rest : Derivation .applications}
    (ihList : list.Lays source) (ihRest : rest.Lays source) :
    (application list rest).Lays source := by
  intro callee before nonempty laidCallee closed placed
  rw [tokens, ← List.append_assoc] at placed ⊢
  have placedCall : Token.Placed source (before ++ list.tokens) :=
    placed.sublist (List.sublist_append_left ..)
  have laidList : Laid source list.tokens list.tree :=
    ihList (placedCall.sublist (List.sublist_append_right ..))
  have legible : Legible source (.wrap .callExpression callee [list.tree]) := by
    refine ⟨by simp, by simp, ?_⟩
    rintro - found same
    cases same
    rcases closed with isToken | ⟨closing, ends⟩
    next => exact .inl isToken
    next =>
      have placedCallee := placedCall.sublist (List.sublist_append_left ..)
      exact .inr fun builtin => laidCallee.text_ne_name placedCallee ends builtin
  have laidCall : Laid source (before ++ list.tokens) (.wrap .callExpression callee [list.tree]) :=
    laid_wrap before [] list.tokens placedCall nonempty list.tokens_ne_nil laidCallee laidList
      (by simpa using laidList.legible) legible
  have closedCall : Closed (before ++ list.tokens) (.wrap .callExpression callee [list.tree]) := by
    obtain ⟨closing, ends⟩ := list.getLast?_arguments
    exact .inr ⟨closing, by simp [List.getLast?_append, ends]⟩
  exact ihRest (by simp [nonempty]) laidCall closedCall placed

theorem lays {category : Category} (derivation : Derivation category) : derivation.Lays source := by
  induction derivation with
  | not word operand ih => exact laid_prefixed rfl ⟨.keyword .not, word⟩ ih
  | compared operands ih => exact ih
  | @chain tier first links ihFirst ihLinks =>
    intro placed
    have laidFirst : Laid source first.tokens first.tree :=
      ihFirst (placed.sublist (List.sublist_append_left ..))
    exact ihLinks first.tokens_ne_nil laidFirst placed
  | noLink =>
    intro left before nonempty laidLeft placed
    rwa [tokens, List.append_nil]
  | @link tier operator fits operand rest ihOperand ihRest =>
    intro left before nonempty laidLeft placed
    have isToken : tier.operatorKind.isToken = true := by cases tier <;> rfl
    have split : before ++ (link operator fits operand rest).tokens =
        (before ++ operator :: operand.tokens) ++ rest.tokens := by
      simp [tokens]
    rw [split] at placed ⊢
    exact ihRest (by simp) (laid_joined isToken operator nonempty laidLeft ihOperand
      (placed.sublist (List.sublist_append_left ..))) placed
  | unary sign fits operand ih => exact laid_prefixed rfl sign ih
  | unsigned power ih => exact ih
  | base root ih => exact ih
  | raised root sign exponent ihRoot ihExponent =>
    intro placed
    have laidRoot : Laid source root.tokens root.tree :=
      ihRoot (placed.sublist (List.sublist_append_left ..))
    exact laid_joined rfl ⟨.symbol .power, sign⟩ root.tokens_ne_nil laidRoot ihExponent placed
  | call callee applications ihCallee ihApplications =>
    intro placed
    have laidCallee : Laid source callee.tokens callee.tree :=
      ihCallee (placed.sublist (List.sublist_append_left ..))
    exact ihApplications callee.tokens_ne_nil laidCallee callee.closed_atom placed
  | noApplication =>
    intro callee before nonempty laidCallee closed placed
    rwa [tokens, List.append_nil]
  | application list rest ihList ihRest => exact lays_application ihList ihRest
  | noArguments opening closing => exact lays_noArguments opening closing
  | arguments opening first others trailing closing ihFirst ihOthers =>
    exact lays_arguments opening trailing closing ihFirst ihOthers
  | noMore =>
    intro placed phrase member
    cases member
  | more comma argument rest ihArgument ihRest =>
    intro placed phrase member
    have placedBoth := placed.sublist (List.sublist_cons_self ..)
    have laid : Laid source argument.tokens argument.tree :=
      ihArgument (placedBoth.sublist (List.sublist_append_left ..))
    rcases List.mem_cons.mp member with rfl | member
    next => exact every_leaf rfl comma
    rcases List.mem_cons.mp member with rfl | member
    next => exact laid.legible
    next => exact ihRest (placedBoth.sublist (List.sublist_append_right ..)) phrase member
  | leaf token kind fits =>
    intro placed
    exact laid_leaf (isToken_of_leaf fits) token
  | parenthesized opening inner closing ih => exact lays_parenthesized opening closing ih

theorem laid_alone {kind : Tree.Kind} {tokens : List Token} {phrase : Phrase}
    (laid : Laid source tokens phrase) (here : Legible source (wrap kind phrase [])) :
    Laid source tokens (wrap kind phrase []) := by
  constructor
  next =>
    change phrase.span.join phrase.span = _
    simp [Span.join, laid.span]
  next => exact .node here (by simpa using laid.legible)

namespace Statement

theorem laid (statement : Statement) (placed : Token.Placed source statement.tokens) :
    Laid source statement.tokens statement.tree := by
  cases statement with
  | pass word => exact laid_alone (laid_leaf rfl _) ⟨by simp, by simp, by simp⟩
  | assign name sign value =>
    have sublist : value.tokens.Sublist (assign name sign value).tokens :=
      (List.sublist_cons_self ..).trans (List.sublist_cons_self ..)
    have laidValue : Laid source value.tokens value.tree := value.lays (placed.sublist sublist)
    refine laid_wrap [⟨.name, name⟩] [⟨.symbol .assign, sign⟩] value.tokens placed (by simp)
      value.tokens_ne_nil (laid_leaf rfl _) laidValue ?_ ⟨by simp, by simp, by simp⟩
    simpa using ⟨every_leaf rfl sign, laidValue.legible⟩
  | expression value => exact laid_alone (value.lays placed) ⟨by simp, by simp, by simp⟩

end Statement

theorem Lines.legible (lines : Lines) (placed : Token.Placed source lines.tokens) :
    ∀ phrase ∈ lines.trees, phrase.Every (Legible source) := by
  induction lines with
  | last statement after =>
    intro phrase member
    cases List.mem_singleton.mp member
    exact (statement.laid (placed.sublist (List.sublist_append_left ..))).legible
  | next statement between apart rest ih =>
    intro phrase member
    rcases List.mem_cons.mp member with rfl | member
    next => exact (statement.laid (placed.sublist (List.sublist_append_left ..))).legible
    next =>
      have sublist : rest.tokens.Sublist (Lines.next statement between apart rest).tokens :=
        (List.sublist_append_right ..).trans (List.sublist_append_right ..)
      exact ih (placed.sublist sublist) phrase member

theorem Script.legible (script : Script) (placed : Token.Placed source script.tokens) :
    ∀ phrase ∈ script.trees, phrase.Every (Legible source) := by
  obtain ⟨before, lines⟩ := script
  cases lines with
  | none => simp [Script.trees]
  | some lines => exact lines.legible (placed.sublist (List.sublist_append_right ..))

end Derivation

theorem Phrase.legible_of_ofTokens {source : List Char} {size : Nat} {tokens : List Token}
    {phrase : Phrase} (placed : Token.Placed source tokens)
    (read : ofTokens size tokens = .ok phrase) :
    phrase.Every (Legible source) := by
  obtain ⟨script, same, -, rfl⟩ := ofTokens_eq_ok.mp read
  have placedJoined := placed.sublist (Token.sublist_joinLines 0 tokens)
  rw [← same] at placedJoined
  exact .node ⟨by simp [kind], by simp [kind], by simp [kind]⟩ (script.legible placedJoined)

end StackScript
