import StackScript.Proofs.Arrangement

/-!
How deep the tree of a source is. Reading counts a level where it goes into an argument, into
parentheses or to what a sign, a `not` or a `**` stands before, but none for the left operand of an
operator or for a callee. So a branch that keeps to the left can pass any number of operations and
calls; all others are bounded, and in a program that is read all of them are.
-/

set_option autoImplicit false

namespace StackScript

namespace Phrase

/-- On each branch at most so many operations are not left by their first operand, and so many calls
not by their callee. -/
structure Contained (turns calls : Nat) (phrase : Phrase) : Prop where
  operations : phrase.Bounded (Tree.Step.turns .binaryExpression) turns
  calls : phrase.Bounded (Tree.Step.turns .callExpression) calls

variable {turns calls : Nat}

theorem Contained.mono {phrase : Phrase} {fewer less : Nat}
    (contained : phrase.Contained fewer less) (turnsLe : fewer ≤ turns) (callsLe : less ≤ calls) :
    phrase.Contained turns calls :=
  ⟨contained.operations.mono turnsLe, contained.calls.mono callsLe⟩

theorem contained_leaf {kind : Tree.Kind} (isToken : kind.isToken = true) (span : Span) :
    (leaf kind span).Contained turns calls := by
  constructor
  all_goals
    apply bounded_leaf
    cases kind <;> first | rfl | cases isToken

theorem contained_node {kind : Tree.Kind} {span : Span} {children : List Phrase}
    (noOperation : kind ≠ .binaryExpression) (noCall : kind ≠ .callExpression)
    (inside : ∀ child ∈ children, child.Contained turns calls) :
    (node kind span children).Contained turns calls :=
  ⟨bounded_of_children (by simp [Tree.Step.turns, noOperation])
      fun child member => (inside child member).operations,
    bounded_of_children (by simp [Tree.Step.turns, noCall])
      fun child member => (inside child member).calls⟩

theorem contained_operation {left sign right : Phrase} {fewer : Nat}
    (leftContained : left.Contained turns calls) (signContained : sign.Contained fewer calls)
    (rightContained : right.Contained fewer calls) (lt : fewer < turns) :
    (wrap .binaryExpression left [sign, right]).Contained turns calls := by
  constructor
  next =>
    refine bounded_turns leftContained.operations ?_ lt
    simpa using ⟨signContained.operations, rightContained.operations⟩
  next =>
    refine bounded_of_children (fun _ => rfl) ?_
    simpa using ⟨leftContained.calls, signContained.calls, rightContained.calls⟩

theorem contained_call {callee list : Phrase} {less : Nat}
    (calleeContained : callee.Contained turns calls) (listContained : list.Contained turns less)
    (lt : less < calls) : (wrap .callExpression callee [list]).Contained turns calls := by
  constructor
  next =>
    refine bounded_of_children (fun _ => rfl) ?_
    simpa using ⟨calleeContained.operations, listContained.operations⟩
  next =>
    refine bounded_turns calleeContained.calls ?_ lt
    simpa using listContained.calls

end Phrase

namespace Form

-- How many operations a branch can pass on their right before it is a level deeper.
def rightTurns : Form → Nat
  | expression | chain .comparison => 3
  | chain .sum => 2
  | chain .product => 1
  | factor | power | call | arguments | atom => 0

def lists : Form → Nat
  | arguments | atom => 0
  | expression | chain _ | factor | power | call => 1

end Form

namespace Derivation

open Phrase

def Contains : {category : Category} → Derivation category → Prop
  | .form form, derivation =>
    Contained (3 * derivation.nesting + form.rightTurns) (derivation.nesting + form.lists)
      derivation.tree
  | .links tier, links => ∀ (left : Phrase) (turns calls : Nat), left.Contained turns calls →
    3 * links.nesting + (Form.chain tier).rightTurns ≤ turns → links.nesting + 1 ≤ calls →
      Contained turns calls (links.tree left)
  | .applications, applications => ∀ (callee : Phrase) (turns calls : Nat),
    callee.Contained turns calls → 3 * applications.nesting ≤ turns →
      applications.nesting + 1 ≤ calls → Contained turns calls (applications.tree callee)
  | .moreArguments, others => ∀ phrase ∈ others.tree,
    phrase.Contained (3 * others.nesting) others.nesting

theorem rightTurns_operand_lt (tier : Tier) :
    tier.operand.rightTurns < (Form.chain tier).rightTurns := by
  cases tier <;> decide

theorem lists_operand (tier : Tier) : tier.operand.lists = 1 := by
  cases tier <;> rfl

-- An expression a level deeper has used up what its own form allows.
theorem Contains.deeper {expression : Derivation (.form .expression)}
    (contains : expression.Contains) {turns calls : Nat}
    (turnsLe : 3 * (expression.nesting + 1) ≤ turns) (callsLe : expression.nesting + 1 ≤ calls) :
    Contained turns calls expression.tree :=
  Contained.mono contains turnsLe callsLe

theorem contains_link {tier : Tier} {operator : Token} (fits : tier.isOperator operator.kind = true)
    {operand : Derivation (.form tier.operand)} {rest : Derivation (.links tier)}
    (ihOperand : operand.Contains) (ihRest : rest.Contains) :
    (link operator fits operand rest).Contains := by
  intro left turns calls contained turnsLe callsLe
  simp only [nesting] at turnsLe callsLe
  have less := rightTurns_operand_lt tier
  have lists := lists_operand tier
  have isToken : tier.operatorKind.isToken = true := by cases tier <;> rfl
  refine ihRest _ _ _ (contained_operation contained (contained_leaf isToken _)
    (Contained.mono ihOperand (Nat.le_refl _) ?_) ?_) ?_ ?_ <;> omega

theorem contains_arguments (opening : Span) {first : Derivation (.form .expression)}
    {others : Derivation .moreArguments} (trailing : Option Span) (closing : Span)
    (ihFirst : first.Contains) (ihOthers : others.Contains) :
    (arguments opening first others trailing closing).Contains := by
  refine contained_node (by decide) (by decide) fun child member => ?_
  simp only [nesting, Form.rightTurns, Form.lists]
  simp only [List.mem_cons, List.mem_append, List.mem_map, List.not_mem_nil, or_false] at member
  rcases member with rfl | rfl | member | ⟨comma, -, rfl⟩ | rfl
  next => exact contained_leaf rfl opening
  next => exact ihFirst.deeper (by omega) (by omega)
  next => exact (ihOthers child member).mono (by omega) (by omega)
  next => exact contained_leaf rfl comma
  next => exact contained_leaf rfl closing

theorem contains {category : Category} (derivation : Derivation category) :
    derivation.Contains := by
  induction derivation with
  | not word operand ih =>
    refine contained_node (by decide) (by decide) ?_
    simp only [nesting, Form.rightTurns, Form.lists]
    simpa using ⟨contained_leaf rfl word, ih.deeper (by omega) (by omega)⟩
  | compared operands ih => exact ih
  | @chain tier first links ihFirst ihLinks =>
    have less := rightTurns_operand_lt tier
    have lists := lists_operand tier
    refine ihLinks _ _ _ (Contained.mono ihFirst ?_ ?_) ?_ ?_ <;>
      simp only [nesting, Form.lists] at * <;> omega
  | noLink => exact fun left turns calls contained _ _ => contained
  | link operator fits operand rest ihOperand ihRest => exact contains_link fits ihOperand ihRest
  | unary sign fits operand ih =>
    refine contained_node (by decide) (by decide) ?_
    have deeper : Contained (3 * (operand.nesting + 1)) (operand.nesting + 2) operand.tree :=
      Contained.mono ih (by simp only [Form.rightTurns]; omega) (by simp [Form.lists])
    simpa using ⟨contained_leaf rfl sign.span, deeper⟩
  | unsigned power ih => exact ih
  | base root ih => exact ih
  | raised root sign exponent ihRoot ihExponent =>
    have rootContained : Contained (3 * root.nesting) (root.nesting + 1) root.tree := ihRoot
    have exponentContained : Contained (3 * exponent.nesting) (exponent.nesting + 1)
        exponent.tree := ihExponent
    refine contained_operation (rootContained.mono ?_ ?_) (contained_leaf rfl sign)
      (exponentContained.mono (Nat.le_refl _) ?_) ?_ <;>
      simp only [nesting, Form.rightTurns, Form.lists] <;> omega
  | call callee applications ihCallee ihApplications =>
    have calleeContained : Contained (3 * callee.nesting) callee.nesting callee.tree := ihCallee
    refine ihApplications _ _ _ (calleeContained.mono ?_ ?_) ?_ ?_ <;>
      simp only [nesting, Form.rightTurns, Form.lists] <;> omega
  | noApplication => exact fun callee turns calls contained _ _ => contained
  | application list rest ihList ihRest =>
    intro callee turns calls contained turnsLe callsLe
    simp only [nesting] at turnsLe callsLe
    have listContained : Contained (3 * list.nesting) list.nesting list.tree := ihList
    refine ihRest _ _ _ (contained_call contained (listContained.mono ?_ (Nat.le_refl _)) ?_) ?_ ?_
      <;> omega
  | noArguments opening closing =>
    exact contained_node (by decide) (by decide)
      (by simpa using ⟨contained_leaf rfl opening, contained_leaf rfl closing⟩)
  | arguments opening first others trailing closing ihFirst ihOthers =>
    exact contains_arguments opening trailing closing ihFirst ihOthers
  | noMore => exact fun phrase member => absurd member List.not_mem_nil
  | more comma argument rest ihArgument ihRest =>
    intro phrase member
    simp only [nesting]
    rcases List.mem_cons.mp member with rfl | member
    next => exact contained_leaf rfl comma
    rcases List.mem_cons.mp member with rfl | member
    next => exact ihArgument.deeper (by omega) (by omega)
    next => exact (ihRest phrase member).mono (by omega) (by omega)
  | leaf token kind fits => exact contained_leaf (isToken_of_leaf fits) token.span
  | parenthesized opening inner closing ih =>
    refine contained_node (by decide) (by decide) ?_
    simpa using ⟨contained_leaf rfl opening, ih.deeper (Nat.le_refl _) (Nat.le_refl _),
      contained_leaf rfl closing⟩

theorem Statement.contained (statement : Statement) :
    Contained (3 * statement.nesting) statement.nesting statement.tree := by
  cases statement with
  | pass word =>
    exact contained_node (by decide) (by decide) (by simpa using contained_leaf rfl word)
  | assign name sign value =>
    refine contained_node (by decide) (by decide) ?_
    simpa using ⟨contained_leaf rfl name, contained_leaf rfl sign,
      value.contains.deeper (Nat.le_refl _) (Nat.le_refl _)⟩
  | expression value =>
    refine contained_node (by decide) (by decide) ?_
    simpa [nesting] using value.contains.deeper (Nat.le_refl _) (Nat.le_refl _)

theorem Lines.contained (lines : Lines) :
    ∀ phrase ∈ lines.trees, phrase.Contained (3 * lines.nesting) lines.nesting := by
  induction lines with
  | last statement after => simpa [trees, nesting] using statement.contained
  | next statement between apart rest ih =>
    simp only [trees, nesting, List.forall_mem_cons]
    refine ⟨statement.contained.mono (by omega) (by omega), fun phrase member => ?_⟩
    exact (ih phrase member).mono (by omega) (by omega)

theorem Script.contained (script : Script) (size : Nat) :
    (script.tree size).Contained (3 * script.nesting) script.nesting := by
  refine contained_node (by decide) (by decide) ?_
  obtain ⟨before, lines⟩ := script
  cases lines with
  | none => simp [trees]
  | some lines => exact lines.contained

end Derivation

def sumChain (count : Nat) : List Char :=
  '1' :: (List.replicate count ['+', '1']).flatten

def callChain (count : Nat) : List Char :=
  'f' :: (List.replicate count ['(', ')']).flatten

theorem Prints.repeated {text : List Char} {parts : List Part}
    (each : ∀ count, Prints text parts (List.replicate count text).flatten) (count : Nat) :
    Prints (List.replicate count text).flatten (List.replicate count parts).flatten [] := by
  induction count with
  | zero => exact Prints.nil []
  | succ count ih =>
    have first := each count
    rw [← List.append_nil (List.replicate count text).flatten] at first
    exact first.append ih

theorem Pattern.closes_replicate {first : Char} (rest : List Char)
    (closes : isWordPart first = false ∧ first ≠ '.') (count : Nat) :
    Closes (List.replicate count (first :: rest)).flatten := by
  cases count with
  | zero => simp [Closes]
  | succ count => simpa [Closes, List.replicate_succ] using closes

theorem prints_sumChain (count : Nat) :
    Prints (sumChain count) ((.number, ['1']) ::
      (List.replicate count [Part.symbol .plus, (.number, ['1'])]).flatten) [] := by
  have one (count : Nat) :
      Prints ['1'] [(.number, ['1'])] (List.replicate count ['+', '1']).flatten :=
    Prints.digits 1 (Pattern.closes_replicate ['1'] (by decide) count)
  have link (count : Nat) : Prints ['+', '1'] [Part.symbol .plus, (.number, ['1'])]
      (List.replicate count ['+', '1']).flatten :=
    (Prints.symbol rfl (by simp)).append (one count)
  have first := one count
  rw [← List.append_nil (List.replicate count ['+', '1']).flatten] at first
  exact first.append (Prints.repeated link count)

theorem prints_callChain (count : Nat) :
    Prints (callChain count) (.name "f" ::
      (List.replicate count [Part.symbol .openParen, .symbol .closeParen]).flatten) [] := by
  have list (count : Nat) : Prints ['(', ')'] [.symbol .openParen, .symbol .closeParen]
      (List.replicate count ['(', ')']).flatten := by
    refine (Prints.symbol rfl (by simp)).append (Prints.symbol rfl ?_)
    cases count <;> simp [List.replicate_succ]
  have name : Prints "f".toList [.name "f"] ((List.replicate count ['(', ')']).flatten ++ []) := by
    rw [List.append_nil]
    exact Prints.name (by decide) (Pattern.closes_replicate [')'] (by decide) count)
  exact name.append (Prints.repeated list count)

namespace Derivation

variable {source : List Char}

def numeral (digits : Span) : Derivation (.form (.chain .product)) :=
  .chain (.unsigned (.base (.call (.leaf ⟨.number, digits⟩ .number rfl) .noApplication))) .noLink

-- Each link puts what is on its left a step further down.
theorem exists_links (count : Nat) {tokens : List Token}
    (same : tokens.map (Token.part source) =
      (List.replicate count [Part.symbol .plus, (.number, ['1'])]).flatten) :
    ∃ links : Derivation (.links .sum), links.tokens = tokens ∧ links.nesting = 0 ∧
      ∀ left steps, left.Branch steps → Phrase.Branch (links.tree left)
        (List.replicate count (.binaryExpression, some 0) ++ steps) := by
  induction count generalizing tokens with
  | zero => exact ⟨.noLink, (List.map_eq_nil_iff.mp same).symm, rfl, fun _ _ branch => branch⟩
  | succ count ih =>
    obtain ⟨sign, behind, rfl, -, same⟩ := Token.exists_of_parts same
    obtain ⟨digit, rest, rfl, -, same⟩ := Token.exists_of_parts same
    obtain ⟨links, rfl, shallow, branches⟩ := ih same
    refine ⟨.link ⟨.symbol .plus, sign⟩ rfl (numeral digit) links, rfl,
      by simp [nesting, numeral, shallow], ?_⟩
    intro left steps branch
    rw [List.replicate_succ', List.append_assoc]
    exact branches _ _ (.inner rfl branch)

theorem exists_applications (count : Nat) {tokens : List Token}
    (same : tokens.map (Token.part source) =
      (List.replicate count [Part.symbol .openParen, .symbol .closeParen]).flatten) :
    ∃ applications : Derivation .applications, applications.tokens = tokens ∧
      applications.nesting = 0 ∧
      ∀ callee steps, callee.Branch steps → Phrase.Branch (applications.tree callee)
        (List.replicate count (.callExpression, some 0) ++ steps) := by
  induction count generalizing tokens with
  | zero =>
    exact ⟨.noApplication, (List.map_eq_nil_iff.mp same).symm, rfl, fun _ _ branch => branch⟩
  | succ count ih =>
    obtain ⟨opening, behind, rfl, -, same⟩ := Token.exists_of_parts same
    obtain ⟨closing, rest, rfl, -, same⟩ := Token.exists_of_parts same
    obtain ⟨applications, rfl, shallow, branches⟩ := ih same
    refine ⟨.application (.noArguments opening closing) applications, rfl,
      by simp [nesting, shallow], ?_⟩
    intro callee steps branch
    rw [List.replicate_succ', List.append_assoc]
    exact branches _ _ (.inner rfl branch)

theorem exists_tree_of_tokens {tokens : List Token} (scanned : Token.ofSource source = .ok tokens)
    (value : Derivation (.form .expression)) (same : value.tokens = tokens)
    (shallow : value.nesting < nestingLimit) {steps : List Tree.Step}
    (branch : Phrase.Branch value.tree steps) :
    ∃ tree, Tree.ofSource source = .ok tree ∧
      tree.RootBranch ((.script, some 0) :: (.expressionStatement, some 0) :: steps) := by
  let script := Script.single (.expression value)
  have joined : script.tokens = Token.joinLines 0 tokens := by
    have lines := value.joinLines_tokens 0 []
    rw [List.append_nil, same] at lines
    rw [Script.tokens_single, Statement.tokens, same, lines]
    simp [Token.joinLines]
  have parsed : Phrase.ofSource source = .ok (script.tree (Text.byteLength source)) := by
    rw [Phrase.ofSource, scanned]
    exact Phrase.ofTokens_eq_ok.mpr ⟨script, joined, shallow, rfl⟩
  refine ⟨_, by rw [Tree.ofSource, parsed]; rfl, (Phrase.rootBranch_toTree _).mpr ?_⟩
  exact .inner rfl (.inner rfl branch)

end Derivation

namespace Tree

theorem exists_branch_sumChain (count : Nat) :
    ∃ tree steps, ofSource (sumChain count) = .ok tree ∧ tree.RootBranch steps ∧
      steps.countP (Step.passes .binaryExpression) = count := by
  obtain ⟨tokens, scanned, same⟩ := (prints_sumChain count).exists_ofSource
  obtain ⟨digit, rest, rfl, -, same⟩ := Token.exists_of_parts same
  obtain ⟨links, rfl, shallow, branches⟩ := Derivation.exists_links count same
  let value : Derivation (.form .expression) :=
    .compared (.chain (.chain (Derivation.numeral digit) links) .noLink)
  have spelled : value.tokens = ⟨.number, digit⟩ :: links.tokens := by
    simp [value, Derivation.numeral, Derivation.tokens]
  have level : value.nesting < nestingLimit := by
    simp [value, Derivation.numeral, Derivation.nesting, shallow, nestingLimit]
  obtain ⟨tree, read, branch⟩ := Derivation.exists_tree_of_tokens scanned value spelled level
    (branches _ _ .leaf)
  refine ⟨tree, _, read, branch, ?_⟩
  simp [Step.passes, List.countP_replicate]

theorem exists_branch_callChain (count : Nat) :
    ∃ tree steps, ofSource (callChain count) = .ok tree ∧ tree.RootBranch steps ∧
      steps.countP (Step.passes .callExpression) = count := by
  obtain ⟨tokens, scanned, same⟩ := (prints_callChain count).exists_ofSource
  obtain ⟨name, rest, rfl, -, same⟩ := Token.exists_of_parts same
  obtain ⟨applications, rfl, shallow, branches⟩ := Derivation.exists_applications count same
  let value : Derivation (.form .expression) := .compared (.chain (.chain (.chain (.unsigned (.base
    (.call (.leaf ⟨.name, name⟩ .variableName rfl) applications))) .noLink) .noLink) .noLink)
  have spelled : value.tokens = ⟨.name, name⟩ :: applications.tokens := by
    simp [value, Derivation.tokens]
  have level : value.nesting < nestingLimit := by
    simp [value, Derivation.nesting, shallow, nestingLimit]
  obtain ⟨tree, read, branch⟩ := Derivation.exists_tree_of_tokens scanned value spelled level
    (branches _ _ .leaf)
  refine ⟨tree, _, read, branch, ?_⟩
  simp [Step.passes, List.countP_replicate]

theorem nesting_exceeds_limit :
    (∃ tree steps, ofSource (sumChain (nestingLimit + 1)) = .ok tree ∧ tree.RootBranch steps ∧
      nestingLimit < steps.countP (Step.passes .binaryExpression)) ∧
    ∃ tree steps, ofSource (callChain (nestingLimit + 1)) = .ok tree ∧ tree.RootBranch steps ∧
      nestingLimit < steps.countP (Step.passes .callExpression) := by
  obtain ⟨tree, steps, read, branch, counted⟩ := exists_branch_sumChain (nestingLimit + 1)
  obtain ⟨other, others, otherRead, otherBranch, otherCounted⟩ :=
    exists_branch_callChain (nestingLimit + 1)
  exact ⟨⟨tree, steps, read, branch, counted ▸ Nat.lt_succ_self _⟩,
    other, others, otherRead, otherBranch, otherCounted ▸ Nat.lt_succ_self _⟩

/-- What does bound the nesting of a tree. A branch leaves at most `3 * nestingLimit` operations by
another way than their left operand, since the operators on the right bind tighter until a level is
counted, and at most `nestingLimit` calls by another way than their callee. In the tree of a program
that is read, it passes at most `nestingLimit` operations and calls in all. -/
theorem nesting_of_branch (source : List Char) (tree : Tree) (read : ofSource source = .ok tree)
    (steps : List Step) (branch : tree.RootBranch steps) :
    steps.countP (Step.turns .binaryExpression) ≤ 3 * nestingLimit ∧
      steps.countP (Step.turns .callExpression) ≤ nestingLimit ∧
      ∀ program, Program.ofSource source = .ok program →
        steps.countP Step.operates ≤ nestingLimit := by
  obtain ⟨phrase, parsed, same⟩ := bind_eq_ok.mp read
  obtain rfl : phrase.toTree = tree := Except.ok.inj same
  obtain ⟨tokens, scanned, accepted⟩ := bind_eq_ok.mp parsed
  obtain ⟨script, -, shallow, rfl⟩ := Phrase.ofTokens_eq_ok.mp accepted
  rw [Phrase.rootBranch_toTree] at branch
  have contained := (script.contained (Text.byteLength source)).mono
    (Nat.mul_le_mul_left 3 shallow) shallow
  refine ⟨contained.operations steps branch, contained.calls steps branch, ?_⟩
  intro program lowered
  obtain ⟨-, others, otherScanned, other, otherSame, yields⟩ :=
    (Program.ofSource_eq_ok (Program.ne_nil_of_ofSource lowered)).mp lowered
  obtain rfl : others = tokens :=
    Except.ok.inj (otherScanned.symm.trans (mapError_eq_ok.mp scanned))
  have otherAccepted :
      Phrase.ofTokens (Text.byteLength source) others = .ok (other.tree (Text.byteLength source)) :=
    Phrase.ofTokens_eq_ok.mpr ⟨other, otherSame, yields.shallow, rfl⟩
  have trees := Except.ok.inj (accepted.symm.trans otherAccepted)
  exact other.bounded_of_yields yields _ steps (trees ▸ branch)

theorem nesting_of_branch_in_sum :
    ∃ tree steps program, ofSource (sumChain 3) = .ok tree ∧ tree.RootBranch steps ∧
      Program.ofSource (sumChain 3) = .ok program ∧
      steps.countP (Step.passes .binaryExpression) = 3 ∧
      steps.countP (Step.turns .binaryExpression) ≤ 3 * nestingLimit ∧
      steps.countP (Step.turns .callExpression) ≤ nestingLimit ∧
      steps.countP Step.operates ≤ nestingLimit := by
  obtain ⟨tree, steps, read, branch, counted⟩ := exists_branch_sumChain 3
  obtain ⟨program, lowered⟩ : ∃ program, Program.ofSource (sumChain 3) = .ok program :=
    exists_eq_ok (by decide +kernel)
  obtain ⟨operations, calls, inProgram⟩ := nesting_of_branch _ tree read steps branch
  exact ⟨tree, steps, program, read, branch, lowered, counted, operations, calls,
    inProgram program lowered⟩

end Tree

end StackScript
