import StackScript.Proofs.Digits
import StackScript.Proofs.Joining
import StackScript.Proofs.Lowered
import StackScript.Proofs.Scanning
import StackScript.Proofs.Scripts

set_option autoImplicit false

namespace StackScript

namespace Expr

def isBinary : Expr → Bool
  | binary .. => true
  | _ => false

def isSum : Expr → Bool
  | binary _ .add _ _ | binary _ .sub _ _ => true
  | _ => false

def Fitting : Expr → Prop
  | number _ value => -2147483648 ≤ value ∧ value ≤ 2147483647
  | _ => True

def Named : Expr → Prop
  | identifier _ name => Text.isName name.toList = true
  | _ => True

/-- Whether the operands of an operation need no parentheses. -/
def Grouped : Expr → Prop
  | binary _ .mul left right => left.isSum = false ∧ right.isBinary = false
  | binary _ _ _ right => right.isSum = false
  | _ => True

instance : DecidablePred Fitting
  | number _ value => inferInstanceAs (Decidable (-2147483648 ≤ value ∧ value ≤ 2147483647))
  | identifier .. | binary .. | unaryCall .. | binaryCall .. => isTrue trivial

instance : DecidablePred Named
  | identifier _ name => inferInstanceAs (Decidable (Text.isName name.toList = true))
  | number .. | binary .. | unaryCall .. | binaryCall .. => isTrue trivial

instance : DecidablePred Saturated
  | unaryCall _ builtin _ => inferInstanceAs (Decidable (builtin.arity = 1))
  | binaryCall _ builtin _ _ => inferInstanceAs (Decidable (builtin.arity = 2))
  | number .. | identifier .. | binary .. => isTrue trivial

instance : DecidablePred Grouped
  | binary _ .mul left right =>
    inferInstanceAs (Decidable (left.isSum = false ∧ right.isBinary = false))
  | binary _ .add _ right | binary _ .sub _ right =>
    inferInstanceAs (Decidable (right.isSum = false))
  | number .. | identifier .. | unaryCall .. | binaryCall .. => isTrue trivial

def height : Expr → Nat
  | number _ _ | identifier _ _ => 0
  | binary _ _ left right => max left.height right.height + 1
  | unaryCall _ _ argument => argument.height + 1
  | binaryCall _ _ first second => max first.height second.height + 1

/-- How many calls lie on a path, where the sign of a negative literal counts as one. -/
def callDepth : Expr → Nat
  | number _ value => if value < 0 then 1 else 0
  | identifier _ _ => 0
  | binary _ _ left right => max left.callDepth right.callDepth
  | unaryCall _ _ argument => argument.callDepth + 1
  | binaryCall _ _ first second => max first.callDepth second.callDepth + 1

end Expr

def Statement.target? : Statement → Option String
  | .define _ name _ => some name
  | .expression _ _ => none

structure Statement.Printable (statement : Statement) : Prop where
  target : ∀ name ∈ statement.target?, Text.isName name.toList = true
  named : statement.value.Every Expr.Named
  fitting : statement.value.Every Expr.Fitting
  saturated : statement.value.Every Expr.Saturated
  grouped : statement.value.Every Expr.Grouped
  height_le : statement.value.height ≤ nestingLimit
  callDepth_lt : statement.value.callDepth + 1 ≤ nestingLimit

instance : DecidablePred Statement.Printable := fun statement =>
  decidable_of_iff
    ((∀ name ∈ statement.target?, Text.isName name.toList = true) ∧
      statement.value.Every Expr.Named ∧ statement.value.Every Expr.Fitting ∧
      statement.value.Every Expr.Saturated ∧ statement.value.Every Expr.Grouped ∧
      statement.value.height ≤ nestingLimit ∧ statement.value.callDepth + 1 ≤ nestingLimit)
    ⟨fun ⟨target, named, fitting, saturated, grouped, height, callDepth⟩ =>
        ⟨target, named, fitting, saturated, grouped, height, callDepth⟩,
      fun printable => ⟨printable.target, printable.named, printable.fitting, printable.saturated,
        printable.grouped, printable.height_le, printable.callDepth_lt⟩⟩

structure Program.Printable (program : Program) : Prop where
  nonempty : program.statements ≠ []
  statements : ∀ statement ∈ program.statements, statement.Printable

instance : DecidablePred Program.Printable := fun program =>
  decidable_of_iff
    (program.statements ≠ [] ∧ ∀ statement ∈ program.statements, statement.Printable)
    ⟨fun ⟨nonempty, statements⟩ => ⟨nonempty, statements⟩,
      fun printable => ⟨printable.nonempty, printable.statements⟩⟩

namespace Phrase.Lowered

variable {source : List Char} {levels : Nat} {phrase : Phrase} {expr : Expr}

theorem fitting (lowered : Lowered source levels phrase expr) : expr.Every Expr.Fitting := by
  induction lowered with
  | number kind read => exact Decimal.fits_iff.mp (Literal.fits_of_read read)
  | signed kind children plain read => exact Decimal.fits_iff.mp (Literal.fits_of_read read)
  | identifier kind => trivial
  | binary kind children symbol loweredLeft loweredRight ihLeft ihRight =>
    exact ⟨trivial, ihLeft, ihRight⟩
  | unaryCall kind children arity member lowered ih => exact ⟨trivial, ih⟩
  | binaryCall kind children arity member lowered otherMember otherLowered ih ihOther =>
    exact ⟨trivial, ih, ihOther⟩

theorem saturated (lowered : Lowered source levels phrase expr) : expr.Every Expr.Saturated := by
  induction lowered with
  | number kind read => trivial
  | signed kind children plain read => trivial
  | identifier kind => trivial
  | binary kind children symbol loweredLeft loweredRight ihLeft ihRight =>
    exact ⟨trivial, ihLeft, ihRight⟩
  | unaryCall kind children arity member lowered ih => exact ⟨arity, ih⟩
  | binaryCall kind children arity member lowered otherMember otherLowered ih ihOther =>
    exact ⟨arity, ih, ihOther⟩

theorem height_le (lowered : Lowered source levels phrase expr) : expr.height ≤ levels := by
  induction lowered with
  | number kind read => exact Nat.zero_le _
  | signed kind children plain read => exact Nat.zero_le _
  | identifier kind => exact Nat.zero_le _
  | binary kind children symbol loweredLeft loweredRight ihLeft ihRight =>
    exact Nat.succ_le_succ (Nat.max_le.mpr ⟨ihLeft, ihRight⟩)
  | unaryCall kind children arity member lowered ih => exact Nat.succ_le_succ ih
  | binaryCall kind children arity member lowered otherMember otherLowered ih ihOther =>
    exact Nat.succ_le_succ (Nat.max_le.mpr ⟨ih, ihOther⟩)

end Phrase.Lowered

-- What the grammar lets stand as a form, once parentheses are gone.
def Form.Admits : Form → Expr → Prop
  | chain .product, expr => expr.isSum = false
  | factor, expr | power, expr | call, expr | atom, expr => expr.isBinary = false
  | _, _ => True

structure Expr.ReadAs (form : Form) (depth : Nat) (expr : Expr) : Prop where
  named : expr.Every Named
  grouped : expr.Every Grouped
  callDepth_lt : expr.callDepth < depth
  admitted : form.Admits expr

def Phrase.Gives (source : List Char) (form : Form) (depth : Nat) (phrase : Phrase) : Prop :=
  ∀ (levels : Nat) (expr : Expr), phrase.Lowered source levels expr → expr.ReadAs form depth

namespace Phrase

variable {source : List Char} {depth : Nat} {phrase : Phrase}

theorem Gives.mono {form wider : Form} {deeper : Nat} (gives : phrase.Gives source form depth)
    (admits : ∀ expr, form.Admits expr → wider.Admits expr) (le : depth ≤ deeper) :
    phrase.Gives source wider deeper := by
  intro levels expr lowered
  obtain ⟨named, grouped, callDepth, admitted⟩ := gives levels expr lowered
  exact ⟨named, grouped, Nat.lt_of_lt_of_le callDepth le, admits expr admitted⟩

@[simp] theorem kind_leaf (kind : Tree.Kind) (span : Span) : (leaf kind span).kind = kind := rfl

theorem gives_of_kind {form : Form} (other : phrase.kind ∉ [Tree.Kind.number, .variableName,
    .unaryExpression, .binaryExpression, .callExpression]) : phrase.Gives source form depth := by
  intro levels expr lowered
  cases lowered with
  | number kind | signed kind | identifier kind | binary kind | unaryCall kind | binaryCall kind =>
    simp [kind] at other

theorem gives_unary {form : Form} {sign operand : Phrase}
    (signed : sign.text source = "-" ∨ sign.text source = "+" → ∀ span value,
      (Expr.number span value).ReadAs form depth) :
    (wrap .unaryExpression sign [operand]).Gives source form depth := by
  intro levels expr lowered
  cases lowered with
  | signed kind children plain read =>
    simp only [children_wrap, List.cons.injEq] at children
    obtain ⟨rfl, -⟩ := children
    exact signed plain _ _
  | number kind | identifier kind | binary kind | unaryCall kind | binaryCall kind =>
    simp at kind

theorem gives_binary {form leftForm rightForm : Form} {left sign right : Phrase}
    (givesLeft : left.Gives source leftForm depth) (givesRight : right.Gives source rightForm depth)
    (joined : ∀ operator, Operator.ofSymbol? (sign.text source) = some operator →
      ∀ span first second, leftForm.Admits first → rightForm.Admits second →
      (Expr.binary span operator first second).Grouped ∧
        form.Admits (.binary span operator first second)) :
    (wrap .binaryExpression left [sign, right]).Gives source form depth := by
  intro levels expr lowered
  cases lowered with
  | binary kind children symbol loweredLeft loweredRight =>
    simp only [children_wrap, List.cons.injEq] at children
    obtain ⟨rfl, rfl, rfl, -⟩ := children
    have first := givesLeft _ _ loweredLeft
    have second := givesRight _ _ loweredRight
    obtain ⟨grouped, admitted⟩ := joined _ symbol _ _ _ first.admitted second.admitted
    exact ⟨⟨trivial, first.named, second.named⟩, ⟨grouped, first.grouped, second.grouped⟩,
      Nat.max_lt.mpr ⟨first.callDepth_lt, second.callDepth_lt⟩, admitted⟩
  | number kind | identifier kind | signed kind | unaryCall kind | binaryCall kind =>
    simp at kind

theorem gives_call {callee list : Phrase}
    (arguments : ∀ child ∈ list.children, child.Gives source .expression depth) :
    (wrap .callExpression callee [list]).Gives source .call (depth + 1) := by
  intro levels expr lowered
  cases lowered with
  | unaryCall kind children arity member lowered =>
    simp only [children_wrap, List.cons.injEq] at children
    obtain ⟨rfl, rfl, -⟩ := children
    have value := arguments _ member _ _ lowered
    exact ⟨⟨trivial, value.named⟩, ⟨trivial, value.grouped⟩, Nat.succ_lt_succ value.callDepth_lt,
      rfl⟩
  | binaryCall kind children arity member lowered otherMember otherLowered =>
    simp only [children_wrap, List.cons.injEq] at children
    obtain ⟨rfl, rfl, -⟩ := children
    have first := arguments _ member _ _ lowered
    have second := arguments _ otherMember _ _ otherLowered
    exact ⟨⟨trivial, first.named, second.named⟩, ⟨trivial, first.grouped, second.grouped⟩,
      Nat.succ_lt_succ (Nat.max_lt.mpr ⟨first.callDepth_lt, second.callDepth_lt⟩), rfl⟩
  | number kind | identifier kind | signed kind | binary kind =>
    simp at kind

end Phrase

-- What derivations of a category give, by what they build and how deep they go. Links and
-- applications keep what is given on their left.
def Category.Gives (source : List Char) :
    (category : Category) → category.Building → (nesting : Nat) → Prop
  | form .arguments, phrase, nesting =>
    ∀ child ∈ phrase.children, child.Gives source .expression nesting
  | form kind, phrase, nesting => phrase.Gives source kind (nesting + 1)
  | links tier, extend, nesting => ∀ left depth, nesting < depth →
    Phrase.Gives source (.chain tier) depth left →
      Phrase.Gives source (.chain tier) depth (extend left)
  | applications, extend, nesting => ∀ callee depth, nesting < depth →
    Phrase.Gives source .call depth callee → Phrase.Gives source .call depth (extend callee)
  | moreArguments, phrases, nesting => ∀ child ∈ phrases, child.Gives source .expression nesting

namespace Derivation

variable {source : List Char}

def Lowers (source : List Char) {category : Category} (derivation : Derivation category) : Prop :=
  (∀ token ∈ derivation.tokens, token.SpelledIn source) →
    category.Gives source derivation.tree derivation.nesting

theorem text_leaf (token : Token) (kind : Tree.Kind) {sign : Symbol}
    (symbol : token.kind = .symbol sign) (spelled : token.SpelledIn source) :
    (Phrase.leaf kind token.span).text source = sign.text := by
  have text : token.span.slice source = sign.text.toList := by
    simpa [Token.SpelledIn, symbol, Token.Kind.Spells] using spelled
  change String.ofList (token.span.slice source) = sign.text
  rw [text, String.ofList_toList]

theorem lowers_not (word : Span) (operand : Derivation (.form .expression)) :
    (not word operand).Lowers source := by
  intro spelled
  have text : word.slice source = "not".toList := spelled ⟨.keyword .not, word⟩ (by simp [tokens])
  -- The word is neither of the signs, so nothing is read off the phrase.
  refine Phrase.gives_unary fun plain => ?_
  change String.ofList (word.slice source) = "-" ∨ String.ofList (word.slice source) = "+" at plain
  rw [text] at plain
  simp at plain

theorem Tier.admits_operand (tier : Tier) (expr : Expr) (admitted : tier.operand.Admits expr) :
    (Form.chain tier).Admits expr := by
  cases tier with
  | product => cases expr <;> simp_all [Tier.operand, Form.Admits, Expr.isBinary, Expr.isSum]
  | sum | comparison => trivial

theorem lowers_chain {tier : Tier} {first : Derivation (.form tier.operand)}
    {links : Derivation (.links tier)} (ihFirst : first.Lowers source)
    (ihLinks : links.Lowers source) : (chain first links).Lowers source := by
  intro spelled
  simp only [tokens, List.mem_append] at spelled
  have givesFirst : Phrase.Gives source tier.operand (first.nesting + 1) first.tree := by
    have gives := ihFirst fun token member => spelled token (.inl member)
    cases tier <;> exact gives
  refine ihLinks (fun token member => spelled token (.inr member)) _ _ ?_ ?_
  · exact Nat.lt_succ_of_le (Nat.le_max_right _ _)
  · exact givesFirst.mono (Tier.admits_operand tier) (Nat.succ_le_succ (Nat.le_max_left _ _))

theorem Tier.joined {tier : Tier} {sign : Symbol} (fits : tier.isOperator (.symbol sign) = true)
    {operator : Operator} (symbol : Operator.ofSymbol? sign.text = some operator) (span : Span)
    {first second : Expr} (admitted : (Form.chain tier).Admits first)
    (admittedRight : tier.operand.Admits second) :
    (Expr.binary span operator first second).Grouped ∧
      (Form.chain tier).Admits (.binary span operator first second) := by
  -- Of the operators of a tier only `+`, `-` and `*` have a meaning.
  cases tier <;> cases sign <;>
    simp_all [Tier.isOperator, Token.Kind.isComparison, Token.Kind.isSum, Token.Kind.isProduct,
      Operator.ofSymbol?, Symbol.text] <;>
    subst symbol <;> simp_all [Expr.Grouped, Form.Admits, Tier.operand, Expr.isSum]

theorem exists_symbol_of_isOperator {tier : Tier} {kind : Token.Kind}
    (fits : tier.isOperator kind = true) : ∃ sign, kind = .symbol sign := by
  cases kind with
  | symbol sign => exact ⟨sign, rfl⟩
  | _ => cases tier <;> simp [Tier.isOperator, Token.Kind.isComparison, Token.Kind.isSum,
      Token.Kind.isProduct] at fits

theorem lowers_link {tier : Tier} {operator : Token}
    (fits : tier.isOperator operator.kind = true) {operand : Derivation (.form tier.operand)}
    {rest : Derivation (.links tier)} (ihOperand : operand.Lowers source)
    (ihRest : rest.Lowers source) : (link operator fits operand rest).Lowers source := by
  intro spelled left depth deep givesLeft
  simp only [tokens, List.mem_cons, List.mem_append] at spelled
  obtain ⟨deepOperand, deepRest⟩ := Nat.max_lt.mp deep
  have givesOperand : Phrase.Gives source tier.operand (operand.nesting + 1) operand.tree := by
    have gives := ihOperand fun token member => spelled token (.inr (.inl member))
    cases tier <;> exact gives
  obtain ⟨sign, symbol⟩ := exists_symbol_of_isOperator fits
  refine ihRest (fun token member => spelled token (.inr (.inr member))) _ _ deepRest ?_
  have givesRight := givesOperand.mono (fun _ admitted => admitted) deepOperand
  refine Phrase.gives_binary givesLeft givesRight ?_
  intro meaning known span first second admitted admittedRight
  rw [text_leaf operator _ symbol (spelled operator (.inl rfl))] at known
  rw [symbol] at fits
  exact Tier.joined fits known span admitted admittedRight

theorem lowers_unary {sign : Token} (fits : sign.kind.isUnary = true)
    (operand : Derivation (.form .factor)) : (unary sign fits operand).Lowers source := by
  intro spelled
  refine Phrase.gives_unary fun plain span value => ⟨trivial, trivial, ?_, rfl⟩
  simp only [Expr.callDepth, nesting]
  split <;> omega

theorem lowers_raised (root : Derivation (.form .call)) (sign : Span)
    (exponent : Derivation (.form .factor)) : (raised root sign exponent).Lowers source := by
  intro spelled levels expr lowered
  -- The grammar has powers, but no operator means one.
  have text := text_leaf ⟨.symbol .power, sign⟩ .arithmeticOperator rfl
    (spelled _ (by simp [tokens]))
  cases lowered with
  | binary kind children symbol loweredLeft loweredRight =>
    simp only [tree, Phrase.children_wrap, List.cons.injEq] at children
    obtain ⟨rfl, rfl, rfl, -⟩ := children
    rw [text] at symbol
    simp [Operator.ofSymbol?, Symbol.text] at symbol
  | number kind | identifier kind | signed kind | unaryCall kind | binaryCall kind =>
    simp [tree] at kind

theorem lowers_call {callee : Derivation (.form .atom)} {applications : Derivation .applications}
    (ihCallee : callee.Lowers source) (ihApplications : applications.Lowers source) :
    (call callee applications).Lowers source := by
  intro spelled
  simp only [tokens, List.mem_append] at spelled
  have givesCallee : Phrase.Gives source .atom (callee.nesting + 1) callee.tree :=
    ihCallee fun token member => spelled token (.inl member)
  refine ihApplications (fun token member => spelled token (.inr member)) _ _ ?_ ?_
  · exact Nat.lt_succ_of_le (Nat.le_max_right _ _)
  · exact givesCallee.mono (fun _ admitted => admitted) (Nat.succ_le_succ (Nat.le_max_left _ _))

theorem lowers_application {list : Derivation (.form .arguments)} {rest : Derivation .applications}
    (ihList : list.Lowers source) (ihRest : rest.Lowers source) :
    (application list rest).Lowers source := by
  intro spelled callee depth deep givesCallee
  simp only [tokens, List.mem_append] at spelled
  obtain ⟨deepList, deepRest⟩ := Nat.max_lt.mp deep
  have givesArguments : ∀ child ∈ list.tree.children,
      child.Gives source .expression list.nesting :=
    ihList fun token member => spelled token (.inl member)
  refine ihRest (fun token member => spelled token (.inr member)) _ _ deepRest ?_
  exact (Phrase.gives_call givesArguments).mono (fun _ admitted => admitted) deepList

theorem lowers_arguments (opening : Span) {first : Derivation (.form .expression)}
    {others : Derivation .moreArguments} (trailing : Option Span) (closing : Span)
    (ihFirst : first.Lowers source) (ihOthers : others.Lowers source) :
    (arguments opening first others trailing closing).Lowers source := by
  intro spelled child member
  simp only [tokens, List.mem_cons, List.mem_append] at spelled
  have givesFirst : Phrase.Gives source .expression (first.nesting + 1) first.tree :=
    ihFirst fun token member => spelled token (.inr (.inl member))
  have givesOthers : ∀ child ∈ others.tree, child.Gives source .expression others.nesting :=
    ihOthers fun token member => spelled token (.inr (.inr (.inl member)))
  simp only [tree, Phrase.children_wrap, List.mem_cons, List.mem_append, List.mem_map,
    List.not_mem_nil, or_false] at member
  rcases member with rfl | rfl | member | ⟨comma, -, rfl⟩ | rfl
  · exact Phrase.gives_of_kind (by simp)
  · exact givesFirst.mono (fun _ admitted => admitted) (Nat.le_max_left _ _)
  · exact (givesOthers child member).mono (fun _ admitted => admitted) (Nat.le_max_right _ _)
  · exact Phrase.gives_of_kind (by simp)
  · exact Phrase.gives_of_kind (by simp)

theorem lowers_noArguments (opening closing : Span) :
    (noArguments opening closing).Lowers source := by
  intro spelled child member
  simp only [tree, Phrase.children_wrap, List.mem_cons, List.not_mem_nil, or_false] at member
  rcases member with rfl | rfl <;> exact Phrase.gives_of_kind (by simp)

theorem lowers_more (comma : Span) {argument : Derivation (.form .expression)}
    {rest : Derivation .moreArguments} (ihArgument : argument.Lowers source)
    (ihRest : rest.Lowers source) : (more comma argument rest).Lowers source := by
  intro spelled child member
  simp only [tokens, List.mem_cons, List.mem_append] at spelled
  have givesArgument : Phrase.Gives source .expression (argument.nesting + 1) argument.tree :=
    ihArgument fun token member => spelled token (.inr (.inl member))
  have givesRest : ∀ child ∈ rest.tree, child.Gives source .expression rest.nesting :=
    ihRest fun token member => spelled token (.inr (.inr member))
  simp only [tree, List.mem_cons] at member
  rcases member with rfl | rfl | member
  · exact Phrase.gives_of_kind (by simp)
  · exact givesArgument.mono (fun _ admitted => admitted) (Nat.le_max_left _ _)
  · exact (givesRest child member).mono (fun _ admitted => admitted) (Nat.le_max_right _ _)

theorem lowers_leaf (token : Token) {kind : Tree.Kind} (fits : token.kind.leaf? = some kind) :
    (leaf token kind fits).Lowers source := by
  intro spelled levels expr lowered
  have spelling : token.SpelledIn source := spelled token (by simp [tokens])
  cases lowered with
  | number kindNumber read =>
    have number : token.kind = .number := by
      unfold Token.Kind.leaf? at fits
      split at fits <;> simp_all [tree]
    rw [Token.SpelledIn, number] at spelling
    obtain ⟨first, rest, text, starts⟩ := spelling
    change Literal.read (token.span.slice source) token.span = .ok _ at read
    rw [text] at read
    -- A number token has no sign of its own, which would count as a level.
    have unsigned : first ≠ '-' := by
      rintro rfl
      revert starts
      decide
    have nonneg := Literal.nonneg_of_read unsigned read
    refine ⟨trivial, trivial, ?_, rfl⟩
    simp only [Expr.callDepth, nesting]
    split <;> omega
  | identifier kindName =>
    have name : token.kind = .name := by
      unfold Token.Kind.leaf? at fits
      split at fits <;> simp_all [tree]
    rw [Token.SpelledIn, name] at spelling
    refine ⟨?_, trivial, Nat.succ_pos _, rfl⟩
    change Text.isName (String.ofList (token.span.slice source)).toList = true
    rw [String.toList_ofList]
    exact spelling
  | signed other | binary other | unaryCall other | binaryCall other =>
    unfold Token.Kind.leaf? at fits
    split at fits <;> simp_all [tree]

theorem lowers {category : Category} (derivation : Derivation category) :
    derivation.Lowers source := by
  -- A phrase in parentheses is no expression to the reader, so calls and signs are all that counts.
  induction derivation with
  | not word operand => exact lowers_not word operand
  | compared operands ih =>
    exact fun spelled levels expr lowered =>
      have ⟨named, grouped, callDepth, _⟩ := ih spelled levels expr lowered
      ⟨named, grouped, callDepth, trivial⟩
  | chain first links ihFirst ihLinks => exact lowers_chain ihFirst ihLinks
  | noLink => exact fun _ left depth _ gives => gives
  | link operator fits operand rest ihOperand ihRest => exact lowers_link fits ihOperand ihRest
  | unary sign fits operand => exact lowers_unary fits operand
  | unsigned power ih =>
    exact fun spelled => Phrase.Gives.mono (ih spelled) (fun _ admitted => admitted) (Nat.le_refl _)
  | base root ih =>
    exact fun spelled => Phrase.Gives.mono (ih spelled) (fun _ admitted => admitted) (Nat.le_refl _)
  | raised root sign exponent => exact lowers_raised root sign exponent
  | call callee applications ihCallee ihApplications => exact lowers_call ihCallee ihApplications
  | noApplication => exact fun _ callee depth _ gives => gives
  | application list rest ihList ihRest => exact lowers_application ihList ihRest
  | noArguments opening closing => exact lowers_noArguments opening closing
  | arguments opening first others trailing closing ihFirst ihOthers =>
    exact lowers_arguments opening trailing closing ihFirst ihOthers
  | noMore => exact fun _ child member => absurd member List.not_mem_nil
  | more comma argument rest ihArgument ihRest => exact lowers_more comma ihArgument ihRest
  | leaf token kind fits => exact lowers_leaf token fits
  | parenthesized opening inner closing =>
    exact fun _ => Phrase.gives_of_kind (by simp [tree])

theorem printable_of_lowered {value : Derivation (.form .expression)}
    (spelled : ∀ token ∈ value.tokens, token.SpelledIn source)
    (shallow : value.nesting + 1 ≤ nestingLimit) {statement : StackScript.Statement}
    (target : ∀ name ∈ statement.target?, Text.isName name.toList = true)
    (lowered : value.tree.Lowered source nestingLimit statement.value) : statement.Printable := by
  have gives : Phrase.Gives source .expression (value.nesting + 1) value.tree :=
    value.lowers spelled
  have read := gives _ _ lowered
  exact ⟨target, read.named, lowered.fitting, lowered.saturated, read.grouped, lowered.height_le,
    Nat.le_trans read.callDepth_lt shallow⟩

theorem Statement.printable {derivation : Statement}
    (spelled : ∀ token ∈ derivation.tokens, token.SpelledIn source)
    (shallow : derivation.nesting ≤ nestingLimit) {statement : StackScript.Statement}
    (read : derivation.tree.toStatement source nestingLimit = .ok statement) :
    statement.Printable := by
  cases derivation with
  | pass word => simp [tree, Phrase.toStatement, Phrase.complain] at read
  | assign name sign value =>
    have target : (⟨.name, name⟩ : Token).SpelledIn source := spelled _ (by simp [tokens])
    simp only [tokens, List.mem_cons] at spelled
    simp only [tree, Phrase.toStatement, Phrase.kind_wrap, Phrase.children_wrap] at read
    rw [if_neg (by simp)] at read
    obtain ⟨expr, readValue, last⟩ := bind_eq_ok.mp read
    cases last
    refine printable_of_lowered (fun token member => spelled token (.inr (.inr member))) shallow ?_
      (Phrase.lowered_of_toExpr readValue)
    intro text same
    cases same
    change Text.isName (String.ofList (name.slice source)).toList = true
    rw [String.toList_ofList]
    exact target
  | expression value =>
    simp only [tree, Phrase.toStatement, Phrase.kind_wrap, Phrase.children_wrap] at read
    obtain ⟨expr, readValue, last⟩ := bind_eq_ok.mp read
    cases last
    exact printable_of_lowered spelled shallow (by simp [StackScript.Statement.target?])
      (Phrase.lowered_of_toExpr readValue)

end Derivation

theorem Program.printable_of_ofSource {source : List Char} {program : Program}
    (read : Program.ofSource source = .ok program) : program.Printable := by
  have nonempty : source ≠ [] := by
    rintro rfl
    simp [ofSource] at read
  rw [ofSource_eq nonempty] at read
  obtain ⟨phrase, parsed, lowered⟩ := bind_eq_ok.mp read
  obtain ⟨tokens, scanned, accepted⟩ := bind_eq_ok.mp parsed
  have spelled := Token.spelledIn_of_mem_ofSource (mapError_eq_ok.mp scanned)
  obtain ⟨script, same, shallow, rfl⟩ := Phrase.ofTokens_eq_ok.mp accepted
  unfold Phrase.toProgram at lowered
  rw [if_neg (by simp [Derivation.Script.tree, Phrase.kind])] at lowered
  split at lowered
  · simp at lowered
  · rename_i notEmpty
    obtain ⟨statements, readAll, last⟩ := bind_eq_ok.mp lowered
    cases last
    refine ⟨ne_nil_of_mapM readAll (by simpa using notEmpty), ?_⟩
    intro statement member
    obtain ⟨child, inside, readChild⟩ := exists_of_mem_mapM readAll member
    have inScript : child ∈ script.trees := inside
    obtain ⟨before, after, derivation, split, rfl, shallowChild, -⟩ :=
      Derivation.Script.exists_split inScript
    refine Derivation.Statement.printable (fun token inChild => ?_)
      (Nat.le_trans shallowChild shallow) readChild
    apply spelled
    apply (Token.sublist_joinLines 0 tokens).subset
    rw [← same, split]
    exact List.mem_append_right _ (List.mem_append_left _ inChild)

end StackScript
