import StackScript.Proofs.Joining
import StackScript.Proofs.Links
import StackScript.Proofs.Parsing

set_option autoImplicit false

namespace StackScript

namespace Derivation

def ofAtom (atom : Derivation (.form .atom)) : Derivation (.form .expression) :=
  .compared (.chain (.chain (.chain (.unsigned (.base (.call atom .noApplication))) .noLink)
    .noLink) .noLink)

@[simp] theorem tokens_ofAtom (atom : Derivation (.form .atom)) :
    (ofAtom atom).tokens = atom.tokens := by
  simp [ofAtom, tokens]

end Derivation

def Token.Ends (rest : List Token) : Prop :=
  ∀ token ∈ rest.head?, token.kind.isSeparator = true

namespace Token

theorem Ends.nil : Ends [] := by
  simp [Ends]

theorem Ends.head {token : Token} {rest : List Token} (ends : Ends (token :: rest)) :
    token.kind.isSeparator = true :=
  ends token rfl

theorem Ends.cons {token : Token} (rest : List Token) (separator : token.kind.isSeparator = true) :
    Ends (token :: rest) := by
  simpa [Ends] using separator

theorem continues_of_isSeparator {kind : Token.Kind} (separator : kind.isSeparator = true) :
    Form.expression.continues kind = false := by
  unfold Token.Kind.isSeparator at separator
  split at separator <;> first | rfl | simp at separator

theorem Ends.stops {rest : List Token} (ends : Ends rest) : Form.expression.Stops rest :=
  fun token first => continues_of_isSeparator (ends token first)

theorem not_isSeparator_of_starts {kind : Token.Kind}
    (starts : Form.expression.starts kind = true) : kind.isSeparator = false := by
  unfold Token.Kind.isSeparator
  split <;> first | rfl | simp [Form.starts, Kind.isUnary, Kind.startsAtom, Kind.leaf?] at starts

end Token

namespace Derivation

-- The name alone is an expression that `=` does not continue, so it is all of the value.
theorem eq_of_assignment (value : Derivation (.form .expression)) {name sign : Span}
    {rest behind : List Token} (stops : Form.expression.Stops behind)
    (same : value.tokens ++ behind = ⟨.name, name⟩ :: ⟨.symbol .assign, sign⟩ :: rest) :
    behind = ⟨.symbol .assign, sign⟩ :: rest := by
  have alone : (ofAtom (.leaf ⟨.name, name⟩ .variableName rfl)).tokens ++
      ⟨.symbol .assign, sign⟩ :: rest = value.tokens ++ behind := by
    simp [tokens, same]
  exact (determined _ value _ behind (.cons rfl) stops alone).2.symm

theorem ne_assignment (value : Derivation (.form .expression)) {name sign : Span}
    {rest behind : List Token} (ends : Token.Ends behind) :
    value.tokens ++ behind ≠ ⟨.name, name⟩ :: ⟨.symbol .assign, sign⟩ :: rest := by
  intro same
  obtain rfl := value.eq_of_assignment ends.stops same
  simpa [Token.Kind.isSeparator] using ends.head

theorem ne_pass (value : Derivation (.form .expression)) {word : Span} {rest behind : List Token} :
    value.tokens ++ behind ≠ ⟨.keyword .pass, word⟩ :: rest := by
  intro same
  have starts := value.starts_of_cons same
  simp [Form.starts, Token.Kind.isUnary, Token.Kind.startsAtom, Token.Kind.leaf?] at starts

namespace Statement

theorem exists_head (statement : Statement) :
    ∃ token rest, statement.tokens = token :: rest ∧ token.kind.isSeparator = false := by
  cases statement with
  | pass word => exact ⟨_, _, rfl, rfl⟩
  | assign name sign value => exact ⟨_, _, rfl, rfl⟩
  | expression value =>
    obtain ⟨token, rest, same, starts⟩ := value.exists_head
    exact ⟨token, rest, same, Token.not_isSeparator_of_starts starts⟩

theorem determined {statement other : Statement} {rest others : List Token}
    (ends : Token.Ends rest) (otherEnds : Token.Ends others)
    (same : statement.tokens ++ rest = other.tokens ++ others) :
    statement = other ∧ rest = others := by
  cases statement with
  | pass word =>
    cases other with
    | pass otherWord => simp_all [tokens]
    | assign name sign value => simp [tokens] at same
    | expression value => exact absurd same.symm value.ne_pass
  | assign name sign value =>
    cases other with
    | pass otherWord => simp [tokens] at same
    | assign otherName otherSign otherValue =>
      simp only [tokens, List.cons_append, List.cons.injEq, Token.mk.injEq, true_and] at same
      obtain ⟨rfl, rfl, same⟩ := same
      obtain ⟨rfl, rfl⟩ := value.determined otherValue rest others ends.stops otherEnds.stops same
      exact ⟨rfl, rfl⟩
    | expression otherValue => exact absurd same.symm (otherValue.ne_assignment otherEnds)
  | expression value =>
    cases other with
    | pass otherWord => exact absurd same value.ne_pass
    | assign name sign otherValue => exact absurd same (value.ne_assignment ends)
    | expression otherValue =>
      obtain ⟨rfl, rfl⟩ := value.determined otherValue rest others ends.stops otherEnds.stops same
      exact ⟨rfl, rfl⟩

theorem read (size : Nat) (statement : Statement) {rest : List Token} (ends : Token.Ends rest)
    (shallow : statement.nesting ≤ nestingLimit) :
    Reader.statement size (statement.tokens ++ rest) = .ok (statement.tree, rest) := by
  have complete := (Reader.reads_level size nestingLimit).1.complete
  cases statement with
  | pass word => rfl
  | assign name sign value =>
    rw [tokens, List.cons_append, List.cons_append, Reader.statement, Reader.expression,
      complete value rest shallow ends.stops]
    rfl
  | expression value =>
    rw [tokens, Reader.statement.eq_3, Reader.expression, complete value rest shallow ends.stops]
    · rfl
    · exact fun _ _ => value.ne_pass
    · exact fun _ _ _ => value.ne_assignment ends

theorem exists_of_read {size : Nat} {given rest : List Token} {phrase : Phrase}
    (success : Reader.statement size given = .ok (phrase, rest)) :
    ∃ statement : Statement, statement.tokens ++ rest = given ∧ statement.tree = phrase ∧
      statement.nesting ≤ nestingLimit := by
  unfold Reader.statement at success
  split at success
  · rename_i word behind
    simp only [Except.ok.injEq, Prod.mk.injEq] at success
    obtain ⟨rfl, rfl⟩ := success
    exact ⟨.pass word, rfl, rfl, Nat.zero_le _⟩
  · rename_i name sign behind
    obtain ⟨⟨found, final⟩, readValue, last⟩ := bind_eq_ok.mp success
    simp only [Except.ok.injEq, Prod.mk.injEq] at last
    obtain ⟨rfl, rfl⟩ := last
    obtain ⟨value, rfl, rfl, shallow⟩ := (Reader.reads_level size nestingLimit).1.sound readValue
    exact ⟨.assign name sign value, rfl, rfl, shallow⟩
  · obtain ⟨⟨found, final⟩, readValue, last⟩ := bind_eq_ok.mp success
    simp only [Except.ok.injEq, Prod.mk.injEq] at last
    obtain ⟨rfl, rfl⟩ := last
    obtain ⟨value, same, rfl, shallow⟩ := (Reader.reads_level size nestingLimit).1.sound readValue
    exact ⟨.expression value, same, rfl, shallow⟩

theorem length_lt_of_read {size : Nat} {given rest : List Token} {phrase : Phrase}
    (success : Reader.statement size given = .ok (phrase, rest)) : rest.length < given.length := by
  obtain ⟨statement, rfl, -, -⟩ := exists_of_read success
  obtain ⟨token, behind, same, -⟩ := statement.exists_head
  rw [same, List.cons_append, List.length_cons, List.length_append]
  omega

end Statement

theorem Separators.ends (separators : Separators) : Token.Ends separators.tokens := by
  obtain ⟨given, separate⟩ := separators
  cases given with
  | nil => exact .nil
  | cons token behind => exact .cons _ (separate token (by simp))

theorem Separators.ends_of_ne_nil (separators : Separators) (apart : separators.tokens ≠ [])
    (rest : List Token) : Token.Ends (separators.tokens ++ rest) := by
  obtain ⟨given, separate⟩ := separators
  cases given with
  | nil => exact absurd rfl apart
  | cons token behind => exact .cons _ (separate token (by simp))

theorem Separators.determined {separators other : Separators} {rest others : List Token}
    (begins : ∀ token ∈ rest.head?, token.kind.isSeparator = false)
    (otherBegins : ∀ token ∈ others.head?, token.kind.isSeparator = false)
    (same : separators.tokens ++ rest = other.tokens ++ others) :
    separators = other ∧ rest = others := by
  obtain ⟨given, separate⟩ := separators
  obtain ⟨otherGiven, otherSeparate⟩ := other
  simp only [mk.injEq] at same ⊢
  induction given generalizing otherGiven with
  | nil =>
    cases otherGiven with
    | nil => exact ⟨rfl, same⟩
    | cons token behind =>
      have statement := begins token (by rw [← List.nil_append rest, same]; rfl)
      simp [otherSeparate token (by simp)] at statement
  | cons token behind ih =>
    cases otherGiven with
    | nil =>
      have statement := otherBegins token (by rw [← List.nil_append others, ← same]; rfl)
      simp [separate token (by simp)] at statement
    | cons otherToken otherBehind =>
      simp only [List.cons_append, List.cons.injEq] at same
      obtain ⟨rfl, same⟩ := same
      obtain ⟨rfl, rfl⟩ := ih (fun token member => separate token (by simp [member])) otherBehind
        (fun token member => otherSeparate token (by simp [member])) same
      exact ⟨rfl, rfl⟩

namespace Lines

theorem exists_head (lines : Lines) :
    ∃ token rest, lines.tokens = token :: rest ∧ token.kind.isSeparator = false := by
  have statement (first : Statement) (behind : List Token) :
      ∃ token rest, first.tokens ++ behind = token :: rest ∧ token.kind.isSeparator = false := by
    obtain ⟨token, rest, same, statement⟩ := first.exists_head
    exact ⟨token, rest ++ behind, by rw [same, List.cons_append], statement⟩
  cases lines with
  | last first after => exact statement first _
  | next first between apart rest => exact statement first _

theorem begins (lines : Lines) : ∀ token ∈ lines.tokens.head?, token.kind.isSeparator = false := by
  obtain ⟨token, rest, same, statement⟩ := lines.exists_head
  simpa [same] using statement

theorem ne_separators (lines : Lines) (before after : Separators) :
    before.tokens ++ lines.tokens ≠ after.tokens := by
  intro same
  obtain ⟨token, rest, head, statement⟩ := lines.exists_head
  have member : token ∈ after.tokens := by
    rw [← same, head]
    simp
  simp [after.separate token member] at statement

theorem determined {lines other : Lines} (same : lines.tokens = other.tokens) : lines = other := by
  induction lines generalizing other with
  | last statement after =>
    cases other with
    | last otherStatement otherAfter =>
      obtain ⟨rfl, sameAfter⟩ := Statement.determined after.ends otherAfter.ends same
      obtain ⟨given, separate⟩ := after
      cases sameAfter
      rfl
    | next otherStatement between apart rest =>
      -- Behind the same statement one has separators only and the other has one more statement.
      obtain ⟨-, behind⟩ := Statement.determined after.ends (between.ends_of_ne_nil apart _) same
      exact absurd behind.symm (rest.ne_separators between after)
  | next statement between apart rest ih =>
    cases other with
    | last otherStatement after =>
      obtain ⟨-, behind⟩ := Statement.determined (between.ends_of_ne_nil apart _) after.ends same
      exact absurd behind (rest.ne_separators between after)
    | next otherStatement otherBetween otherApart otherRest =>
      obtain ⟨rfl, behind⟩ := Statement.determined (between.ends_of_ne_nil apart _)
        (otherBetween.ends_of_ne_nil otherApart _) same
      obtain ⟨rfl, sameRest⟩ := Separators.determined rest.begins otherRest.begins behind
      rw [ih sameRest]

end Lines

theorem Script.determined {script other : Script} (same : script.tokens = other.tokens) :
    script = other := by
  obtain ⟨before, lines⟩ := script
  obtain ⟨otherBefore, otherLines⟩ := other
  have begins (lines : Option Lines) : ∀ token ∈ (lines.elim [] (·.tokens)).head?,
      token.kind.isSeparator = false := by
    cases lines with
    | none => simp
    | some lines => exact lines.begins
  obtain ⟨rfl, behind⟩ := Separators.determined (begins lines) (begins otherLines) same
  cases lines with
  | none =>
    cases otherLines with
    | none => rfl
    | some otherLines =>
      obtain ⟨token, rest, head, -⟩ := otherLines.exists_head
      simp [head] at behind
  | some lines =>
    cases otherLines with
    | none =>
      obtain ⟨token, rest, head, -⟩ := lines.exists_head
      simp [head] at behind
    | some otherLines => rw [Lines.determined behind]

theorem statementsUpTo_separators {size bound : Nat} (separators : Separators) {rest : List Token}
    {phrases : List Phrase} (enough : (separators.tokens ++ rest).length ≤ bound)
    (read : ∀ {bound : Nat}, rest.length ≤ bound →
      Reader.statementsUpTo size bound rest = .ok phrases) :
    Reader.statementsUpTo size bound (separators.tokens ++ rest) = .ok phrases := by
  obtain ⟨given, separate⟩ := separators
  dsimp only at enough ⊢
  induction given generalizing bound with
  | nil => exact read enough
  | cons token behind ih =>
    simp only [List.cons_append, List.length_cons] at enough
    obtain ⟨bound, rfl⟩ := Nat.exists_eq_add_one_of_ne_zero (Nat.ne_zero_of_lt enough)
    rw [List.cons_append, Reader.statementsUpTo, if_pos (separate token (by simp))]
    exact ih (fun token member => separate token (by simp [member])) (Nat.le_of_succ_le_succ enough)

theorem statementsUpTo_nil (size bound : Nat) : Reader.statementsUpTo size bound [] = .ok [] := by
  cases bound <;> rfl

theorem statementsUpTo_statement {size bound : Nat} (statement : Statement) {rest : List Token}
    {phrases : List Phrase} (shallow : statement.nesting ≤ nestingLimit) (ends : Token.Ends rest)
    (enough : (statement.tokens ++ rest).length ≤ bound)
    (read : ∀ {bound : Nat}, rest.length ≤ bound →
      Reader.statementsUpTo size bound rest = .ok phrases) :
    Reader.statementsUpTo size bound (statement.tokens ++ rest) =
      .ok (statement.tree :: phrases) := by
  have readStatement := statement.read size ends shallow
  obtain ⟨token, inside, same, plain⟩ := statement.exists_head
  rw [same, List.cons_append] at enough readStatement ⊢
  obtain ⟨bound, rfl⟩ := Nat.exists_eq_add_one_of_ne_zero (Nat.ne_zero_of_lt enough)
  rw [Reader.statementsUpTo, if_neg (by simp [plain]), readStatement, ok_bind]
  have enoughRest : rest.length ≤ bound := by
    simp only [List.length_cons, List.length_append] at enough
    omega
  cases rest with
  | nil =>
    have none := read enoughRest
    rw [statementsUpTo_nil, Except.ok.injEq] at none
    rw [← none]
  | cons next behind =>
    dsimp only
    rw [if_pos ends.head, read enoughRest]
    rfl

theorem Lines.read {size bound : Nat} (lines : Lines) (shallow : lines.nesting ≤ nestingLimit)
    (enough : lines.tokens.length ≤ bound) :
    Reader.statementsUpTo size bound lines.tokens = .ok lines.trees := by
  induction lines generalizing bound with
  | last statement after =>
    refine statementsUpTo_statement statement shallow after.ends enough
      fun {bound} enoughAfter => ?_
    rw [← List.append_nil after.tokens] at enoughAfter ⊢
    exact statementsUpTo_separators after enoughAfter fun _ => statementsUpTo_nil size _
  | next statement between apart rest ih =>
    obtain ⟨shallowFirst, shallowRest⟩ := Nat.max_le.mp shallow
    refine statementsUpTo_statement statement shallowFirst (between.ends_of_ne_nil apart _) enough
      fun {bound} enoughRest => ?_
    exact statementsUpTo_separators between enoughRest fun enoughLines => ih shallowRest enoughLines

theorem Script.read (size : Nat) (script : Script) (shallow : script.nesting ≤ nestingLimit) :
    Reader.statementsUpTo size script.tokens.length script.tokens = .ok script.trees := by
  obtain ⟨before, lines⟩ := script
  refine statementsUpTo_separators before (Nat.le_refl _) fun {bound} enough => ?_
  cases lines with
  | none => exact statementsUpTo_nil size bound
  | some lines => exact lines.read shallow enough

def Script.single (statement : Statement) : Script :=
  ⟨⟨[], by simp⟩, some (.last statement ⟨[], by simp⟩)⟩

theorem Script.tokens_single (statement : Statement) :
    (Script.single statement).tokens = statement.tokens :=
  List.append_nil _

def Script.behind (separators : Separators) (script : Script) : Script :=
  ⟨⟨separators.tokens ++ script.before.tokens, by
    intro token member
    rcases List.mem_append.mp member with inside | inside
    next => exact separators.separate token inside
    next => exact script.before.separate token inside⟩, script.lines⟩

theorem Script.tokens_behind (separators : Separators) (script : Script) :
    (script.behind separators).tokens = separators.tokens ++ script.tokens := by
  simp [behind, tokens]

theorem Script.exists_cons (statement : Statement) (script : Script)
    (shallow : statement.nesting ≤ nestingLimit) (shallowScript : script.nesting ≤ nestingLimit)
    (ends : Token.Ends script.tokens) :
    ∃ longer : Script, longer.tokens = statement.tokens ++ script.tokens ∧
      longer.trees = statement.tree :: script.trees ∧ longer.nesting ≤ nestingLimit := by
  obtain ⟨before, lines⟩ := script
  cases lines with
  | none =>
    exact ⟨⟨⟨[], by simp⟩, some (.last statement before)⟩,
      by simp [Script.tokens, Lines.tokens], rfl, shallow⟩
  | some lines =>
    have apart : before.tokens ≠ [] := by
      intro none
      obtain ⟨token, rest, same, plain⟩ := lines.exists_head
      have separator := ends token (by simp [Script.tokens, none, same])
      simp [plain] at separator
    exact ⟨⟨⟨[], by simp⟩, some (.next statement before apart lines)⟩,
      by simp [Script.tokens, Lines.tokens], rfl, Nat.max_le.mpr ⟨shallow, shallowScript⟩⟩

theorem Script.exists_of_read {size bound : Nat} {given : List Token} {phrases : List Phrase}
    (enough : given.length ≤ bound)
    (success : Reader.statementsUpTo size bound given = .ok phrases) :
    ∃ script : Script, script.tokens = given ∧ script.trees = phrases ∧
      script.nesting ≤ nestingLimit := by
  -- A statement takes at least one token, so the bound is never what ends the script.
  fun_induction Reader.statementsUpTo size bound given generalizing phrases with
  | case1 bound token rest separator ih =>
    obtain ⟨⟨before, lines⟩, rfl, rfl, shallow⟩ := ih (Nat.le_of_succ_le_succ enough) success
    exact ⟨⟨⟨token :: before.tokens, by simp [separator]; exact before.separate⟩, lines⟩,
      rfl, rfl, shallow⟩
  | case2 bound token rest plain ih =>
    obtain ⟨⟨first, behind⟩, readFirst, next⟩ := bind_eq_ok.mp success
    obtain ⟨statement, same, rfl, shallow⟩ := Statement.exists_of_read readFirst
    have enoughBehind : behind.length ≤ bound :=
      Nat.le_of_lt_succ (Nat.lt_of_lt_of_le (Statement.length_lt_of_read readFirst) enough)
    dsimp only at next
    split at next
    · simp only [Except.ok.injEq] at next
      subst next
      rw [← same]
      exact Script.exists_cons statement ⟨⟨[], by simp⟩, none⟩ shallow (Nat.zero_le _) .nil
    · rename_i token behind
      split at next
      · rename_i separator
        obtain ⟨others, readOthers, last⟩ := bind_eq_ok.mp next
        simp only [pure_eq_ok, Except.ok.injEq] at last
        obtain ⟨script, sameScript, rfl, shallowScript⟩ := ih _ _ enoughBehind readOthers
        subst last
        rw [← same, ← sameScript]
        exact Script.exists_cons statement script shallow shallowScript
          (sameScript ▸ .cons _ separator)
      · simp at next
  | case3 bound given none =>
    simp only [Except.ok.injEq] at success
    subst success
    cases given with
    | nil => exact ⟨⟨⟨[], by simp⟩, .none⟩, rfl, rfl, Nat.zero_le _⟩
    | cons token rest =>
      obtain ⟨bound, rfl⟩ := Nat.exists_eq_add_one_of_ne_zero (Nat.ne_zero_of_lt enough)
      exact absurd rfl (none _ _ _ rfl)

end Derivation

namespace Phrase

mutual

def leafSpans : Phrase → List Span
  | node _ span [] => [span]
  | node _ _ (first :: rest) => leafSpans first ++ leafSpansAll rest

def leafSpansAll : List Phrase → List Span
  | [] => []
  | first :: rest => leafSpans first ++ leafSpansAll rest

end

@[simp] theorem leafSpans_leaf (kind : Tree.Kind) (span : Span) :
    (leaf kind span).leafSpans = [span] := rfl

@[simp] theorem leafSpans_wrap (kind : Tree.Kind) (first : Phrase) (rest : List Phrase) :
    (wrap kind first rest).leafSpans = first.leafSpans ++ leafSpansAll rest := rfl

@[simp] theorem leafSpansAll_nil : leafSpansAll [] = [] := rfl

@[simp] theorem leafSpansAll_cons (first : Phrase) (rest : List Phrase) :
    leafSpansAll (first :: rest) = first.leafSpans ++ leafSpansAll rest := rfl

@[simp] theorem leafSpansAll_append (front back : List Phrase) :
    leafSpansAll (front ++ back) = leafSpansAll front ++ leafSpansAll back := by
  induction front with
  | nil => rfl
  | cons first rest ih => simp [ih]

end Phrase

namespace Derivation

theorem leafSpans_tree {category : Category} (derivation : Derivation category) :
    match category, derivation.tree with
    | .form _, phrase => phrase.leafSpans = derivation.tokens.map (·.span)
    | .links _, extend | .applications, extend => ∀ left : Phrase,
      (extend left).leafSpans = left.leafSpans ++ derivation.tokens.map (·.span)
    | .moreArguments, phrases => Phrase.leafSpansAll phrases = derivation.tokens.map (·.span) := by
  -- Only the comma before a closing parenthesis is not laid out by the constructors themselves.
  induction derivation with
  | arguments opening first others trailing closing ihFirst ihOthers =>
    cases trailing <;> simp_all [tree, tokens, trailingTokens]
  | _ => simp_all [tree, tokens]

theorem not_isSeparator_of_isOperator {tier : Tier} {kind : Token.Kind}
    (fits : tier.isOperator kind = true) : kind.isSeparator = false := by
  unfold Token.Kind.isSeparator
  split <;> first | rfl | cases tier <;> simp [Tier.isOperator, Token.Kind.isComparison,
    Token.Kind.isSum, Token.Kind.isProduct] at fits

theorem not_isSeparator_of_mem {category : Category} (derivation : Derivation category) :
    ∀ token ∈ derivation.tokens, token.kind.isSeparator = false := by
  induction derivation with
  | link operator fits operand rest ihOperand ihRest =>
    have plain := not_isSeparator_of_isOperator fits
    simp_all [tokens, or_imp]
  | unary sign fits operand ih =>
    have starts : Form.expression.starts sign.kind = true := by simp [Form.starts, fits]
    have plain := Token.not_isSeparator_of_starts starts
    simp_all [tokens]
  | leaf token kind fits =>
    have starts : Form.expression.starts token.kind = true := by
      simp [Form.starts, Form.starts_of_leaf fits]
    simpa [tokens] using Token.not_isSeparator_of_starts starts
  | arguments opening first others trailing closing ihFirst ihOthers =>
    cases trailing <;> simp_all [tokens, trailingTokens, or_imp, Token.Kind.isSeparator]
  | _ => simp_all [tokens, or_imp, Token.Kind.isSeparator]

theorem Statement.leafSpans_tree (statement : Statement) :
    statement.tree.leafSpans = statement.tokens.map (·.span) := by
  cases statement with
  | pass word => rfl
  | assign name sign value => simp [tree, tokens, Derivation.leafSpans_tree value]
  | expression value => simp [tree, tokens, Derivation.leafSpans_tree value]

theorem Statement.not_isSeparator_of_mem (statement : Statement) {token : Token}
    (member : token ∈ statement.tokens) : token.kind.isSeparator = false := by
  cases statement with
  | pass word => cases List.mem_singleton.mp member; rfl
  | assign name sign value =>
    simp only [tokens, List.mem_cons] at member
    rcases member with rfl | rfl | member
    · rfl
    · rfl
    · exact value.not_isSeparator_of_mem token member
  | expression value => exact value.not_isSeparator_of_mem token member

end Derivation

/-- The tokens that do more than end a statement. -/
def Token.spoken (tokens : List Token) : List Token :=
  tokens.filter (!·.kind.isSeparator)

namespace Token

@[simp] theorem spoken_append (front back : List Token) :
    spoken (front ++ back) = spoken front ++ spoken back :=
  List.filter_append front back

@[simp] theorem spoken_separators (separators : Derivation.Separators) :
    spoken separators.tokens = [] := by
  simpa [spoken] using separators.separate

@[simp] theorem spoken_statement (statement : Derivation.Statement) :
    spoken statement.tokens = statement.tokens := by
  simpa [spoken] using fun _ member => statement.not_isSeparator_of_mem member

end Token

namespace Derivation

theorem Lines.leafSpans_trees (lines : Lines) :
    Phrase.leafSpansAll lines.trees = (Token.spoken lines.tokens).map (·.span) := by
  induction lines with
  | last statement after => simp [trees, tokens, Statement.leafSpans_tree]
  | next statement between apart rest ih => simp [trees, tokens, Statement.leafSpans_tree, ih]

theorem Script.leafSpans_trees (script : Script) :
    Phrase.leafSpansAll script.trees = (Token.spoken script.tokens).map (·.span) := by
  obtain ⟨before, lines⟩ := script
  cases lines with
  | none => simp [trees, tokens]
  | some lines => simp [trees, tokens, Lines.leafSpans_trees]

end Derivation

namespace Phrase

theorem ofTokens_eq_ok {size : Nat} {tokens : List Token} {phrase : Phrase} :
    ofTokens size tokens = .ok phrase ↔
      ∃ script : Derivation.Script, script.tokens = Token.joinLines 0 tokens ∧
        script.nesting ≤ nestingLimit ∧ script.tree size = phrase := by
  constructor
  · intro success
    obtain ⟨phrases, read, last⟩ := bind_eq_ok.mp success
    simp only [pure_eq_ok, Except.ok.injEq] at last
    obtain ⟨script, same, rfl, shallow⟩ := Derivation.Script.exists_of_read (Nat.le_refl _) read
    exact ⟨script, same, shallow, last⟩
  · rintro ⟨script, same, shallow, rfl⟩
    have read := script.read size shallow
    rw [same] at read
    rw [ofTokens, read]
    rfl

end Phrase

end StackScript
