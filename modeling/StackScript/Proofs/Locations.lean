import StackScript.Proofs.Composition
import StackScript.Proofs.LongestMatch
import StackScript.Proofs.Positions
import StackScript.Proofs.Resolution
import StackScript.Proofs.Subexpressions

set_option autoImplicit false

namespace StackScript

variable {α β : Type} {good : Span → Prop}

def CompileError.StandsAt (good : Span → Prop) : CompileError → Prop
  | lexical _ => False
  | fault _ span | reference _ span => good span

def Located (good : Span → Prop) (kept : α → Prop) : Except CompileError α → Prop
  | .ok value => kept value
  | .error error => error.StandsAt good

namespace Located

variable {kept : α → Prop} {after : β → Prop}

theorem bind {result : Except CompileError α} {next : α → Except CompileError β}
    (first : Located good kept result)
    (rest : ∀ value, kept value → Located good after (next value)) :
    Located good after (result >>= next) := by
  cases result with
  | ok value => exact rest value first
  | error error => exact first

theorem mapM {values : List α} {next : α → Except CompileError β}
    (each : ∀ value ∈ values, Located good after (next value)) :
    Located good (fun results => ∀ result ∈ results, after result) (values.mapM next) := by
  induction values with
  | nil =>
    intro result member
    cases member
  | cons first rest ih =>
    rw [List.mapM_cons]
    rw [List.forall_mem_cons] at each
    refine each.1.bind fun result kept => (ih each.2).bind fun results keptAll => ?_
    simpa [Located] using ⟨kept, keptAll⟩

end Located

abbrev Token.AllAt (good : Span → Prop) (tokens : List Token) : Prop :=
  ∀ token ∈ tokens, good token.span

namespace Reader

open Token (AllAt)

variable {size : Nat} {expression exponent factor operand : Reader}

/-- Fails at good spans, and leaves tokens that stand at good spans. -/
def Steady (good : Span → Prop) (reader : List Token → Except CompileError (α × List Token)) :
    Prop :=
  ∀ tokens, AllAt good tokens → Located good (fun result => AllAt good result.2) (reader tokens)

theorem good_nextSpan (ending : good ⟨size, size⟩) {tokens : List Token}
    (all : AllAt good tokens) : good (nextSpan size tokens) := by
  cases tokens with
  | nil => exact ending
  | cons token rest => exact all token (by simp)

theorem steady_tooDeep (ending : good ⟨size, size⟩) : Steady good (tooDeep size) :=
  fun _ all => good_nextSpan ending all

theorem steady_atom (ending : good ⟨size, size⟩) (steady : Steady good expression) :
    Steady good (atom size expression) := by
  intro tokens all
  unfold atom
  split
  case h_7 opening rest =>
    refine (steady rest (List.forall_mem_cons.mp all).2).bind fun result kept => ?_
    obtain ⟨inner, rest⟩ := result
    dsimp only
    split
    next => exact (List.forall_mem_cons.mp kept).2
    next => exact good_nextSpan ending kept
  case h_8 => exact good_nextSpan ending all
  all_goals exact (List.forall_mem_cons.mp all).2

theorem steady_argumentsUpTo (ending : good ⟨size, size⟩) (steady : Steady good expression)
    (bound : Nat) : Steady good (argumentsUpTo size expression bound) := by
  intro tokens all
  fun_induction argumentsUpTo size expression bound tokens with
  | case1 bound closing rest => exact (List.forall_mem_cons.mp all).2
  | case2 tokens => exact good_nextSpan ending all
  | case3 bound tokens notClosed ih =>
    refine (steady tokens all).bind fun result kept => ?_
    obtain ⟨argument, rest⟩ := result
    dsimp only
    split
    next comma behind =>
      exact (ih behind (List.forall_mem_cons.mp kept).2).bind fun _ keptMore => keptMore
    next => exact (List.forall_mem_cons.mp kept).2
    next => exact good_nextSpan ending kept

theorem steady_arguments (ending : good ⟨size, size⟩) (steady : Steady good expression)
    (opening : Span) : Steady good (arguments size expression opening) := fun tokens all =>
  (steady_argumentsUpTo ending steady _ tokens all).bind fun _ kept => kept

theorem steady_callsUpTo (ending : good ⟨size, size⟩) (steady : Steady good expression)
    (bound : Nat) (callee : Phrase) : Steady good (callsUpTo size expression bound callee) := by
  intro tokens all
  fun_induction callsUpTo size expression bound callee tokens with
  | case1 bound callee opening rest ih =>
    exact (steady_arguments ending steady opening rest (List.forall_mem_cons.mp all).2).bind
      fun result kept => ih result.1 result.2 kept
  | case2 => exact all

theorem steady_call (ending : good ⟨size, size⟩) (steady : Steady good expression) :
    Steady good (call size expression) := fun tokens all =>
  (steady_atom ending steady tokens all).bind fun result kept =>
    steady_callsUpTo ending steady _ result.1 result.2 kept

theorem steady_power (ending : good ⟨size, size⟩) (steady : Steady good expression)
    (steadyExponent : Steady good exponent) : Steady good (power size expression exponent) := by
  intro tokens all
  refine (steady_call ending steady tokens all).bind fun result kept => ?_
  obtain ⟨base, rest⟩ := result
  dsimp only
  split
  next sign behind =>
    exact (steadyExponent behind (List.forall_mem_cons.mp kept).2).bind fun _ keptMore => keptMore
  next => exact kept

theorem steady_factorOf (ending : good ⟨size, size⟩) (steady : Steady good expression)
    (steadyFactor : Steady good factor) : Steady good (factorOf size expression factor) := by
  intro tokens all
  cases tokens with
  | nil => exact steady_power ending steady steadyFactor [] all
  | cons token rest =>
    rw [factorOf]
    split
    next => exact (steadyFactor rest (List.forall_mem_cons.mp all).2).bind fun _ kept => kept
    next => exact steady_power ending steady steadyFactor _ all

theorem steady_chainUpTo (isOperator : Token.Kind → Bool) (kind : Tree.Kind)
    (steady : Steady good operand) (bound : Nat) (left : Phrase) :
    Steady good (chainUpTo isOperator kind operand bound left) := by
  intro tokens all
  fun_induction chainUpTo isOperator kind operand bound left tokens with
  | case1 bound left token rest fits ih =>
    exact (steady rest (List.forall_mem_cons.mp all).2).bind fun result kept =>
      ih result.1 result.2 kept
  | case2 => exact all
  | case3 => exact all

theorem steady_chain (isOperator : Token.Kind → Bool) (kind : Tree.Kind)
    (steady : Steady good operand) : Steady good (chain isOperator kind operand) :=
  fun tokens all => (steady tokens all).bind fun result kept =>
    steady_chainUpTo isOperator kind steady _ result.1 result.2 kept

theorem steady_comparison (steady : Steady good factor) : Steady good (comparison factor) :=
  steady_chain _ _ (steady_chain _ _ (steady_chain _ _ steady))

theorem steady_expressionOf (steady : Steady good expression) (steadyFactor : Steady good factor) :
    Steady good (expressionOf expression factor) := by
  intro tokens all
  unfold expressionOf
  split
  next word rest =>
    exact (steady rest (List.forall_mem_cons.mp all).2).bind fun _ kept => kept
  next => exact steady_comparison steadyFactor tokens all

theorem steady_level (ending : good ⟨size, size⟩) (levels : Nat) :
    Steady good (level size levels).expression ∧ Steady good (level size levels).factor := by
  induction levels with
  | zero => exact ⟨steady_tooDeep ending, steady_tooDeep ending⟩
  | succ levels ih =>
    have factor := steady_factorOf ending ih.1 ih.2
    exact ⟨steady_expressionOf ih.1 factor, factor⟩

theorem steady_statement (ending : good ⟨size, size⟩) : Steady good (statement size) := by
  have steady : Steady good (Reader.expression size) := (steady_level ending nestingLimit).1
  intro tokens all
  unfold statement
  split
  next => exact (List.forall_mem_cons.mp all).2
  next name sign rest =>
    have behind := (List.forall_mem_cons.mp (List.forall_mem_cons.mp all).2).2
    exact (steady rest behind).bind fun _ kept => kept
  next => exact (steady tokens all).bind fun _ kept => kept

theorem located_statementsUpTo (ending : good ⟨size, size⟩) (bound : Nat) {tokens : List Token}
    (all : AllAt good tokens) :
    Located good (fun _ => True) (statementsUpTo size bound tokens) := by
  fun_induction statementsUpTo size bound tokens with
  | case1 bound token rest separator ih => exact ih (List.forall_mem_cons.mp all).2
  | case2 bound token rest plain ih =>
    refine (steady_statement ending (token :: rest) all).bind fun result kept => ?_
    obtain ⟨first, rest⟩ := result
    cases rest with
    | nil => trivial
    | cons next behind =>
      dsimp only
      split
      next => exact (ih next behind kept).bind fun _ _ => trivial
      next => exact good_nextSpan ending kept
  | case3 => trivial

end Reader

abbrev Phrase.EveryAt (good : Span → Prop) (phrase : Phrase) : Prop :=
  phrase.Every fun part => good part.span

abbrev Expr.EveryAt (good : Span → Prop) (expr : Expr) : Prop :=
  expr.Every fun part => good part.span

theorem Literal.located_read {span : Span} (here : good span) (text : List Char) :
    Located good (fun _ => True) (Literal.read text span) := by
  unfold Literal.read
  split
  next => trivial
  next => exact here
  next => exact here

theorem Walk.located_applied {source : List Char} {span callee : Span} (here : good span)
    (hereCallee : good callee) {values : List Expr}
    (every : ∀ value ∈ values, value.EveryAt good) :
    Located good (Expr.EveryAt good) (applied source span callee values) := by
  unfold applied
  split
  next argument =>
    split
    next => exact ⟨here, every argument (by simp)⟩
    next => exact hereCallee
  next first second =>
    split
    next => exact ⟨here, every first (by simp), every second (by simp)⟩
    next => exact hereCallee
  next => exact here

namespace Phrase

variable {source : List Char} {phrase : Phrase}

theorem located_complain {kept : α → Prop} (here : good phrase.span)
    (complaint : Fault.Complaint) : Located good kept (complain source complaint phrase) :=
  here

section Parts

variable {part : Phrase → Except CompileError Expr}

theorem located_toArguments
    (located : ∀ child : Phrase, child.EveryAt good → Located good (Expr.EveryAt good) (part child))
    {phrases : List Phrase} (every : ∀ child ∈ phrases, child.EveryAt good) :
    Located good (fun values => ∀ value ∈ values, value.EveryAt good)
      (toArguments source part phrases) := by
  fun_induction toArguments source part phrases with
  | case1 => simp [Located]
  | case2 => simp [Located]
  | case3 first rest notClosed ih =>
    rw [List.forall_mem_cons] at every
    refine (located first every.1).bind fun value kept => ?_
    cases rest with
    | nil => simpa [Located] using kept
    | cons separator behind =>
      rw [List.forall_mem_cons] at every
      dsimp only
      split
      next =>
        refine (ih every.2.2).bind fun values keptAll => ?_
        simpa [Located] using ⟨kept, keptAll⟩
      next => simpa [Located] using kept
      next => exact located_complain every.2.1.here _

theorem located_argumentList
    (located : ∀ child : Phrase, child.EveryAt good → Located good (Expr.EveryAt good) (part child))
    (every : phrase.EveryAt good) :
    Located good (fun values => ∀ value ∈ values, value.EveryAt good)
      (argumentList source part phrase) := by
  unfold argumentList
  split
  next =>
    split
    next => exact located_complain every.here _
    next opening rest children =>
      have inside := every.inside
      rw [children, List.forall_mem_cons] at inside
      exact located_toArguments located inside.2
  next => exact located_complain every.here _

theorem located_toCall
    (located : ∀ child : Phrase, child.EveryAt good → Located good (Expr.EveryAt good) (part child))
    (every : phrase.EveryAt good) :
    Located good (Expr.EveryAt good) (phrase.toCall source part) := by
  have inside := every.inside
  unfold toCall
  split
  next => exact located_complain every.here _
  next callee alone =>
    rw [alone, List.forall_mem_singleton] at inside
    exact located_complain inside.here _
  next callee list rest children =>
    rw [children, List.forall_mem_cons, List.forall_mem_cons] at inside
    exact (located_argumentList located inside.2.1).bind fun values kept =>
      Walk.located_applied every.here inside.1.here kept

theorem located_toUnary (every : phrase.EveryAt good) :
    Located good (Expr.EveryAt good) (phrase.toUnary source) := by
  have inside := every.inside
  unfold toUnary
  split
  next => exact located_complain every.here _
  next sign rest children =>
    rw [children, List.forall_mem_cons] at inside
    split
    next => exact located_complain inside.1.here _
    next =>
      split
      next => exact located_complain inside.1.here _
      next operand behind =>
        rw [List.forall_mem_cons] at inside
        split
        next => exact located_complain inside.2.1.here _
        next => exact (Literal.located_read every.here _).bind fun _ _ => every.here

theorem located_toBinary
    (located : ∀ child : Phrase, child.EveryAt good → Located good (Expr.EveryAt good) (part child))
    (every : phrase.EveryAt good) :
    Located good (Expr.EveryAt good) (phrase.toBinary source part) := by
  have inside := every.inside
  unfold toBinary
  split
  next => exact located_complain every.here _
  next left rest children =>
    rw [children, List.forall_mem_cons] at inside
    refine (located left inside.1).bind fun first keptFirst => ?_
    split
    next => exact located_complain inside.1.here _
    next sign behind =>
      rw [List.forall_mem_cons] at inside
      split
      next => exact located_complain inside.2.1.here _
      next operator symbol =>
        split
        next => exact located_complain inside.2.1.here _
        next right others =>
          rw [List.forall_mem_cons] at inside
          exact (located right inside.2.2.1).bind fun second keptSecond =>
            ⟨every.here, keptFirst, keptSecond⟩

end Parts

theorem located_toExprOf {call binary : Phrase → Except CompileError Expr}
    (every : phrase.EveryAt good) (locatedCall : Located good (Expr.EveryAt good) (call phrase))
    (locatedBinary : Located good (Expr.EveryAt good) (binary phrase)) :
    Located good (Expr.EveryAt good) (phrase.toExprOf source call binary) := by
  unfold toExprOf
  cases phrase.kind with
  | number => exact (Literal.located_read every.here _).bind fun _ _ => every.here
  | variableName => exact every.here
  | callExpression => exact locatedCall
  | unaryExpression => exact located_toUnary every
  | binaryExpression => exact locatedBinary
  | _ => exact located_complain every.here _

theorem located_toExpr (levels : Nat) (every : phrase.EveryAt good) :
    Located good (Expr.EveryAt good) (phrase.toExpr source levels) := by
  induction levels generalizing phrase with
  | zero => exact located_toExprOf every every.here every.here
  | succ levels ih =>
    exact located_toExprOf every (located_toCall (fun _ => ih) every)
      (located_toBinary (fun _ => ih) every)

theorem located_toStatement (levels : Nat) (every : phrase.EveryAt good) :
    Located good (fun statement => statement.value.EveryAt good)
      (phrase.toStatement source levels) := by
  have inside := every.inside
  unfold toStatement
  cases phrase.kind with
  | assignStatement =>
    dsimp only
    split
    next => exact located_complain every.here _
    next target rest children =>
      rw [children, List.forall_mem_cons] at inside
      split
      next => exact located_complain inside.1.here _
      next =>
        split
        next => exact located_complain inside.1.here _
        next sign =>
          rw [List.forall_mem_singleton] at inside
          exact located_complain inside.2.here _
        next sign value others =>
          rw [List.forall_mem_cons, List.forall_mem_cons] at inside
          exact (located_toExpr levels inside.2.2.1).bind fun _ kept => kept
  | expressionStatement =>
    dsimp only
    split
    next => exact located_complain every.here _
    next value rest children =>
      rw [children, List.forall_mem_cons] at inside
      exact (located_toExpr levels inside.1).bind fun _ kept => kept
  | _ => exact located_complain every.here _

theorem located_toProgram (levels : Nat) (every : phrase.EveryAt good) :
    Located good (Program.Every fun part => good part.span) (phrase.toProgram source levels) := by
  unfold toProgram
  split
  next => exact located_complain every.here _
  next =>
    split
    next => exact every.here
    next =>
      have each : ∀ child ∈ phrase.children, Located good
          (fun statement => statement.value.EveryAt good) (child.toStatement source levels) :=
        fun child member => located_toStatement levels (every.inside child member)
      exact (Located.mapM each).bind fun _ kept => kept

end Phrase

theorem Expr.Every.leaves {holds : Expr → Prop} {expr : Expr} (every : expr.Every holds) :
    ∀ leaf ∈ expr.leaves, holds leaf := by
  induction expr with
  | number | identifier => simpa [Expr.leaves, Expr.Every] using every
  | unaryCall span builtin argument ih => exact ih every.2
  | binary span operator left right ihLeft ihRight
  | binaryCall span builtin left right ihLeft ihRight =>
    simp only [Expr.leaves, List.forall_mem_append]
    exact ⟨ihLeft every.2.1, ihRight every.2.2⟩

theorem Expr.standsAt_of_offence {names : Names} {leaf : Expr} {error : CompileError}
    (here : good leaf.span) (offence : leaf.offence? names = some error) :
    error.StandsAt good := by
  cases leaf with
  | number | identifier =>
    simp only [offence?, Option.ite_none_left_eq_some, Option.some.injEq] at offence
    rw [← offence.2]
    exact here
  | _ => cases offence

theorem Program.located_compile {program : Program}
    (every : program.Every fun part => good part.span) :
    Located good (fun _ => True) program.compile := by
  cases compiled : program.compile with
  | ok code => trivial
  | error error =>
    have first := failure?_eq_some.mpr compiled
    rw [failure?_compile] at first
    obtain ⟨⟨leaf, index⟩, member, offence⟩ := List.exists_of_findSome?_eq_some first
    simp only [leaves, List.mem_flatMap, List.mem_map, Prod.mk.injEq] at member
    obtain ⟨⟨statement, place⟩, inProgram, leaf, isLeaf, rfl, rfl⟩ := member
    have inStatement := every statement (List.fst_mem_of_mem_zipIdx inProgram)
    exact Expr.standsAt_of_offence (inStatement.leaves leaf isLeaf) offence

namespace Span

def LiesIn (source : List Char) (span : Span) : Prop :=
  ∃ before text after, span.Covers source before text after

theorem Within.liesIn {source : List Char} {span : Span} (within : span.Within source) :
    span.LiesIn source := by
  obtain ⟨before, text, after, same, -, isSpan⟩ := within
  exact ⟨before, text, after, same, isSpan⟩

theorem liesIn_whole (source : List Char) : (⟨0, Text.byteLength source⟩ : Span).LiesIn source :=
  ⟨[], source, [], by simp, by simp [Text.byteLength]⟩

theorem liesIn_end (source : List Char) :
    (⟨Text.byteLength source, Text.byteLength source⟩ : Span).LiesIn source :=
  ⟨source, [], [], by simp, by simp [Text.byteLength]⟩

theorem LiesIn.join {source : List Char} {first last : Span} (starts : first.LiesIn source)
    (stops : last.LiesIn source) (ordered : first.start ≤ last.stop) :
    (⟨first.start, last.stop⟩ : Span).LiesIn source := by
  obtain ⟨before, text, after, same, rfl⟩ := starts
  obtain ⟨front, inside, behind, rfl, rfl⟩ := stops
  rw [List.append_assoc before] at same
  -- The text between the two cuts; with the cuts in order it is not a text taken back.
  rcases List.append_eq_append_iff.mp same with ⟨middle, rfl, -⟩ | ⟨middle, joined, -⟩
  next =>
    refine ⟨front ++ inside, [], behind, by simp, ?_⟩
    simp only [Text.byteLength_append, Text.byteLength, mk.injEq] at ordered ⊢
    omega
  next =>
    refine ⟨before, middle, behind, by rw [joined], ?_⟩
    have length := congrArg Text.byteLength joined
    rw [Text.byteLength_append, Text.byteLength_append] at length
    rw [length]

end Span

theorem Phrase.Exact.liesIn {source : List Char} {tokens : List Token}
    (placed : Token.Placed source tokens) {phrase : Phrase}
    (shaped : phrase.Exact (tokens.map (·.span))) : phrase.span.LiesIn source := by
  obtain ⟨first, firstMember, start⟩ := shaped.spread.start
  obtain ⟨last, lastMember, stop⟩ := shaped.spread.stop
  obtain ⟨firstToken, inTokens, rfl⟩ := List.mem_map.mp firstMember
  obtain ⟨lastToken, lastInTokens, rfl⟩ := List.mem_map.mp lastMember
  have lt := shaped.spread.lt
  have joined := (placed.within firstToken inTokens).liesIn.join
    (placed.within lastToken lastInTokens).liesIn (by omega)
  rwa [← start, ← stop] at joined

theorem Phrase.located_ofTokens {source : List Char} {tokens : List Token}
    (placed : Token.Placed source tokens) :
    Located (Span.LiesIn source) (EveryAt (Span.LiesIn source))
      (ofTokens (Text.byteLength source) tokens) := by
  cases read : ofTokens (Text.byteLength source) tokens with
  | ok phrase =>
    obtain ⟨statements, rfl, -, shaped, -⟩ := exact_of_ofTokens placed read
    refine .node (Span.liesIn_whole source) fun statement member => ?_
    exact (shaped statement member).imp fun _ => Exact.liesIn placed
  | error error =>
    have all : Token.AllAt (Span.LiesIn source) (Token.joinLines 0 tokens) := fun token member =>
      (placed.within token ((Token.sublist_joinLines 0 tokens).subset member)).liesIn
    have located : Located (Span.LiesIn source) (fun _ => True)
        (ofTokens (Text.byteLength source) tokens) :=
      (Reader.located_statementsUpTo (Span.liesIn_end source) _ all).bind fun _ _ => trivial
    rwa [read] at located

theorem located_compile {source : List Char} {tokens : List Token}
    (scanned : Token.ofSource source = .ok tokens) :
    Located (Span.LiesIn source) (fun _ => True) (compile source) := by
  by_cases empty : source = []
  next =>
    subst empty
    exact Span.liesIn_whole []
  next =>
    have placed := Token.placed_of_ofSource scanned
    rw [compile, Program.ofSource_eq empty, Phrase.ofSource, scanned]
    have read : Located (Span.LiesIn source) (Program.Every fun part => part.span.LiesIn source)
        (Phrase.ofTokens (Text.byteLength source) tokens >>= fun phrase =>
          phrase.toProgram source nestingLimit) :=
      (Phrase.located_ofTokens placed).bind fun _ every =>
        Phrase.located_toProgram nestingLimit every
    exact read.bind fun _ every => Program.located_compile every

theorem Token.exists_of_ofSource_error {source : List Char} {error : LexicalError}
    (failed : ofSource source = .error error) :
    ∃ before after, error.span.Covers source before [error.character] after := by
  obtain ⟨offset, stuck, rfl⟩ := mapError_eq_error.mp failed
  obtain ⟨before, character, after, -, rfl, rfl, -, -⟩ := exists_of_scan_error stuck
  have reported : (LexicalError.ofOffset (before ++ character :: after)
      (0 + Text.byteLength before)).character = character := by
    rw [LexicalError.ofOffset, Nat.zero_add, Text.cut?_byteLength]
    rfl
  refine ⟨before, after, by rw [reported]; simp, ?_⟩
  rw [LexicalError.span, reported]
  simp [LexicalError.ofOffset, Text.byteLength]

theorem compile_of_ofSource_error {source : List Char} {lexical : LexicalError}
    (scanned : Token.ofSource source = .error lexical) :
    compile source = .error (.lexical lexical) := by
  obtain ⟨before, after, same, -⟩ := Token.exists_of_ofSource_error scanned
  have nonempty : source ≠ [] := by simp [same]
  rw [compile, Program.ofSource_eq nonempty, Phrase.ofSource, scanned]
  rfl

/-- The span of every error lies in the source. Under that of a lexical error stands the character
that it reports. Any other is reported with the line and the column that it starts at, and with the
line itself, trimmed, unless nothing is left of it. -/
theorem compile_error_lies_in_source {source : List Char} {error : CompileError}
    (failed : compile source = .error error) :
    ∃ before text after, error.span.Covers source before text after ∧
      (∀ lexical, error = .lexical lexical → error.span.slice source = [lexical.character]) ∧
      ((∀ lexical, error ≠ .lexical lexical) → ∃ left right,
        Text.LineAt before (text ++ after) left right ∧
        error.report source = error.message ++ "\n  --> line " ++
          toString (1 + before.count '\n') ++ ", column " ++ toString (1 + left.length) ++
          if (Text.trim (left ++ right)).isEmpty then ""
          else "\n  | " ++ String.ofList (Text.trim (left ++ right))) := by
  cases scanned : Token.ofSource source with
  | error lexical =>
    obtain rfl := Except.error.inj ((compile_of_ofSource_error scanned).symm.trans failed)
    obtain ⟨before, after, covers⟩ := Token.exists_of_ofSource_error scanned
    refine ⟨before, [lexical.character], after, covers, ?_, ?_⟩
    next =>
      intro other same
      cases same
      rw [CompileError.span, covers.2, covers.1, Span.slice_append]
    next => exact fun behind => absurd rfl (behind lexical)
  | ok tokens =>
    have located := located_compile scanned
    rw [failed] at located
    have lies : error.span.LiesIn source := by
      cases error with
      | lexical lexical => exact located.elim
      | fault cause span | reference name span => exact located
    obtain ⟨before, text, after, covers⟩ := lies
    refine ⟨before, text, after, covers, ?_, ?_⟩
    next =>
      rintro lexical rfl
      exact located.elim
    next =>
      intro behind
      obtain ⟨rfl, same⟩ := covers
      rw [List.append_assoc]
      exact CompileError.exists_report behind (by rw [same])

theorem compile_error_lies_in_call :
    ∃ error before text after left right,
      compile "# é\n  max(x, \"ü\") - 1".toList = .error error ∧
      error.span.Covers "# é\n  max(x, \"ü\") - 1".toList before text after ∧
      Text.LineAt before (text ++ after) left right ∧
      error.report "# é\n  max(x, \"ü\") - 1".toList = error.message ++ "\n  --> line " ++
        toString (1 + before.count '\n') ++ ", column " ++ toString (1 + left.length) ++
        (if (Text.trim (left ++ right)).isEmpty then ""
        else "\n  | " ++ String.ofList (Text.trim (left ++ right))) ∧
      error.report "# é\n  max(x, \"ü\") - 1".toList =
        "ParseError: UnsupportedExpression at 14..18 - Not in grammar: '\"ü\"'" ++
          "\n  --> line 2, column 10\n  | max(x, \"ü\") - 1" := by
  have failed : compile "# é\n  max(x, \"ü\") - 1".toList =
      .error (.fault (.shape .expression "\"ü\"") ⟨14, 18⟩) :=
    failure?_eq_some.mp (by decide +kernel)
  obtain ⟨before, text, after, covers, -, reported⟩ := compile_error_lies_in_source failed
  obtain ⟨left, right, lineAt, report⟩ := reported (by simp)
  exact ⟨_, before, text, after, left, right, failed, covers, lineAt, report, by decide +kernel⟩

end StackScript
