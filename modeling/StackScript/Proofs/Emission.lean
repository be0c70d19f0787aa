import StackScript.Program.Code
import StackScript.Proofs.Printable

/-!
Statements that are generated one after another, going on after failures. Here code is written piece
by piece beside a shared list of names, and a failure keeps what was written until then; still a
statement that fails leaves the names as they were, and one that succeeds adds its target at most.
-/

set_option autoImplicit false

namespace StackScript

structure Emission where
  code : Code
  names : Names

/-- Writes on. When it fails, the code that was written up to there stays. -/
def Emitter : Type :=
  Emission → Except CompileError Unit × Emission

namespace Emitter

def fail (error : CompileError) : Emitter := fun emission =>
  (.error error, emission)

def write (instruction : Instruction) : Emitter := fun emission =>
  (.ok (), { emission with code := emission.code ++ [instruction] })

def define (name : String) : Emitter := fun emission =>
  (.ok (), { emission with names := emission.names.define name })

def read (span : Span) (name : String) : Emitter := fun emission =>
  if name ∈ emission.names then write (.get (.named name)) emission
  else fail (.reference name span) emission

def andThen (first second : Emitter) : Emitter := fun emission =>
  match first emission with
  | (.ok (), next) => second next
  | (.error error, stuck) => (.error error, stuck)

end Emitter

def Expr.emit : Expr → Emitter
  | number span value =>
    if Decimal.fits value then .write (.const (Int32.ofInt value))
    else .fail (.fault (.constantOutOfRange value) span)
  | identifier span name => .read span name
  | binary _ operator left right =>
    (left.emit.andThen right.emit).andThen (.write (.arith operator))
  | unaryCall _ builtin argument => argument.emit.andThen (.write (.call builtin))
  | binaryCall _ builtin first second =>
    (first.emit.andThen second.emit).andThen (.write (.call builtin))

namespace Statement

def emit : Statement → Emitter
  | define _ name value => (value.emit.andThen (.write (.set (.named name)))).andThen (.define name)
  | expression _ value => value.emit.andThen (.write (.set .scratch))

/-- Writes the statement on its own. The code of a failure is dropped, the names are not. -/
def emitted (names : Names) (statement : Statement) : Except CompileError Code × Names :=
  match statement.emit ⟨[], names⟩ with
  | (.ok (), done) => (.ok done.code, done.names)
  | (.error error, stuck) => (.error error, stuck.names)

end Statement

namespace Emitter

def Emits (names : Names) (emitter : Emitter) : Except CompileError Code → Prop
  | .ok code => ∀ written, emitter ⟨written, names⟩ = (.ok (), ⟨written ++ code, names⟩)
  | .error error => ∀ written, ∃ part,
      emitter ⟨written, names⟩ = (.error error, ⟨written ++ part, names⟩)

namespace Emits

variable {names : Names}

theorem write (instruction : Instruction) :
    Emits names (Emitter.write instruction) (.ok [instruction]) :=
  fun _ => rfl

theorem fail (error : CompileError) : Emits names (Emitter.fail error) (.error error) :=
  fun written => ⟨[], by rw [List.append_nil]; rfl⟩

theorem read (span : Span) (name : String) :
    Emits names (Emitter.read span name)
      (if name ∈ names then .ok [.get (.named name)] else .error (.reference name span)) := by
  by_cases known : name ∈ names
  next =>
    rw [if_pos known]
    intro written
    exact if_pos known
  next =>
    rw [if_neg known]
    intro written
    exact ⟨[], by rw [Emitter.read, if_neg known, List.append_nil]; rfl⟩

theorem andThen {first second : Emitter} {result other : Except CompileError Code}
    (emits : Emits names first result) (emitsSecond : Emits names second other) :
    Emits names (first.andThen second) (do return (← result) ++ (← other)) := by
  cases result with
  | error error =>
    intro written
    obtain ⟨part, stuck⟩ := emits written
    exact ⟨part, by rw [Emitter.andThen, stuck]⟩
  | ok code =>
    cases other with
    | error error =>
      intro written
      obtain ⟨part, stuck⟩ := emitsSecond (written ++ code)
      exact ⟨code ++ part, by rw [Emitter.andThen, emits written, ← List.append_assoc, ← stuck]⟩
    | ok more =>
      intro written
      rw [Emitter.andThen, emits written, ← List.append_assoc]
      exact emitsSecond (written ++ code)

theorem andWrite {first : Emitter} {result : Except CompileError Code}
    (emits : Emits names first result) (instruction : Instruction) :
    Emits names (first.andThen (.write instruction)) (do return (← result) ++ [instruction]) :=
  emits.andThen (.write instruction)

theorem fresh {emitter : Emitter} {result : Except CompileError Code}
    (emits : Emits names emitter result) :
    (∃ code, result = .ok code ∧ emitter ⟨[], names⟩ = (.ok (), ⟨code, names⟩)) ∨
      ∃ error part, result = .error error ∧
        emitter ⟨[], names⟩ = (.error error, ⟨part, names⟩) := by
  cases result with
  | ok code => exact .inl ⟨code, rfl, emits []⟩
  | error error =>
    obtain ⟨part, stuck⟩ := emits []
    exact .inr ⟨error, part, rfl, stuck⟩

end Emits

end Emitter

theorem Expr.emits_code (names : Names) (expr : Expr) :
    expr.emit.Emits names (expr.code names) := by
  induction expr with
  | number span value =>
    rw [emit, code]
    split
    next => exact .write _
    next => exact .fail _
  | identifier span name => exact .read span name
  | binary span operator left right ihLeft ihRight =>
    have emits := (ihLeft.andThen ihRight).andWrite (.arith operator)
    simp only [bind_assoc, pure_bind] at emits
    exact emits
  | unaryCall span builtin argument ih => exact ih.andWrite (.call builtin)
  | binaryCall span builtin first second ihFirst ihSecond =>
    have emits := (ihFirst.andThen ihSecond).andWrite (.call builtin)
    simp only [bind_assoc, pure_bind] at emits
    exact emits

theorem Expr.code_mono {names wider : Names} (within : ∀ name ∈ names, name ∈ wider) {expr : Expr}
    {code : Code} (coded : expr.code names = .ok code) : expr.code wider = .ok code := by
  induction expr generalizing code with
  | number span value => exact coded
  | identifier span name =>
    rw [Expr.code] at coded ⊢
    split at coded
    next known => rwa [if_pos (within name known)]
    next => cases coded
  | binary span operator left right ihLeft ihRight =>
    obtain ⟨leftCode, leftCoded, coded⟩ := bind_eq_ok.mp coded
    obtain ⟨rightCode, rightCoded, coded⟩ := bind_eq_ok.mp coded
    rw [Expr.code, ihLeft leftCoded, ihRight rightCoded]
    exact coded
  | unaryCall span builtin argument ih =>
    obtain ⟨argumentCode, argumentCoded, coded⟩ := bind_eq_ok.mp coded
    rw [Expr.code, ih argumentCoded]
    exact coded
  | binaryCall span builtin first second ihFirst ihSecond =>
    obtain ⟨firstCode, firstCoded, coded⟩ := bind_eq_ok.mp coded
    obtain ⟨secondCode, secondCoded, coded⟩ := bind_eq_ok.mp coded
    rw [Expr.code, ihFirst firstCoded, ihSecond secondCoded]
    exact coded

namespace Statement

theorem code_mono {names wider : Names} (within : ∀ name ∈ names, name ∈ wider)
    {statement : Statement} {code : Code} (coded : statement.code names = .ok code) :
    statement.code wider = .ok code := by
  cases statement with
  | define span name value | expression span value =>
    obtain ⟨valueCode, valueCoded, coded⟩ := bind_eq_ok.mp coded
    rw [Statement.code, Expr.code_mono within valueCoded]
    exact coded

theorem generate_fst (names : Names) (statement : Statement) :
    (statement.generate names).1 = statement.code names := by
  rw [generate]
  cases statement.code names <;> rfl

theorem emitted_eq_generate (names : Names) (statement : Statement) :
    statement.emitted names = statement.generate names := by
  rw [emitted, generate]
  cases statement with
  | define span name value =>
    have emits : Emitter.Emits names _ ((define span name value).code names) :=
      (value.emits_code names).andWrite (.set (.named name))
    rw [emit, Emitter.andThen]
    rcases emits.fresh with ⟨code, coded, done⟩ | ⟨error, part, coded, stuck⟩
    next =>
      rw [coded, done]
      rfl
    next => rw [coded, stuck]
  | expression span value =>
    have emits : Emitter.Emits names _ ((expression span value).code names) :=
      (value.emits_code names).andWrite (.set .scratch)
    rw [emit]
    rcases emits.fresh with ⟨code, coded, done⟩ | ⟨error, part, coded, stuck⟩
    next =>
      rw [coded, done]
      rfl
    next => rw [coded, stuck]

inductive Settles : Statement → Except CompileError Code → Names → Names → Prop
  | failed (statement : Statement) (error : CompileError) (names : Names) :
      Settles statement (.error error) names names
  | again (span : Span) {name : String} (value : Expr) (code : Code) {names : Names}
      (known : name ∈ names) : Settles (.define span name value) (.ok code) names names
  | new (span : Span) {name : String} (value : Expr) (code : Code) {names : Names}
      (unknown : name ∉ names) :
      Settles (.define span name value) (.ok code) names (names ++ [name])
  | kept (span : Span) (value : Expr) (code : Code) (names : Names) :
      Settles (.expression span value) (.ok code) names names

theorem settles_generate (names : Names) (statement : Statement) :
    statement.Settles (statement.generate names).1 names (statement.generate names).2 := by
  rw [generate]
  cases statement.code names with
  | error error => exact .failed statement error names
  | ok code =>
    cases statement with
    | define span name value =>
      simp only [defines, Names.define]
      split
      next known => exact .again span value code known
      next unknown => exact .new span value code unknown
    | expression span value => exact .kept span value code names

def defined? (statement : Statement) : Except CompileError Code → Option String
  | .ok _ => statement.target?
  | .error _ => none

def successes (statements : List Statement) (results : List (Except CompileError Code)) :
    List String :=
  (List.zipWith defined? statements results).filterMap id

def additions (names : Names) (targets : List String) : Names :=
  (targets.filter (· ∉ names)).eraseDups

theorem append_additions_of_settles {statement : Statement} {result : Except CompileError Code}
    {names after : Names} (settles : statement.Settles result names after) (rest : List String) :
    after ++ additions after rest =
      names ++ additions names ((statement.defined? result).toList ++ rest) := by
  cases settles with
  | failed => rfl
  | again span value code known => simp [defined?, target?, additions, known]
  | new span value code unknown =>
    simp [defined?, target?, additions, unknown, List.eraseDups_cons, List.filter_filter, and_comm,
      beq_eq_decide]
  | kept => rfl

theorem generateEach_cons (names : Names) (first : Statement) (rest : List Statement) :
    generateEach names (first :: rest) =
      ((first.generate names).1 :: (generateEach (first.generate names).2 rest).1,
        (generateEach (first.generate names).2 rest).2) :=
  rfl

theorem generateEach_append (names : Names) (front back : List Statement) :
    generateEach names (front ++ back) =
      ((generateEach names front).1 ++ (generateEach (generateEach names front).2 back).1,
        (generateEach (generateEach names front).2 back).2) := by
  induction front generalizing names with
  | nil => rfl
  | cons first rest ih => simp [generateEach_cons, ih]

theorem length_generateEach (names : Names) (statements : List Statement) :
    (generateEach names statements).1.length = statements.length := by
  induction statements generalizing names with
  | nil => rfl
  | cons first rest ih => simp [generateEach_cons, ih]

theorem successes_cons (first : Statement) (rest : List Statement)
    (result : Except CompileError Code) (results : List (Except CompileError Code)) :
    successes (first :: rest) (result :: results) =
      (first.defined? result).toList ++ successes rest results := by
  rw [successes, List.zipWith_cons_cons, List.filterMap_cons]
  cases first.defined? result <;> rfl

theorem names_generateEach (names : Names) (statements : List Statement) :
    (generateEach names statements).2 =
      names ++ additions names (successes statements (generateEach names statements).1) := by
  induction statements generalizing names with
  | nil => simp [generateEach, successes, additions]
  | cons first rest ih =>
    rw [generateEach_cons, ih, append_additions_of_settles (settles_generate names first),
      successes_cons]

/-- Generation is atomic, and what can be generated still can with more names. In a run that goes on
after failures each statement is written piece by piece beside the names that were left to it; it
changes them only if it succeeds, and then by its target alone. So the names in the end are those of
the start, and behind them the new targets of the definitions that succeeded, each once. -/
theorem generation_is_atomic (names : Names) (statements : List Statement) :
    (∀ front statement back, statements = front ++ statement :: back →
      ∃ result, (generateEach names statements).1[front.length]? = some result ∧
        statement.emitted (generateEach names front).2 =
          (result, (generateEach names (front ++ [statement])).2) ∧
        statement.Settles result (generateEach names front).2
          (generateEach names (front ++ [statement])).2) ∧
    (generateEach names statements).2 = names ++
      ((successes statements (generateEach names statements).1).filter (· ∉ names)).eraseDups ∧
    ∀ (statement : Statement) (wider : Names) (code : Code), (∀ name ∈ names, name ∈ wider) →
      (statement.generate names).1 = .ok code → (statement.generate wider).1 = .ok code := by
  refine ⟨?_, names_generateEach names statements, ?_⟩
  next =>
    rintro front statement back rfl
    have after : (generateEach names (front ++ [statement])).2 =
        (statement.generate (generateEach names front).2).2 := by
      rw [generateEach_append]
      rfl
    refine ⟨(statement.generate (generateEach names front).2).1, ?_, ?_, ?_⟩
    next =>
      rw [generateEach_append, ← length_generateEach names front, generateEach_cons]
      simp
    next => rw [emitted_eq_generate, after]
    next =>
      rw [after]
      exact settles_generate _ statement
  next =>
    intro statement wider code within coded
    rw [generate_fst] at coded ⊢
    exact code_mono within coded

-- `x = 1 - y`, `x = 2`, `a = x`, `z = max(a, 2147483648)`, `print(x)`.
def interrupted : List Statement :=
  let here : Span := ⟨0, 0⟩
  [.define here "x" (.binary here .sub (.number here 1) (.identifier here "y")),
    .define here "x" (.number here 2), .define here "a" (.identifier here "x"),
    .define here "z" (.binaryCall here .max (.identifier here "a") (.number here 2147483648)),
    .expression here (.unaryCall here .print (.identifier here "x"))]

theorem interrupted_generation :
    ∃ fourth, interrupted[3]? = some fourth ∧
      (fourth.emit ⟨[], ["a", "x"]⟩).2.code = [.get (.named "a")] ∧
      (∃ error, (generateEach ["a"] interrupted).1[3]? = some (.error error) ∧
        fourth.emitted ["a", "x"] = (.error error, ["a", "x"]) ∧
        fourth.Settles (.error error) ["a", "x"] ["a", "x"]) ∧
      (generateEach ["a"] interrupted).2 = ["a"] ++ ["x"] ∧
      ((expression ⟨0, 1⟩ (.identifier ⟨0, 1⟩ "a")).generate ["x", "a"]).1 =
        .ok [.get (.named "a"), .set .scratch] := by
  obtain ⟨atomic, final, mono⟩ := generation_is_atomic ["a"] interrupted
  obtain ⟨result, found, emitted, settles⟩ :=
    atomic (interrupted.take 3) _ _ (List.take_append_drop 3 interrupted).symm
  obtain rfl := Option.some.inj found
  exact ⟨_, rfl, rfl, ⟨_, found, emitted, settles⟩, final, mono _ _ _ (by simp) rfl⟩

end Statement

end StackScript
