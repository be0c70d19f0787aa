import Mathlib.Logic.Function.Basic
import StackScript.Machine
import StackScript.Program.Code
import StackScript.Proofs.Except
import StackScript.Proofs.Parts
import StackScript.Proofs.Word

set_option autoImplicit false

namespace StackScript

abbrev Environment := String → Option Int32

structure Evaluation where
  environment : Environment := fun _ => none
  result : Int32 := 0
  output : String := ""

namespace Expr

/-- The value of an expression and what it prints, operands and arguments from left to right. -/
def evaluate (environment : Environment) : Expr → Option (Int32 × String)
  | number _ value => some (Int32.ofInt value, "")
  | identifier _ name => (environment name).map (·, "")
  | binary _ operator left right => do
    let (leftValue, leftPrinted) ← left.evaluate environment
    let (rightValue, rightPrinted) ← right.evaluate environment
    some (Int32.ofInt (operator.exact leftValue.toInt rightValue.toInt),
      leftPrinted ++ rightPrinted)
  | unaryCall _ builtin argument => do
    let (value, printed) ← argument.evaluate environment
    let result ← builtin.value? [value.toInt]
    some (Int32.ofInt result, printed ++ builtin.printed result)
  | binaryCall _ builtin first second => do
    let (firstValue, firstPrinted) ← first.evaluate environment
    let (secondValue, secondPrinted) ← second.evaluate environment
    let result ← builtin.value? [firstValue.toInt, secondValue.toInt]
    some (Int32.ofInt result, firstPrinted ++ secondPrinted ++ builtin.printed result)

end Expr

namespace Evaluation

def step (state : Evaluation) : Statement → Option Evaluation
  | .define _ name value => do
    let (stored, printed) ← value.evaluate state.environment
    some { state with
      environment := Function.update state.environment name (some stored)
      output := state.output ++ printed }
  | .expression _ value => do
    let (result, printed) ← value.evaluate state.environment
    some { state with result, output := state.output ++ printed }

def steps : Evaluation → List Statement → Option Evaluation
  | state, [] => some state
  | state, first :: rest => (state.step first).bind (·.steps rest)

end Evaluation

def Program.evaluate (program : Program) : Option Evaluation :=
  Evaluation.steps {} program.statements

namespace Machine

theorem execute_append_of_ok {index : Nat} {first : Code} {machine next : Machine}
    {console after : Console} (done : execute index first machine console = ⟨.ok (), next, after⟩)
    (rest : Code) :
    execute index (first ++ rest) machine console =
      execute (index + first.length) rest next after := by
  rw [execute_append, done]

theorem execute_singleton {index : Nat} {instruction : Instruction} {machine next : Machine}
    {console after : Console}
    (done : step index instruction machine console = ⟨.ok (), next, after⟩) :
    execute index [instruction] machine console = ⟨.ok (), next, after⟩ := by
  rw [execute, done]
  rfl

theorem step_call {builtin : Builtin} (arguments : List Int32) {value : Int}
    (saturated : arguments.length = builtin.arity)
    (known : builtin.value? (arguments.map Int32.toInt) = some value)
    (index : Nat) (stack : List Int32) (slots : Slots) (console : Console) :
    step index (.call builtin) ⟨arguments.reverse ++ stack, slots⟩ console =
      ⟨.ok (), ⟨Int32.ofInt value :: stack, slots⟩,
        ⟨console.output ++ builtin.printed value⟩⟩ := by
  have enough : ¬ (arguments.reverse ++ stack).length < builtin.arity := by
    simp [saturated]
  have taken : ((arguments.reverse ++ stack).take builtin.arity).reverse = arguments := by
    simp [← saturated]
  have left : (arguments.reverse ++ stack).drop builtin.arity = stack := by
    simp [← saturated]
  simp only [step, if_neg enough, taken, left, Console.call_eq known]

theorem execute_declare (declared : List Slot) (index : Nat) (machine : Machine)
    (console : Console) :
    ∃ slots, execute index (declared.map .declare) machine console =
        ⟨.ok (), { machine with slots }, console⟩ ∧
      ∀ slot, slots.get? slot = if slot ∈ declared then some 0 else machine.slots.get? slot := by
  induction declared generalizing index machine with
  | nil => exact ⟨machine.slots, rfl, by simp⟩
  | cons first rest ih =>
    obtain ⟨slots, done, held⟩ :=
      ih (index + 1) { machine with slots := machine.slots.put first 0 }
    refine ⟨slots, done, ?_⟩
    intro slot
    rw [held, Slots.get?_put]
    by_cases later : slot ∈ rest
    · simp [later]
    · by_cases now : first = slot
      · simp [now]
      · simp [later, now, Ne.symm now]

end Machine

def Statement.slot : Statement → Slot
  | define _ name _ => .named name
  | expression _ _ => .scratch

theorem Statement.code_eq_ok {names : Names} {statement : Statement} {code : Code} :
    statement.code names = .ok code ↔
      ∃ valueCode, statement.value.code names = .ok valueCode ∧
        valueCode ++ [.set statement.slot] = code := by
  cases statement with
  | define span name value | expression span value =>
    simp only [Statement.code, bind_eq_ok, pure_eq_ok, Except.ok.injEq, Statement.value, slot]

theorem Statement.mem_foldl_defines (statements : List Statement) {names : Names} {name : String}
    (known : name ∈ names) : name ∈ statements.foldl defines names := by
  induction statements generalizing names with
  | nil => exact known
  | cons first rest ih =>
    apply ih
    cases first with
    | define => exact Names.mem_define.mpr (.inl known)
    | expression => exact known

theorem Builtin.exists_value {builtin : Builtin} (arguments : List Int)
    (saturated : arguments.length = builtin.arity) :
    ∃ value, builtin.value? arguments = some value := by
  cases builtin with
  | abs | print =>
    match arguments with
    | [argument] => exact ⟨_, rfl⟩
    | [] | _ :: _ :: _ => simp [arity] at saturated
  | max | min | pow =>
    match arguments with
    | [first, second] => exact ⟨_, rfl⟩
    | [] | [_] | _ :: _ :: _ :: _ => simp [arity] at saturated

def Environment.HeldIn (environment : Environment) (names : Names) (slots : Slots) : Prop :=
  ∀ name ∈ names, ∃ value, environment name = some value ∧ slots.get? (.named name) = some value

namespace Expr

theorem execute_code {names : Names} {environment : Environment} {expr : Expr} {code : Code}
    (saturated : expr.Every Saturated) (coded : expr.code names = .ok code) (index : Nat)
    (machine : Machine) (held : environment.HeldIn names machine.slots) (console : Console) :
    ∃ value printed, expr.evaluate environment = some (value, printed) ∧
      Machine.execute index code machine console =
        ⟨.ok (), machine.push value, ⟨console.output ++ printed⟩⟩ := by
  -- The stack below and the console are arbitrary: the code of a right operand runs on the value
  -- of the left one, behind what that one printed.
  induction expr generalizing code index machine console with
  | number span value =>
    simp only [Expr.code] at coded
    split at coded
    · obtain rfl := Except.ok.inj coded
      exact ⟨_, _, rfl, by simp [Machine.execute, Machine.step]⟩
    · simp at coded
  | identifier span name =>
    simp only [Expr.code] at coded
    split at coded
    next known =>
      obtain rfl := Except.ok.inj coded
      obtain ⟨value, read, stored⟩ := held name known
      refine ⟨value, "", by simp [evaluate, read], ?_⟩
      simp [Machine.execute, Machine.step, Machine.read, stored]
    next => simp at coded
  | binary span operator left right ihLeft ihRight =>
    obtain ⟨-, saturatedLeft, saturatedRight⟩ := saturated
    obtain ⟨leftCode, leftCoded, coded⟩ := bind_eq_ok.mp coded
    obtain ⟨rightCode, rightCoded, coded⟩ := bind_eq_ok.mp coded
    obtain rfl := Except.ok.inj coded
    obtain ⟨leftValue, leftPrinted, leftEval, leftRun⟩ :=
      ihLeft saturatedLeft leftCoded index machine held console
    obtain ⟨rightValue, rightPrinted, rightEval, rightRun⟩ :=
      ihRight saturatedRight rightCoded (index + leftCode.length) (machine.push leftValue) held
        ⟨console.output ++ leftPrinted⟩
    refine ⟨Int32.ofInt (operator.exact leftValue.toInt rightValue.toInt),
      leftPrinted ++ rightPrinted, by simp [evaluate, leftEval, rightEval], ?_⟩
    rw [List.append_assoc, Machine.execute_append_of_ok leftRun,
      Machine.execute_append_of_ok rightRun]
    apply Machine.execute_singleton
    simp [Machine.step, Machine.push, Operator.apply_eq, String.append_assoc]
  | unaryCall span builtin argument ih =>
    obtain ⟨arity, saturated⟩ := saturated
    obtain ⟨argumentCode, argumentCoded, coded⟩ := bind_eq_ok.mp coded
    obtain rfl := Except.ok.inj coded
    obtain ⟨value, printed, eval, run⟩ := ih saturated argumentCoded index machine held console
    obtain ⟨result, known⟩ := Builtin.exists_value [value.toInt] arity.symm
    refine ⟨Int32.ofInt result, printed ++ builtin.printed result,
      by simp [evaluate, eval, known], ?_⟩
    rw [Machine.execute_append_of_ok run, ← String.append_assoc]
    exact Machine.execute_singleton (Machine.step_call [value] arity.symm known ..)
  | binaryCall span builtin first second ihFirst ihSecond =>
    obtain ⟨arity, saturatedFirst, saturatedSecond⟩ := saturated
    obtain ⟨firstCode, firstCoded, coded⟩ := bind_eq_ok.mp coded
    obtain ⟨secondCode, secondCoded, coded⟩ := bind_eq_ok.mp coded
    obtain rfl := Except.ok.inj coded
    obtain ⟨firstValue, firstPrinted, firstEval, firstRun⟩ :=
      ihFirst saturatedFirst firstCoded index machine held console
    obtain ⟨secondValue, secondPrinted, secondEval, secondRun⟩ :=
      ihSecond saturatedSecond secondCoded (index + firstCode.length) (machine.push firstValue)
        held ⟨console.output ++ firstPrinted⟩
    obtain ⟨result, known⟩ :=
      Builtin.exists_value [firstValue.toInt, secondValue.toInt] arity.symm
    refine ⟨Int32.ofInt result, firstPrinted ++ secondPrinted ++ builtin.printed result,
      by simp [evaluate, firstEval, secondEval, known], ?_⟩
    rw [List.append_assoc, Machine.execute_append_of_ok firstRun,
      Machine.execute_append_of_ok secondRun]
    simp only [← String.append_assoc]
    exact Machine.execute_singleton
      (Machine.step_call [firstValue, secondValue] arity.symm known ..)

end Expr

theorem Machine.step_set {slot : Slot} {slots : Slots}
    (declared : ∃ old, slots.get? slot = some old) (index : Nat) (stack : List Int32)
    (value : Int32) (console : Console) :
    step index (.set slot) ⟨value :: stack, slots⟩ console =
      ⟨.ok (), ⟨stack, slots.put slot value⟩, console⟩ := by
  obtain ⟨old, held⟩ := declared
  simp [step, read, held]

/-- A machine amid a program that declares `declared` and may read `names` by now; it was started
as `start`, with the text `before` on its console. -/
structure Simulates (declared names : Names) (start : Machine) (before : String)
    (state : Evaluation) (machine : Machine) (console : Console) : Prop where
  stack : machine.stack = start.stack
  output : console.output = before ++ state.output
  result : machine.slots.get? .scratch = some state.result
  held : state.environment.HeldIn names machine.slots
  unset : ∀ name, name ∉ names → state.environment name = none
  slot : ∀ name ∈ declared, ∃ value, machine.slots.get? (.named name) = some value
  others : ∀ name, name ∉ declared →
    machine.slots.get? (.named name) = start.slots.get? (.named name)

namespace Simulates

variable {declared names : Names} {start machine : Machine} {before : String}
  {state : Evaluation} {console : Console}

theorem define (simulates : Simulates declared names start before state machine console)
    {name : String} (target : name ∈ declared) (value : Int32) (printed : String) :
    Simulates declared (names.define name) start before
      { state with
        environment := Function.update state.environment name (some value)
        output := state.output ++ printed }
      ⟨machine.stack, machine.slots.put (.named name) value⟩ ⟨console.output ++ printed⟩ where
  stack := simulates.stack
  output := by simp [simulates.output, String.append_assoc]
  result := by simpa [Slots.get?_put] using simulates.result
  held := by
    intro other readable
    by_cases same : other = name
    · subst same
      exact ⟨value, by simp, by simp [Slots.get?_put]⟩
    · have known : other ∈ names := (Names.mem_define.mp readable).resolve_right same
      obtain ⟨old, read, stored⟩ := simulates.held other known
      refine ⟨old, by simp [same, read], ?_⟩
      simpa [Slots.get?_put, Ne.symm same] using stored
  unset := by
    intro other unknown
    rw [Names.mem_define, not_or] at unknown
    simpa [unknown.2] using simulates.unset other unknown.1
  slot := by
    intro other isDeclared
    by_cases same : name = other
    · exact ⟨value, by simp [Slots.get?_put, same]⟩
    · simpa [Slots.get?_put, same] using simulates.slot other isDeclared
  others := by
    intro other undeclared
    have different : name ≠ other := fun same => undeclared (same ▸ target)
    simpa [Slots.get?_put, different] using simulates.others other undeclared

theorem keep (simulates : Simulates declared names start before state machine console)
    (value : Int32) (printed : String) :
    Simulates declared names start before
      { state with result := value, output := state.output ++ printed }
      ⟨machine.stack, machine.slots.put .scratch value⟩ ⟨console.output ++ printed⟩ where
  stack := simulates.stack
  output := by simp [simulates.output, String.append_assoc]
  result := by simp [Slots.get?_put]
  held := by simpa [Environment.HeldIn, Slots.get?_put] using simulates.held
  unset := simulates.unset
  slot := by simpa [Slots.get?_put] using simulates.slot
  others := by simpa [Slots.get?_put] using simulates.others

theorem step (simulates : Simulates declared names start before state machine console)
    {statement : Statement} {code : Code} (saturated : statement.value.Every Expr.Saturated)
    (coded : statement.code names = .ok code)
    (targets : ∀ name ∈ statement.defines names, name ∈ declared) (index : Nat) :
    ∃ next last after, state.step statement = some next ∧
      Machine.execute index code machine console = ⟨.ok (), last, after⟩ ∧
      Simulates declared (statement.defines names) start before next last after := by
  cases statement with
  | define span name value =>
    simp only [Statement.value] at saturated
    obtain ⟨valueCode, valueCoded, coded⟩ := bind_eq_ok.mp coded
    obtain rfl := Except.ok.inj coded
    obtain ⟨stored, printed, eval, run⟩ :=
      Expr.execute_code saturated valueCoded index machine simulates.held console
    have target : name ∈ declared := targets name (Names.mem_define.mpr (.inr rfl))
    refine ⟨_, _, _, by rw [Evaluation.step, eval]; rfl, ?_,
      simulates.define target stored printed⟩
    rw [Machine.execute_append_of_ok run]
    exact Machine.execute_singleton (Machine.step_set (simulates.slot name target) ..)
  | expression span value =>
    simp only [Statement.value] at saturated
    obtain ⟨valueCode, valueCoded, coded⟩ := bind_eq_ok.mp coded
    obtain rfl := Except.ok.inj coded
    obtain ⟨result, printed, eval, run⟩ :=
      Expr.execute_code saturated valueCoded index machine simulates.held console
    refine ⟨_, _, _, by rw [Evaluation.step, eval]; rfl, ?_, simulates.keep result printed⟩
    rw [Machine.execute_append_of_ok run]
    exact Machine.execute_singleton (Machine.step_set ⟨_, simulates.result⟩ ..)

theorem steps (simulates : Simulates declared names start before state machine console)
    {statements : List Statement} {code : Code}
    (saturated : ∀ statement ∈ statements, statement.value.Every Expr.Saturated)
    (coded : Statement.codeAll names statements = .ok code)
    (targets : ∀ name ∈ statements.foldl Statement.defines names, name ∈ declared) (index : Nat) :
    ∃ final last after, state.steps statements = some final ∧
      Machine.execute index code machine console = ⟨.ok (), last, after⟩ ∧
      Simulates declared (statements.foldl Statement.defines names) start before final last
        after := by
  -- The names that may be read grow with the statements; what is declared does not.
  induction statements generalizing names state machine console code index with
  | nil =>
    obtain rfl := Except.ok.inj coded
    exact ⟨state, machine, console, rfl, rfl, simulates⟩
  | cons first rest ih =>
    obtain ⟨firstCode, firstCoded, coded⟩ := bind_eq_ok.mp coded
    obtain ⟨restCode, restCoded, coded⟩ := bind_eq_ok.mp coded
    obtain rfl := Except.ok.inj coded
    have firstTargets : ∀ name ∈ first.defines names, name ∈ declared := by
      intro name defined
      exact targets name (Statement.mem_foldl_defines rest defined)
    obtain ⟨next, middle, between, stepped, firstRun, simulates⟩ :=
      simulates.step (saturated first (by simp)) firstCoded firstTargets index
    obtain ⟨final, last, after, stepsDone, restRun, simulates⟩ :=
      ih simulates (fun statement member => saturated statement (by simp [member])) restCoded
        targets (index + firstCode.length)
    refine ⟨final, last, after, by simp [Evaluation.steps, stepped, stepsDone], ?_, simulates⟩
    rw [Machine.execute_append_of_ok firstRun, restRun]

end Simulates

theorem Program.simulates_declared (program : Program) (machine : Machine) (console : Console) :
    ∃ slots, Machine.execute 0 ((.scratch :: program.definitions.map .named).map .declare) machine
        console = ⟨.ok (), { machine with slots }, console⟩ ∧
      Simulates program.definitions [] machine console.output {} { machine with slots }
        console := by
  obtain ⟨slots, declarations, zeros⟩ := Machine.execute_declare
    (.scratch :: program.definitions.map .named) 0 machine console
  refine ⟨slots, declarations, ?_⟩
  exact
    { stack := rfl
      output := by simp
      result := by simp [zeros]
      held := by simp [Environment.HeldIn]
      unset := by simp
      slot := by
        intro name declared
        exact ⟨0, by simp [zeros, declared]⟩
      others := by
        intro name undeclared
        simp [zeros, undeclared] }

theorem Program.run_compile {program : Program} {code : Code}
    (saturated : program.Every Expr.Saturated) (compiled : program.compile = .ok code)
    (machine : Machine) (console : Console) :
    ∃ final slots, program.evaluate = some final ∧
      Machine.run code machine console =
        ⟨.ok final.result, ⟨machine.stack, slots⟩, ⟨console.output ++ final.output⟩⟩ ∧
      (∀ name, name ∉ program.definitions → final.environment name = none) ∧
      ∀ name, slots.get? (.named name) =
        (final.environment name).or (machine.slots.get? (.named name)) := by
  obtain ⟨body, generated, compiled⟩ := bind_eq_ok.mp compiled
  obtain rfl := Except.ok.inj compiled
  obtain ⟨slots, declarations, started⟩ := program.simulates_declared machine console
  obtain ⟨final, last, after, evaluated, ran, simulates⟩ :=
    started.steps saturated generated (fun name declared => declared)
      (0 + ((Slot.scratch :: program.definitions.map .named).map Instruction.declare).length)
  refine ⟨final, last.slots, evaluated, ?_, simulates.unset, ?_⟩
  · rw [Machine.run, Machine.execute_append_of_ok declarations, ran]
    simp only [Machine.read, simulates.result, ← simulates.stack, ← simulates.output]
  · intro name
    by_cases declared : name ∈ program.definitions
    · obtain ⟨value, read, stored⟩ := simulates.held name declared
      simp [stored, read]
    · simp [simulates.unset name declared, simulates.others name declared]

/-- Code that is compiled from a program runs to its end and computes what the program means: the
value, the output, and the value of every name. -/
theorem Program.run_compiled_eq_evaluate {program : Program} {code : Code}
    (saturated : program.Every Expr.Saturated) (compiled : program.compile = .ok code) :
    ∃ final, program.evaluate = some final ∧
      (Machine.run code {} {}).result = .ok final.result ∧
      (Machine.run code {} {}).console.output = final.output ∧
      ∀ name, (Machine.run code {} {}).machine.slots.get? (.named name) =
        final.environment name := by
  obtain ⟨final, slots, evaluated, ran, -, stored⟩ := run_compile saturated compiled {} {}
  refine ⟨final, evaluated, ?_, ?_, ?_⟩
  · rw [ran]
  · rw [ran]
    simp
  · intro name
    rw [ran]
    simpa [Slots.get?] using stored name

-- `x = print(7) - print(9)`, `x = x * x`, `pow(x, abs(-3))`.
def Program.printedOperands : Program :=
  let here : Span := ⟨0, 0⟩
  let x := Expr.identifier here "x"
  ⟨[.define here "x" (.binary here .sub (.unaryCall here .print (.number here 7))
      (.unaryCall here .print (.number here 9))),
    .define here "x" (.binary here .mul x x),
    .expression here (.binaryCall here .pow x (.unaryCall here .abs (.number here (-3))))]⟩

theorem Program.run_printedOperands :
    ∃ code final, printedOperands.compile = .ok code ∧ printedOperands.evaluate = some final ∧
      final.result = 64 ∧ final.output = "7\n9\n" ∧ final.environment "x" = some 4 ∧
      (Machine.run code {} {}).result = .ok final.result ∧
      (Machine.run code {} {}).console.output = final.output ∧
      ∀ name, (Machine.run code {} {}).machine.slots.get? (.named name) =
        final.environment name := by
  have saturated : printedOperands.Every Expr.Saturated := by
    simp [printedOperands, Every, Statement.value, Expr.Every, Expr.Saturated, Builtin.arity]
  obtain ⟨final, evaluated, ran⟩ := run_compiled_eq_evaluate saturated rfl
  have result : printedOperands.evaluate.map (·.result) = some 64 := by decide
  have output : printedOperands.evaluate.map (·.output) = some "7\n9\n" := by decide
  have stored : printedOperands.evaluate.map (·.environment "x") = some (some 4) := by decide
  simp only [evaluated, Option.map_some, Option.some.injEq] at result output stored
  exact ⟨_, final, rfl, evaluated, result, output, stored, ran⟩

end StackScript
