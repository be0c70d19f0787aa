import StackScript.Proofs.Evaluation
import StackScript.Proofs.Printable

set_option autoImplicit false

namespace StackScript

namespace Evaluation

theorem defined_of_step {state next : Evaluation} {statement : Statement} {names : Names}
    (held : ∀ name ∈ names, (state.environment name).isSome)
    (done : state.step statement = some next) :
    ∀ name ∈ statement.defines names, (next.environment name).isSome := by
  intro name defined
  cases statement with
  | define span target value =>
    obtain ⟨⟨stored, printed⟩, -, rest⟩ := Option.bind_eq_some_iff.mp done
    cases rest
    by_cases same : name = target
    next => simp [same]
    next =>
      have known : name ∈ names := (Names.mem_define.mp defined).resolve_right same
      simpa [same] using held name known
  | expression span value =>
    obtain ⟨⟨stored, printed⟩, -, rest⟩ := Option.bind_eq_some_iff.mp done
    cases rest
    exact held name defined

theorem defined_of_steps {state final : Evaluation} {statements : List Statement} {names : Names}
    (held : ∀ name ∈ names, (state.environment name).isSome)
    (done : state.steps statements = some final) :
    ∀ name ∈ statements.foldl Statement.defines names, (final.environment name).isSome := by
  induction statements generalizing state names with
  | nil =>
    cases done
    exact held
  | cons first rest ih =>
    obtain ⟨next, stepped, later⟩ := Option.bind_eq_some_iff.mp done
    exact ih (defined_of_step held stepped) later

end Evaluation

inductive Instruction.Computes (names : Names) : Instruction → Prop
  | const (value : Int32) : Computes names (.const value)
  | get {name : String} (known : name ∈ names) : Computes names (.get (.named name))
  | arith (operator : Operator) : Computes names (.arith operator)
  | call (builtin : Builtin) : Computes names (.call builtin)

theorem Expr.computes_of_mem_code {names : Names} {expr : Expr} {code : Code}
    (coded : expr.code names = .ok code) : ∀ instruction ∈ code, instruction.Computes names := by
  induction expr generalizing code with
  | number span value =>
    rw [Expr.code] at coded
    split at coded <;> cases coded
    simpa using .const _
  | identifier span name =>
    rw [Expr.code] at coded
    split at coded
    next known =>
      cases coded
      simpa using .get known
    next => cases coded
  | unaryCall span builtin argument ih =>
    obtain ⟨argumentCode, argumentCoded, coded⟩ := bind_eq_ok.mp coded
    cases coded
    simpa [or_imp, forall_and] using ⟨ih argumentCoded, .call builtin⟩
  | binary span operator left right ihLeft ihRight =>
    obtain ⟨leftCode, leftCoded, coded⟩ := bind_eq_ok.mp coded
    obtain ⟨rightCode, rightCoded, coded⟩ := bind_eq_ok.mp coded
    cases coded
    simpa [or_imp, forall_and] using ⟨ihLeft leftCoded, ihRight rightCoded, .arith operator⟩
  | binaryCall span builtin first second ihFirst ihSecond =>
    obtain ⟨firstCode, firstCoded, coded⟩ := bind_eq_ok.mp coded
    obtain ⟨secondCode, secondCoded, coded⟩ := bind_eq_ok.mp coded
    cases coded
    simpa [or_imp, forall_and] using ⟨ihFirst firstCoded, ihSecond secondCoded, .call builtin⟩

namespace Statement

theorem mem_codeAll {names : Names} {statements : List Statement} {code : Code}
    (coded : codeAll names statements = .ok code) {instruction : Instruction}
    (member : instruction ∈ code) :
    (∃ known, instruction.Computes known) ∨
      ∃ statement ∈ statements, instruction = .set statement.slot := by
  induction statements generalizing names code with
  | nil =>
    cases coded
    simp at member
  | cons first rest ih =>
    obtain ⟨firstCode, firstCoded, coded⟩ := bind_eq_ok.mp coded
    obtain ⟨restCode, restCoded, coded⟩ := bind_eq_ok.mp coded
    cases coded
    obtain ⟨valueCode, valueCoded, rfl⟩ := code_eq_ok.mp firstCoded
    simp only [List.append_assoc, List.mem_append, List.mem_singleton] at member
    rcases member with computing | storing | later
    next => exact .inl ⟨names, Expr.computes_of_mem_code valueCoded _ computing⟩
    next => exact .inr ⟨first, by simp, storing⟩
    next =>
      refine (ih restCoded later).imp_right ?_
      rintro ⟨statement, member, storing⟩
      exact ⟨statement, by simp [member], storing⟩

theorem declare_notMem_codeAll {names : Names} {statements : List Statement} {code : Code}
    (coded : codeAll names statements = .ok code) (slot : Slot) : .declare slot ∉ code := by
  intro member
  rcases mem_codeAll coded member with ⟨known, computes⟩ | ⟨statement, -, storing⟩
  next => cases computes
  next => cases storing

end Statement

namespace Program

theorem declare_mem_compile {program : Program} {code : Code}
    (compiled : program.compile = .ok code) {slot : Slot} :
    .declare slot ∈ code ↔ slot = .scratch ∨ ∃ name ∈ program.definitions, .named name = slot := by
  obtain ⟨body, generated, compiled⟩ := bind_eq_ok.mp compiled
  cases compiled
  simp [Statement.declare_notMem_codeAll generated, eq_comm]

end Program

theorem Machine.get?_scratch_of_run {code : Code} {machine : Machine} {console : Console}
    {value : Int32} (done : (run code machine console).result = .ok value) :
    (run code machine console).machine.slots.get? .scratch = some value := by
  unfold run at done ⊢
  split at done
  next last after =>
    unfold read at done
    split at done <;> cases done
    assumption
  next => cases done

/-- A machine that was used before runs the code of a source as a new one does. It gives the same
value and prints the same text behind what is on the console; it leaves the stack as it was, the
slots that the code declares as they are after a run on a new machine, and all others untouched. -/
theorem reused_machine_runs_as_new {source : List Char} {code : Code}
    (compiled : compile source = .ok code) (machine : Machine) (console : Console) :
    (∃ value, (Machine.run code {} {}).result = .ok value ∧
      (Machine.run code machine console).result = .ok value) ∧
    (Machine.run code machine console).console.output =
      console.output ++ (Machine.run code {} {}).console.output ∧
    (Machine.run code machine console).machine.stack = machine.stack ∧
    ∀ slot, (Machine.run code machine console).machine.slots.get? slot =
      if .declare slot ∈ code then (Machine.run code {} {}).machine.slots.get? slot
      else machine.slots.get? slot := by
  obtain ⟨program, read, compiled⟩ := bind_eq_ok.mp compiled
  have saturated : program.Every Expr.Saturated := fun statement member =>
    ((Program.printable_of_ofSource read).statements statement member).saturated
  obtain ⟨final, slots, evaluated, ran, unset, held⟩ :=
    Program.run_compile saturated compiled machine console
  obtain ⟨newFinal, newSlots, newEvaluated, newRan, -, newHeld⟩ :=
    Program.run_compile saturated compiled {} {}
  -- What a program means does not depend on a machine, so the two runs end alike.
  obtain rfl : final = newFinal := Option.some.inj (evaluated.symm.trans newEvaluated)
  refine ⟨⟨final.result, by rw [newRan], by rw [ran]⟩, by simp [ran, newRan], by rw [ran], ?_⟩
  intro slot
  simp only [Program.declare_mem_compile compiled]
  cases slot with
  | scratch =>
    have result := Machine.get?_scratch_of_run (congrArg Machine.Outcome.result ran)
    have newResult := Machine.get?_scratch_of_run (congrArg Machine.Outcome.result newRan)
    simp [result, newResult]
  | named name =>
    by_cases declared : name ∈ program.definitions
    next =>
      have defined : ∀ name ∈ program.definitions, (final.environment name).isSome :=
        Evaluation.defined_of_steps (by simp) evaluated
      obtain ⟨value, stored⟩ := Option.isSome_iff_exists.mp (defined name declared)
      simp [ran, newRan, held, newHeld, stored, declared]
    next => simp [ran, held, unset name declared, declared]

theorem reused_machine_runs_product :
    ∃ code, compile "x = 6\nprint(x * 7)".toList = .ok code ∧
      (Machine.run code ⟨[5], [(.named "x", 9), (.named "y", 8)]⟩ ⟨"1\n"⟩).result = .ok 42 ∧
      (Machine.run code ⟨[5], [(.named "x", 9), (.named "y", 8)]⟩ ⟨"1\n"⟩).console.output =
        "1\n42\n" ∧
      (Machine.run code ⟨[5], [(.named "x", 9), (.named "y", 8)]⟩ ⟨"1\n"⟩).machine.stack = [5] ∧
      (Machine.run code ⟨[5], [(.named "x", 9), (.named "y", 8)]⟩ ⟨"1\n"⟩).machine.slots.get?
        (.named "y") = some 8 := by
  have compiled : compile "x = 6\nprint(x * 7)".toList = .ok
      [.declare .scratch, .declare (.named "x"), .const 6, .set (.named "x"), .get (.named "x"),
        .const 7, .arith .mul, .call .print, .set .scratch] :=
    eq_ok_of_toOption (by decide +kernel)
  refine ⟨_, compiled, ?_⟩
  obtain ⟨⟨value, fresh, same⟩, output, stack, slots⟩ := reused_machine_runs_as_new compiled
    ⟨[5], [(.named "x", 9), (.named "y", 8)]⟩ ⟨"1\n"⟩
  refine ⟨?_, ?_, stack, slots (.named "y")⟩
  next =>
    rw [same, ← fresh]
    rfl
  next =>
    rw [output]
    decide

end StackScript
