import Mathlib.Data.Finset.Dedup
import Mathlib.Data.Finset.Insert
import Mathlib.Data.List.Induction
import StackScript.Proofs.Evaluation

set_option autoImplicit false

namespace StackScript

structure Shape where
  height : Nat
  declared : Finset Slot

def Machine.shape (machine : Machine) : Shape :=
  ⟨machine.stack.length, (machine.slots.map Prod.fst).toFinset⟩

namespace Instruction

def operands : Instruction → Nat
  | declare _ | const _ | get _ => 0
  | set _ => 1
  | arith _ => 2
  | call builtin => builtin.arity

def results : Instruction → Nat
  | declare _ | set _ => 0
  | const _ | get _ | arith _ | call _ => 1

def slot? : Instruction → Option Slot
  | get slot | set slot => some slot
  | declare _ | const _ | arith _ | call _ => none

end Instruction

namespace Shape

/-- The check of an instruction at an index. The operands come first, then the slot. -/
def failure? (shape : Shape) (index : Nat) (instruction : Instruction) : Option RuntimeError :=
  if shape.height < instruction.operands then some (.stackUnderflow index instruction)
  else
    match instruction.slot? with
    | some slot => if slot ∈ shape.declared then none else some (.undeclared slot)
    | none => none

def after (shape : Shape) (instruction : Instruction) : Shape where
  height := shape.height - instruction.operands + instruction.results
  declared :=
    match instruction with
    | .declare slot => insert slot shape.declared
    | _ => shape.declared

-- What an instruction leaves that fails: operands that were popped before are gone.
def afterFailure (shape : Shape) : Instruction → Shape
  | .arith _ => { shape with height := 0 }
  | .set _ => { shape with height := shape.height - 1 }
  | _ => shape

def behind (shape : Shape) (code : Code) : Shape :=
  code.foldl after shape

def Passes (shape : Shape) (code : Code) : Prop :=
  ∀ done instruction rest, code = done ++ instruction :: rest →
    (shape.behind done).failure? done.length instruction = none

/-- The errors of code: the failure of the first check that fails, or else that there is no result
to read at the end. -/
inductive Fails (shape : Shape) (code : Code) : RuntimeError → Prop
  | check {done rest : Code} {instruction : Instruction} {error : RuntimeError}
      (split : code = done ++ instruction :: rest) (passes : shape.Passes done)
      (failed : (shape.behind done).failure? done.length instruction = some error) :
      Fails shape code error
  | noResult (passes : shape.Passes code) (undeclared : .scratch ∉ (shape.behind code).declared) :
      Fails shape code (.undeclared .scratch)

theorem behind_concat (shape : Shape) (code : Code) (instruction : Instruction) :
    shape.behind (code ++ [instruction]) = (shape.behind code).after instruction := by
  simp [behind]

theorem passes_nil (shape : Shape) : shape.Passes [] := by
  intro done instruction rest split
  simp at split

theorem passes_concat {shape : Shape} {code : Code} {instruction : Instruction} :
    shape.Passes (code ++ [instruction]) ↔
      shape.Passes code ∧ (shape.behind code).failure? code.length instruction = none := by
  constructor
  next =>
    intro passes
    refine ⟨fun done earlier rest split => ?_, passes code instruction [] rfl⟩
    exact passes done earlier (rest ++ [instruction]) (by simp [split])
  next =>
    rintro ⟨passes, last⟩ done checked rest split
    rcases List.eq_nil_or_concat rest with rfl | ⟨front, final, rfl⟩
    next =>
      obtain ⟨rfl, same⟩ := List.append_inj' split rfl
      cases same
      exact last
    next =>
      have longer : code ++ [instruction] = (done ++ checked :: front) ++ [final] := by
        simpa using split
      exact passes done checked front (List.append_inj' longer rfl).1

theorem passes_or_fails (shape : Shape) (code : Code) :
    shape.Passes code ∨ ∃ done instruction rest error, code = done ++ instruction :: rest ∧
      shape.Passes done ∧ (shape.behind done).failure? done.length instruction = some error := by
  induction code using List.reverseRecOn with
  | nil => exact .inl shape.passes_nil
  | append_singleton code instruction ih =>
    rcases ih with passes | ⟨done, earlier, rest, error, rfl, passes, failed⟩
    next =>
      cases checked : (shape.behind code).failure? code.length instruction with
      | none => exact .inl (passes_concat.mpr ⟨passes, checked⟩)
      | some error => exact .inr ⟨code, instruction, [], error, rfl, passes, checked⟩
    next => exact .inr ⟨done, earlier, rest ++ [instruction], error, by simp, passes, failed⟩

theorem failure?_eq_none {shape : Shape} {index : Nat} {instruction : Instruction} :
    shape.failure? index instruction = none ↔
      instruction.operands ≤ shape.height ∧ ∀ slot ∈ instruction.slot?, slot ∈ shape.declared := by
  unfold failure?
  split
  next few => simp [few]
  next enough =>
    cases instruction.slot? with
    | none => simpa using enough
    | some slot => simpa using fun _ => Nat.le_of_not_lt enough

theorem failure?_eq_some {shape : Shape} {index : Nat} {instruction : Instruction}
    {error : RuntimeError} :
    shape.failure? index instruction = some error ↔
      (shape.height < instruction.operands ∧ .stackUnderflow index instruction = error) ∨
        (instruction.operands ≤ shape.height ∧
          ∃ slot ∈ instruction.slot?, slot ∉ shape.declared ∧ .undeclared slot = error) := by
  unfold failure?
  split
  next few => simp [few, Nat.not_le_of_lt few]
  next enough =>
    cases instruction.slot? with
    | none => simp [enough]
    | some slot => simp [enough, Nat.le_of_not_lt enough]

theorem Fails.not_arity {shape : Shape} {code : Code} {error : RuntimeError}
    (fails : shape.Fails code error) (builtin : Builtin) (count : Nat) :
    error ≠ .arity builtin count := by
  cases fails with
  | check split passes failed =>
    rcases failure?_eq_some.mp failed with ⟨-, rfl⟩ | ⟨-, slot, -, -, rfl⟩ <;> simp
  | noResult passes undeclared => simp

end Shape

namespace Slots

theorem mem_map_fst {slots : Slots} {slot : Slot} :
    slot ∈ slots.map Prod.fst ↔ ∃ value, slots.get? slot = some value := by
  induction slots with
  | nil => simp [get?]
  | cons entry rest ih =>
    obtain ⟨held, value⟩ := entry
    by_cases same : held = slot
    next => simp [get?, same]
    next => simp [get?, same, Ne.symm same, ← ih]

end Slots

namespace Machine

variable {machine : Machine} {index : Nat} {instruction : Instruction}

theorem mem_declared {slot : Slot} :
    slot ∈ machine.shape.declared ↔ ∃ value, machine.slots.get? slot = some value := by
  rw [shape, List.mem_toFinset, Slots.mem_map_fst]

theorem shape_put (stack : List Int32) (slots : Slots) (slot : Slot) (value : Int32) :
    shape ⟨stack, slots.put slot value⟩ =
      ⟨stack.length, insert slot (shape ⟨stack, slots⟩).declared⟩ := by
  rw [shape, Shape.mk.injEq]
  refine ⟨rfl, Finset.ext fun other => ?_⟩
  rw [List.mem_toFinset, Slots.mem_map_fst, Slots.get?_put, Finset.mem_insert, mem_declared]
  by_cases same : slot = other
  next => simp [same]
  next => simp [same, Ne.symm same]

theorem read_of_mem {slot : Slot} (declared : slot ∈ machine.shape.declared) :
    ∃ value, machine.read slot = .ok value := by
  obtain ⟨value, held⟩ := mem_declared.mp declared
  exact ⟨value, by simp [read, held]⟩

theorem read_of_notMem {slot : Slot} (undeclared : slot ∉ machine.shape.declared) :
    machine.read slot = .error (.undeclared slot) := by
  rw [mem_declared, ← Option.isSome_iff_exists, Option.not_isSome_iff_eq_none] at undeclared
  rw [read, undeclared]

theorem step_of_passes (passes : machine.shape.failure? index instruction = none)
    (console : Console) :
    ∃ next after, step index instruction machine console = ⟨.ok (), next, after⟩ ∧
      next.shape = machine.shape.after instruction := by
  obtain ⟨stack, slots⟩ := machine
  obtain ⟨enough, declared⟩ := Shape.failure?_eq_none.mp passes
  cases instruction with
  | declare slot => exact ⟨_, _, rfl, shape_put stack slots slot 0⟩
  | const value => exact ⟨_, _, rfl, rfl⟩
  | get slot =>
    obtain ⟨value, known⟩ := read_of_mem (declared slot rfl)
    exact ⟨_, _, by rw [step, known], rfl⟩
  | set slot =>
    cases stack with
    | nil => cases enough
    | cons value stack =>
      have member : slot ∈ (shape ⟨stack, slots⟩).declared := declared slot rfl
      refine ⟨_, _, step_set (mem_declared.mp member) index stack value console, ?_⟩
      rw [shape_put, Finset.insert_eq_of_mem member]
      rfl
  | arith operator =>
    cases stack with
    | nil => cases enough
    | cons right stack =>
      cases stack with
      | nil => simp [Instruction.operands, shape] at enough
      | cons left stack => exact ⟨_, _, rfl, rfl⟩
  | call builtin =>
    have saturated : (stack.take builtin.arity).reverse.length = builtin.arity := by
      rw [List.length_reverse, List.length_take]
      exact Nat.min_eq_left enough
    obtain ⟨value, known⟩ := Builtin.exists_value
      ((stack.take builtin.arity).reverse.map Int32.toInt) (by rw [List.length_map, saturated])
    have called := step_call _ saturated known index (stack.drop builtin.arity) slots console
    rw [List.reverse_reverse, List.take_append_drop] at called
    refine ⟨_, _, called, ?_⟩
    simp [shape, Shape.after, Instruction.operands, Instruction.results]

theorem step_of_failure {error : RuntimeError}
    (failed : machine.shape.failure? index instruction = some error) (console : Console) :
    ∃ next, step index instruction machine console = ⟨.error error, next, console⟩ ∧
      next.shape = machine.shape.afterFailure instruction := by
  obtain ⟨stack, slots⟩ := machine
  rcases Shape.failure?_eq_some.mp failed with ⟨few, rfl⟩ | ⟨enough, slot, used, undeclared, rfl⟩
  next =>
    cases instruction with
    | declare slot | const value | get slot => cases few
    | set slot =>
      obtain rfl : stack = [] := by simpa [shape, Instruction.operands] using few
      exact ⟨_, rfl, rfl⟩
    | arith operator =>
      cases stack with
      | nil => exact ⟨_, rfl, rfl⟩
      | cons right stack =>
        cases stack with
        | nil => exact ⟨_, rfl, rfl⟩
        | cons left stack =>
          simp only [shape, Instruction.operands, List.length_cons] at few
          omega
    | call builtin => exact ⟨_, if_pos few, rfl⟩
  next =>
    cases instruction with
    | declare slot | const value | arith operator | call builtin => cases used
    | get other =>
      cases used
      exact ⟨_, by rw [step, read_of_notMem undeclared], rfl⟩
    | set other =>
      -- The value is popped before the slot is looked for.
      cases used
      cases stack with
      | nil => cases enough
      | cons value stack =>
        exact ⟨⟨stack, slots⟩, by simp only [step, read_of_notMem undeclared], rfl⟩

theorem execute_of_passes {code : Code} (passes : machine.shape.Passes code) (console : Console) :
    ∃ next after, execute 0 code machine console = ⟨.ok (), next, after⟩ ∧
      next.shape = machine.shape.behind code := by
  -- From the end, so that the index of an instruction is the length of the code before it.
  induction code using List.reverseRecOn with
  | nil => exact ⟨machine, console, rfl, rfl⟩
  | append_singleton code instruction ih =>
    obtain ⟨passes, last⟩ := Shape.passes_concat.mp passes
    obtain ⟨middle, between, ran, shaped⟩ := ih passes
    rw [← shaped] at last
    obtain ⟨next, after, stepped, same⟩ := step_of_passes last between
    refine ⟨next, after, ?_, ?_⟩
    next =>
      rw [execute_append_of_ok ran, Nat.zero_add]
      exact execute_singleton stepped
    next => rw [same, shaped, Shape.behind_concat]

theorem run_of_passes {code : Code} (passes : machine.shape.Passes code) (console : Console) :
    (run code machine console).machine.shape = machine.shape.behind code ∧
      if .scratch ∈ (machine.shape.behind code).declared then
        ∃ value, (run code machine console).result = .ok value
      else (run code machine console).result = .error (.undeclared .scratch) := by
  obtain ⟨next, after, ran, shaped⟩ := execute_of_passes passes console
  rw [run, ran, ← shaped]
  refine ⟨rfl, ?_⟩
  split
  next declared => exact read_of_mem declared
  next undeclared => exact read_of_notMem undeclared

theorem run_of_failure {done : Code} {error : RuntimeError} (passes : machine.shape.Passes done)
    (failed : (machine.shape.behind done).failure? done.length instruction = some error)
    (rest : Code) (console : Console) :
    ∃ next after last, execute 0 done machine console = ⟨.ok (), next, after⟩ ∧
      step done.length instruction next after = ⟨.error error, last, after⟩ ∧
      run (done ++ instruction :: rest) machine console = ⟨.error error, last, after⟩ ∧
      last.shape = (machine.shape.behind done).afterFailure instruction := by
  obtain ⟨next, after, ran, shaped⟩ := execute_of_passes passes console
  rw [← shaped] at failed ⊢
  obtain ⟨last, stepped, left⟩ := step_of_failure failed after
  refine ⟨next, after, last, ran, stepped, ?_, left⟩
  rw [run, execute_append_of_ok ran, Nat.zero_add, execute, stepped]

theorem fails_iff (code : Code) (machine : Machine) (console : Console) (error : RuntimeError) :
    (run code machine console).result = .error error ↔ machine.shape.Fails code error := by
  constructor
  next =>
    intro failed
    rcases machine.shape.passes_or_fails code with
      passes | ⟨done, instruction, rest, cause, rfl, passes, checked⟩
    next =>
      obtain ⟨-, outcome⟩ := run_of_passes passes console
      split at outcome
      next =>
        obtain ⟨value, ok⟩ := outcome
        cases failed.symm.trans ok
      next undeclared =>
        cases failed.symm.trans outcome
        exact .noResult passes undeclared
    next =>
      obtain ⟨_, _, _, _, _, ran, _⟩ := run_of_failure passes checked rest console
      rw [ran] at failed
      cases failed
      exact .check rfl passes checked
  next =>
    intro fails
    cases fails with
    | check split passes checked =>
      subst split
      obtain ⟨_, _, _, _, _, ran, _⟩ := run_of_failure passes checked _ console
      rw [ran]
    | noResult passes undeclared =>
      obtain ⟨-, outcome⟩ := run_of_passes passes console
      rwa [if_neg undeclared] at outcome

theorem succeeds_iff (code : Code) (machine : Machine) (console : Console) :
    (∃ value, (run code machine console).result = .ok value) ↔
      machine.shape.Passes code ∧ .scratch ∈ (machine.shape.behind code).declared := by
  constructor
  next =>
    rintro ⟨value, ok⟩
    have sound : ∀ error, ¬ machine.shape.Fails code error := by
      intro error fails
      cases ok.symm.trans ((fails_iff code machine console error).mpr fails)
    rcases machine.shape.passes_or_fails code with
      passes | ⟨done, instruction, rest, cause, split, passes, checked⟩
    next =>
      refine ⟨passes, ?_⟩
      by_contra undeclared
      exact sound _ (.noResult passes undeclared)
    next => cases sound _ (.check split passes checked)
  next =>
    rintro ⟨passes, declared⟩
    obtain ⟨-, outcome⟩ := run_of_passes passes console
    rwa [if_pos declared] at outcome

/-- The outcome of a run is decided by checks on the height of the stack and on the slots that are
declared. A run fails with an error just if that is the failure of the first check that fails, and
there; if all checks pass, it gives a value just if the scratch slot is declared behind the code.
Two machines of one shape, whatever they hold and whatever was printed, fail alike or both give a
value, and end in one shape. -/
theorem run_decided_by_shape (code : Code) (machine : Machine) (console : Console) :
    (∀ error, (run code machine console).result = .error error ↔ machine.shape.Fails code error) ∧
    (∀ done instruction rest error, code = done ++ instruction :: rest → machine.shape.Passes done →
      (machine.shape.behind done).failure? done.length instruction = some error →
      ∃ next after last, execute 0 done machine console = ⟨.ok (), next, after⟩ ∧
        step done.length instruction next after = ⟨.error error, last, after⟩ ∧
        run code machine console = ⟨.error error, last, after⟩) ∧
    ((∃ value, (run code machine console).result = .ok value) ↔
      machine.shape.Passes code ∧ .scratch ∈ (machine.shape.behind code).declared) ∧
    (∀ builtin count, (run code machine console).result ≠ .error (.arity builtin count)) ∧
    ∀ other before, other.shape = machine.shape →
      (∀ error, (run code other before).result = .error error ↔
        (run code machine console).result = .error error) ∧
      (run code other before).machine.shape = (run code machine console).machine.shape := by
  refine ⟨fails_iff code machine console, ?_, ?_, ?_, ?_⟩
  next =>
    rintro done instruction rest error rfl passes failed
    obtain ⟨next, after, last, ran, stepped, failing, -⟩ :=
      run_of_failure passes failed rest console
    exact ⟨next, after, last, ran, stepped, failing⟩
  next => exact succeeds_iff code machine console
  next =>
    intro builtin count failed
    exact ((fails_iff code machine console _).mp failed).not_arity builtin count rfl
  next =>
    intro other before same
    refine ⟨fun error => by rw [fails_iff, fails_iff, same], ?_⟩
    rcases machine.shape.passes_or_fails code with
      passes | ⟨done, instruction, rest, error, rfl, passes, failed⟩
    next =>
      have otherPasses : other.shape.Passes code := same ▸ passes
      rw [(run_of_passes passes console).1, (run_of_passes otherPasses before).1, same]
    next =>
      obtain ⟨_, _, last, _, _, ran, shaped⟩ := run_of_failure passes failed rest console
      rw [← same] at passes failed
      obtain ⟨_, _, otherLast, _, _, otherRan, otherShaped⟩ :=
        run_of_failure passes failed rest before
      rw [ran, otherRan, shaped, otherShaped, same]

theorem run_decided_by_shape_of_difference :
    let code : Code := [.get (.named "x"), .arith .sub, .set (.named "y"), .call .print]
    let machine : Machine := ⟨[7, 3], [(.scratch, 1), (.named "x", 9)]⟩
    let other : Machine := ⟨[-1, 0], [(.named "x", -5), (.scratch, 0)]⟩
    other.shape = machine.shape ∧
      (machine.shape.behind (code.take 2)).failure? 2 (.set (.named "y")) =
        some (.undeclared (.named "y")) ∧
      (run code machine {}).result = .error (.undeclared (.named "y")) ∧
      (run code other ⟨"1\n"⟩).result = .error (.undeclared (.named "y")) ∧
      (run code other ⟨"1\n"⟩).machine.shape = (run code machine {}).machine.shape ∧
      (run code machine {}).machine.stack = [3] := by
  intro code machine other
  have same : other.shape = machine.shape := by
    rw [shape, shape, Shape.mk.injEq]
    decide
  have failed : (run code machine {}).result = .error (.undeclared (.named "y")) := rfl
  obtain ⟨alike, ends⟩ := (run_decided_by_shape code machine {}).2.2.2.2 other ⟨"1\n"⟩ same
  exact ⟨same, by decide, failed, (alike _).mpr failed, ends, rfl⟩

end Machine

end StackScript
