import StackScript.Proofs.Resolution
import StackScript.Proofs.Reuse

set_option autoImplicit false

namespace StackScript

def Program.targets (program : Program) : List String :=
  program.statements.filterMap Statement.target?

theorem Names.define_eraseDups (earlier : List String) (name : String) :
    Names.define earlier.eraseDups name = (earlier ++ [name]).eraseDups := by
  rw [List.eraseDups_append, define]
  by_cases known : name ∈ earlier
  next => simp [known, List.removeAll]
  next => simp [known, List.removeAll, List.eraseDups_cons]

theorem Statement.foldl_defines_eraseDups (statements : List Statement) (earlier : List String) :
    statements.foldl defines earlier.eraseDups =
      (earlier ++ statements.filterMap target?).eraseDups := by
  induction statements generalizing earlier with
  | nil => simp
  | cons first rest ih =>
    cases first with
    | define span name value => simp [defines, target?, Names.define_eraseDups, ih]
    | expression span value => simpa [defines, List.filterMap_cons, target?] using ih earlier

theorem Program.definitions_eq (program : Program) :
    program.definitions = program.targets.eraseDups :=
  Statement.foldl_defines_eraseDups program.statements []

namespace Code

variable {written : Slot → Prop}

/-- What the code reads is written before it starts, or set by it earlier on. -/
def ReadsWritten (written : Slot → Prop) (code : Code) : Prop :=
  ∀ before slot after, code = before ++ .get slot :: after →
    written slot ∨ Instruction.set slot ∈ before

theorem readsWritten_of_mem {code : Code}
    (reads : ∀ slot, Instruction.get slot ∈ code → written slot) : ReadsWritten written code := by
  rintro before slot after rfl
  exact .inl (reads slot (by simp))

namespace ReadsWritten

theorem mono {more : Slot → Prop} {code : Code} (reads : ReadsWritten written code)
    (grows : ∀ slot, written slot → more slot) : ReadsWritten more code :=
  fun before slot after split => (reads before slot after split).imp_left (grows slot)

theorem append {first rest : Code} (reads : ReadsWritten written first)
    (later : ReadsWritten (fun slot => written slot ∨ Instruction.set slot ∈ first) rest) :
    ReadsWritten written (first ++ rest) := by
  intro before slot after split
  rcases List.append_eq_append_iff.mp split with ⟨middle, rfl, behind⟩ | ⟨middle, rfl, behind⟩
  next =>
    rw [List.mem_append, ← or_assoc]
    exact later middle slot after behind
  next =>
    cases middle with
    | nil =>
      have found := later [] slot after behind.symm
      simpa using found
    | cons head tail =>
      cases behind
      exact reads before slot tail rfl

theorem head {instruction : Instruction} {rest : Code}
    (reads : ReadsWritten written (instruction :: rest)) {slot : Slot}
    (reading : instruction = .get slot) : written slot := by
  subst reading
  simpa using reads [] slot rest rfl

theorem tail {instruction : Instruction} {rest : Code}
    (reads : ReadsWritten written (instruction :: rest)) :
    ReadsWritten (fun slot => written slot ∨ instruction = .set slot) rest := by
  rintro before slot after rfl
  have found := reads (instruction :: before) slot after rfl
  rwa [List.mem_cons, ← or_assoc, eq_comm] at found

theorem set_mem {code : Code} (reads : ReadsWritten (fun _ => False) code) {slot : Slot}
    (reading : Instruction.get slot ∈ code) : Instruction.set slot ∈ code := by
  obtain ⟨before, after, rfl⟩ := List.append_of_mem reading
  have earlier := (reads before slot after rfl).resolve_left id
  simp [earlier]

end ReadsWritten

end Code

def Names.Holds (names : Names) (slot : Slot) : Prop :=
  ∃ name ∈ names, slot = .named name

namespace Statement

theorem set_mem_code {names : Names} {statement : Statement} {code : Code}
    (coded : statement.code names = .ok code) {slot : Slot} :
    Instruction.set slot ∈ code ↔ slot = statement.slot := by
  obtain ⟨valueCode, valueCoded, rfl⟩ := code_eq_ok.mp coded
  have head : Instruction.set slot ∉ valueCode := fun member => by
    cases Expr.computes_of_mem_code valueCoded _ member
  simp [head]

theorem readsWritten_code {names : Names} {statement : Statement} {code : Code}
    (coded : statement.code names = .ok code) : Code.ReadsWritten names.Holds code := by
  obtain ⟨valueCode, valueCoded, rfl⟩ := code_eq_ok.mp coded
  apply Code.readsWritten_of_mem
  intro slot reading
  have inside : Instruction.get slot ∈ valueCode := by simpa using reading
  cases Expr.computes_of_mem_code valueCoded _ inside with
  | get known => exact ⟨_, known, rfl⟩

theorem named_eq_slot {statement : Statement} {name : String} :
    .named name = statement.slot ↔ statement.target? = some name := by
  cases statement with
  | define span target value => simp [slot, target?, eq_comm]
  | expression span value => simp [slot, target?]

theorem readsWritten_codeAll {names : Names} {statements : List Statement} {code : Code}
    (coded : codeAll names statements = .ok code) : Code.ReadsWritten names.Holds code := by
  -- A name that a statement adds is one that its code sets.
  induction statements generalizing names code with
  | nil =>
    cases coded
    exact Code.readsWritten_of_mem (by simp)
  | cons first rest ih =>
    obtain ⟨firstCode, firstCoded, coded⟩ := bind_eq_ok.mp coded
    obtain ⟨restCode, restCoded, coded⟩ := bind_eq_ok.mp coded
    cases coded
    apply (readsWritten_code firstCoded).append
    apply (ih restCoded).mono
    rintro slot ⟨name, defined, rfl⟩
    rcases mem_defines.mp defined with known | target
    next => exact .inl ⟨name, known, rfl⟩
    next => exact .inr ((set_mem_code firstCoded).mpr (named_eq_slot.mpr target))

theorem set_mem_codeAll {names : Names} {statements : List Statement} {code : Code}
    (coded : codeAll names statements = .ok code) {slot : Slot}
    (setting : Instruction.set slot ∈ code) :
    ∃ statement ∈ statements, slot = statement.slot := by
  rcases mem_codeAll coded setting with ⟨known, computes⟩ | ⟨statement, member, storing⟩
  next => cases computes
  next => exact ⟨statement, member, Instruction.set.inj storing⟩

theorem get_scratch_notMem_codeAll {names : Names} {statements : List Statement} {code : Code}
    (coded : codeAll names statements = .ok code) : Instruction.get .scratch ∉ code := by
  intro reading
  rcases mem_codeAll coded reading with ⟨known, computes⟩ | ⟨statement, -, storing⟩
  next => cases computes
  next => cases storing

end Statement

structure Slots.AgreeOn (written : Slot → Prop) (slots other : Slots) : Prop where
  declared : ∀ slot, (slots.get? slot).isSome = (other.get? slot).isSome
  same : ∀ slot, written slot → slots.get? slot = other.get? slot

namespace Slots.AgreeOn

variable {written : Slot → Prop} {slots other : Slots}

theorem mono {fewer : Slot → Prop} (agree : AgreeOn written slots other)
    (shrinks : ∀ slot, fewer slot → written slot) : AgreeOn fewer slots other :=
  ⟨agree.declared, fun slot isWritten => agree.same slot (shrinks slot isWritten)⟩

theorem put (agree : AgreeOn written slots other) (target : Slot) (value : Int32) :
    AgreeOn (fun slot => written slot ∨ target = slot) (slots.put target value)
      (other.put target value) where
  declared := by
    intro slot
    rw [get?_put, get?_put, apply_ite Option.isSome, apply_ite Option.isSome, agree.declared]
  same := by
    intro slot isWritten
    rw [get?_put, get?_put]
    split
    next => rfl
    next different => exact agree.same slot (isWritten.resolve_right different)

end Slots.AgreeOn

structure Machine.Outcome.Alike {α : Type} (written : Slot → Prop) (outcome other : Outcome α) :
    Prop where
  result : outcome.result = other.result
  console : outcome.console = other.console
  stack : outcome.machine.stack = other.machine.stack
  slots : outcome.machine.slots.AgreeOn written other.machine.slots

theorem Machine.get?_of_step_set {index : Nat} {target : Slot} {machine : Machine}
    {console : Console} (done : (step index (.set target) machine console).result = .ok ()) :
    (step index (.set target) machine console).machine.slots.get? target =
      machine.stack.head? := by
  obtain ⟨stack, slots⟩ := machine
  cases stack with
  | nil => cases done
  | cons value stack =>
    unfold step at done ⊢
    cases held : read ⟨value :: stack, slots⟩ target with
    | ok old => simp [held, Slots.get?_put]
    | error error => simp [held] at done

namespace Slots.AgreeOn

variable {written : Slot → Prop} {slots other : Slots}

theorem step (agree : AgreeOn written slots other) {instruction : Instruction}
    (reads : ∀ {slot}, instruction = .get slot → written slot) (index : Nat) (stack : List Int32)
    (console : Console) :
    (Machine.step index instruction ⟨stack, slots⟩ console).Alike written
      (Machine.step index instruction ⟨stack, other⟩ console) := by
  cases instruction with
  | declare target => exact ⟨rfl, rfl, rfl, (agree.put target 0).mono fun _ => .inl⟩
  | const value => exact ⟨rfl, rfl, rfl, agree⟩
  | get target =>
    simp only [Machine.step, Machine.read, ← agree.same target (reads rfl)]
    cases slots.get? target with
    | none | some value => exact ⟨rfl, rfl, rfl, agree⟩
  | set target =>
    cases stack with
    | nil => exact ⟨rfl, rfl, rfl, agree⟩
    | cons value stack =>
      -- What the slot held is not looked at, only that it is there.
      have declared := agree.declared target
      simp only [Machine.step, Machine.read]
      cases held : slots.get? target with
      | none =>
        cases otherHeld : other.get? target with
        | none => exact ⟨rfl, rfl, rfl, agree⟩
        | some otherOld => simp [held, otherHeld] at declared
      | some old =>
        cases otherHeld : other.get? target with
        | none => simp [held, otherHeld] at declared
        | some otherOld => exact ⟨rfl, rfl, rfl, (agree.put target value).mono fun _ => .inl⟩
  | arith operator =>
    cases stack with
    | nil => exact ⟨rfl, rfl, rfl, agree⟩
    | cons right stack =>
      cases stack with
      | nil | cons left stack => exact ⟨rfl, rfl, rfl, agree⟩
  | call builtin =>
    simp only [Machine.step]
    split
    next => exact ⟨rfl, rfl, rfl, agree⟩
    next => split <;> exact ⟨rfl, rfl, rfl, agree⟩

theorem execute (agree : AgreeOn written slots other) {code : Code}
    (reads : Code.ReadsWritten written code) (index : Nat) (stack : List Int32)
    (console : Console) :
    (Machine.execute index code ⟨stack, slots⟩ console).Alike written
      (Machine.execute index code ⟨stack, other⟩ console) := by
  -- The slots that are written grow with every one that is set.
  induction code generalizing written slots other index stack console with
  | nil => exact ⟨rfl, rfl, rfl, agree⟩
  | cons instruction rest ih =>
    have first := agree.step reads.head index stack console
    have settled : ∀ slot, instruction = .set slot →
        (Machine.step index instruction ⟨stack, slots⟩ console).result = .ok () →
        (Machine.step index instruction ⟨stack, slots⟩ console).machine.slots.get? slot =
          (Machine.step index instruction ⟨stack, other⟩ console).machine.slots.get? slot := by
      rintro slot rfl done
      rw [Machine.get?_of_step_set done, Machine.get?_of_step_set (first.result ▸ done)]
    rw [Machine.execute, Machine.execute]
    generalize Machine.step index instruction ⟨stack, slots⟩ console = outcome at first settled ⊢
    generalize Machine.step index instruction ⟨stack, other⟩ console = twin at first settled ⊢
    obtain ⟨result, ⟨nextStack, nextSlots⟩, after⟩ := outcome
    obtain ⟨otherResult, ⟨otherStack, otherSlots⟩, otherAfter⟩ := twin
    obtain ⟨rfl, rfl, rfl, agree⟩ := first
    cases result with
    | error error => exact ⟨rfl, rfl, rfl, agree⟩
    | ok =>
      have grown : AgreeOn (fun slot => written slot ∨ instruction = .set slot) nextSlots
          otherSlots := by
        refine ⟨agree.declared, ?_⟩
        rintro slot (isWritten | setting)
        next => exact agree.same slot isWritten
        next => exact settled slot setting rfl
      have ended := ih grown reads.tail (index + 1) nextStack after
      exact { ended with slots := ended.slots.mono fun _ => .inl }

end Slots.AgreeOn

namespace Program

/-- Code declares the scratch slot and each name that is assigned, once and in the order of first
assignment, and nothing else behind them. It uses no slot that is not declared, does not read the
scratch slot, and reads a name only behind a place where it was set: whatever the named slots hold
when the body starts, it runs the same. -/
theorem compile_sets_before_reading {program : Program} {code : Code}
    (compiled : program.compile = .ok code) :
    ∃ body, code = (.declare .scratch :: program.targets.eraseDups.map fun name =>
        .declare (.named name)) ++ body ∧
      (∀ slot, Instruction.declare slot ∉ body) ∧
      (∀ slot, Instruction.get slot ∈ body ∨ Instruction.set slot ∈ body →
        Instruction.declare slot ∈ code) ∧
      Instruction.get .scratch ∉ code ∧
      (∀ before name after, code = before ++ .get (.named name) :: after →
        Instruction.set (.named name) ∈ before) ∧
      ∀ slots other : Slots, (∀ slot, (slots.get? slot).isSome = (other.get? slot).isSome) →
        slots.get? .scratch = other.get? .scratch → ∀ index stack console,
        (Machine.execute index body ⟨stack, slots⟩ console).Alike (· = .scratch)
          (Machine.execute index body ⟨stack, other⟩ console) := by
  have declares (slot : Slot) := @declare_mem_compile _ _ compiled slot
  obtain ⟨body, generated, compiled⟩ := bind_eq_ok.mp compiled
  cases compiled
  have reads : Code.ReadsWritten (fun _ => False) body :=
    (Statement.readsWritten_codeAll generated).mono (by simp [Names.Holds])
  refine ⟨body, by simp [definitions_eq], Statement.declare_notMem_codeAll generated,
    ?_, ?_, ?_, ?_⟩
  next =>
    intro slot used
    have setting : Instruction.set slot ∈ body := used.elim reads.set_mem id
    obtain ⟨statement, member, rfl⟩ := Statement.set_mem_codeAll generated setting
    rw [declares]
    cases statement with
    | expression span value => exact .inl rfl
    | define span name value =>
      refine .inr ⟨name, ?_, rfl⟩
      exact Statement.mem_foldl_defines_iff.mpr (.inr ⟨_, member, rfl⟩)
  next => simp [Statement.get_scratch_notMem_codeAll generated]
  next =>
    have declarations : Code.ReadsWritten (fun _ => False)
        ((Slot.scratch :: program.definitions.map .named).map .declare) :=
      Code.readsWritten_of_mem (by simp)
    have whole := declarations.append (reads.mono fun _ => False.elim)
    intro before name after split
    exact (whole before (.named name) after split).resolve_left id
  next =>
    intro slots other declared scratch index stack console
    refine Slots.AgreeOn.execute ⟨declared, ?_⟩ (reads.mono fun _ => False.elim) index stack console
    rintro slot rfl
    exact scratch

-- `y = 1`, `x = y - 2`, `y = x + y`, `y`: two names, the one that is assigned twice first.
def reassigned : Program :=
  let here : Span := ⟨0, 0⟩
  let x := Expr.identifier here "x"
  let y := Expr.identifier here "y"
  ⟨[.define here "y" (.number here 1), .define here "x" (.binary here .sub y (.number here 2)),
    .define here "y" (.binary here .add x y), .expression here y]⟩

theorem reassigned_sets_before_reading :
    ∃ early late, reassigned.compile = .ok ([Instruction.declare .scratch, .declare (.named "y"),
        .declare (.named "x")] ++ (early ++ Instruction.get (.named "x") :: late)) ∧
      Instruction.declare (.named "x") ∉ early ∧ Instruction.set (.named "x") ∈ early ∧
      Instruction.get .scratch ∉ late ∧
      ∀ index stack console,
        (Machine.execute index (early ++ Instruction.get (.named "x") :: late)
          ⟨stack, [(.scratch, 0), (.named "y", 0), (.named "x", 0)]⟩ console).Alike (· = .scratch)
        (Machine.execute index (early ++ Instruction.get (.named "x") :: late)
          ⟨stack, [(.scratch, 0), (.named "y", 7), (.named "x", 8)]⟩ console) := by
  obtain ⟨early, late, compiled⟩ : ∃ early late, reassigned.compile = .ok
      ([Instruction.declare .scratch, .declare (.named "y"), .declare (.named "x")] ++
        (early ++ Instruction.get (.named "x") :: late)) :=
    ⟨[.const 1, .set (.named "y"), .get (.named "y"), .const 2, .arith .sub, .set (.named "x")],
      [.get (.named "y"), .arith .add, .set (.named "y"), .get (.named "y"), .set .scratch],
      eq_ok_of_toOption (by decide)⟩
  obtain ⟨body, split, declared, -, scratch, before, alike⟩ := compile_sets_before_reading compiled
  have targets : reassigned.targets.eraseDups = ["y", "x"] := by decide
  rw [targets] at split
  simp only [List.map_cons, List.map_nil, List.cons_append, List.nil_append, List.cons.injEq,
    true_and] at split
  subst split
  refine ⟨early, late, compiled, ?_, ?_, ?_, alike _ _ ?_ rfl⟩
  next => exact fun member => declared _ (List.mem_append_left _ member)
  next =>
    have earlier := before _ "x" _ (List.append_assoc ..).symm
    exact (List.mem_append.mp earlier).resolve_left (by decide)
  next => exact fun member => scratch (by simp [member])
  next =>
    intro slot
    simp only [Slots.get?]
    split_ifs <;> rfl

end Program

end StackScript
