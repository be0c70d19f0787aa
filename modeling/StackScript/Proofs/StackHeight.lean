import StackScript.Proofs.Evaluation
import StackScript.Proofs.Printable

set_option autoImplicit false

namespace StackScript

namespace Expr

def isCompound : Expr → Bool
  | binary .. | unaryCall .. | binaryCall .. => true
  | number .. | identifier .. => false

/-- The expressions on the way from an expression to each of its leaves. -/
def paths : Expr → List (List Expr)
  | number span value => [[number span value]]
  | identifier span name => [[identifier span name]]
  | binary span operator left right =>
    (left.paths ++ right.paths).map (binary span operator left right :: ·)
  | unaryCall span builtin argument =>
    argument.paths.map (unaryCall span builtin argument :: ·)
  | binaryCall span builtin first second =>
    (first.paths ++ second.paths).map (binaryCall span builtin first second :: ·)

theorem countP_le_height {expr : Expr} {path : List Expr} (member : path ∈ expr.paths) :
    path.countP isCompound ≤ expr.height := by
  induction expr generalizing path with
  | number span value | identifier span name =>
    cases List.mem_singleton.mp member
    exact Nat.le_refl 0
  | unaryCall span builtin argument ih =>
    obtain ⟨rest, inside, rfl⟩ := List.mem_map.mp member
    rw [List.countP_cons_of_pos rfl]
    exact Nat.succ_le_succ (ih inside)
  | binary span operator left right ihLeft ihRight
  | binaryCall span builtin left right ihLeft ihRight =>
    obtain ⟨rest, inside, rfl⟩ := List.mem_map.mp member
    rw [List.countP_cons_of_pos rfl]
    apply Nat.succ_le_succ
    rcases List.mem_append.mp inside with inside | inside
    next => exact Nat.le_trans (ihLeft inside) (Nat.le_max_left _ _)
    next => exact Nat.le_trans (ihRight inside) (Nat.le_max_right _ _)

/-- The code of an expression, found in at most `calls` nested calls; there is no answer if that is
not enough. -/
def codeWithin (names : Names) : (calls : Nat) → Expr → ExceptT CompileError Option Code
  | 0, _ => ExceptT.mk none
  | _ + 1, number span value =>
    if Decimal.fits value then pure [.const (Int32.ofInt value)]
    else throw (.fault (.constantOutOfRange value) span)
  | _ + 1, identifier span name =>
    if name ∈ names then pure [.get (.named name)] else throw (.reference name span)
  | calls + 1, binary _ operator left right => do
    return (← left.codeWithin names calls) ++ (← right.codeWithin names calls) ++ [.arith operator]
  | calls + 1, unaryCall _ builtin argument => do
    return (← argument.codeWithin names calls) ++ [.call builtin]
  | calls + 1, binaryCall _ builtin first second => do
    return (← first.codeWithin names calls) ++ (← second.codeWithin names calls) ++ [.call builtin]

theorem answered_bind {α β : Type} (result : Except CompileError α)
    {next : α → Except CompileError β}
    {search : α → ExceptT CompileError Option β}
    (same : ∀ value, search value = ExceptT.mk (some (next value))) :
    (ExceptT.mk (some result) >>= search) = ExceptT.mk (some (result >>= next)) := by
  cases result with
  | error error => rfl
  | ok value => exact same value

theorem codeWithin_eq {expr : Expr} {calls : Nat} (enough : expr.height < calls) (names : Names) :
    expr.codeWithin names calls = ExceptT.mk (some (expr.code names)) := by
  induction expr generalizing calls with
  | number span value | identifier span name =>
    obtain ⟨calls, rfl⟩ := Nat.exists_eq_add_one_of_ne_zero (Nat.ne_zero_of_lt enough)
    rw [codeWithin, code]
    split <;> rfl
  | unaryCall span builtin argument ih =>
    obtain ⟨calls, rfl⟩ := Nat.exists_eq_add_one_of_ne_zero (Nat.ne_zero_of_lt enough)
    rw [codeWithin, code, ih (Nat.lt_of_succ_lt_succ enough)]
    exact answered_bind _ fun _ => rfl
  | binary span operator left right ihLeft ihRight
  | binaryCall span builtin left right ihLeft ihRight =>
    obtain ⟨calls, rfl⟩ := Nat.exists_eq_add_one_of_ne_zero (Nat.ne_zero_of_lt enough)
    obtain ⟨enoughLeft, enoughRight⟩ := Nat.max_lt.mp (Nat.lt_of_succ_lt_succ enough)
    rw [codeWithin, code, ihLeft enoughLeft, ihRight enoughRight]
    exact answered_bind _ fun _ => answered_bind _ fun _ => rfl

end Expr

namespace Machine

/-- Started at an index, the code runs to its end, and the stack holds at most `bound` values before
it, behind it and between any two instructions. -/
def StaysBelow (machine : Machine) (bound index : Nat) (code : Code) (console : Console) : Prop :=
  ∀ done, done <+: code → ∃ next after, execute index done machine console = ⟨.ok (), next, after⟩ ∧
    next.stack.length ≤ bound

variable {bound index : Nat} {machine next : Machine} {console after : Console}

theorem StaysBelow.nil (low : machine.stack.length ≤ bound) :
    machine.StaysBelow bound index [] console := by
  intro done begins
  cases List.prefix_nil.mp begins
  exact ⟨machine, console, rfl, low⟩

theorem StaysBelow.mono {higher : Nat} {code : Code} (le : bound ≤ higher)
    (stays : machine.StaysBelow bound index code console) :
    machine.StaysBelow higher index code console := by
  intro done begins
  obtain ⟨next, after, ran, low⟩ := stays done begins
  exact ⟨next, after, ran, Nat.le_trans low le⟩

theorem StaysBelow.append {first rest : Code} (stays : machine.StaysBelow bound index first console)
    (ran : execute index first machine console = ⟨.ok (), next, after⟩)
    (staysRest : next.StaysBelow bound (index + first.length) rest after) :
    machine.StaysBelow bound index (first ++ rest) console := by
  intro done begins
  -- Either the first part is not done yet, or a part of the rest is done behind it.
  rcases List.prefix_or_prefix_of_prefix begins (List.prefix_append first rest) with
    inside | ⟨behind, rfl⟩
  next => exact stays done inside
  next =>
    rw [execute_append_of_ok ran]
    exact staysRest behind ((List.prefix_append_right_inj first).mp begins)

theorem StaysBelow.concat {code : Code} {instruction : Instruction}
    (stays : machine.StaysBelow bound index code console)
    (ran : execute index (code ++ [instruction]) machine console = ⟨.ok (), next, after⟩)
    (low : next.stack.length ≤ bound) :
    machine.StaysBelow bound index (code ++ [instruction]) console := by
  intro done begins
  rcases List.prefix_concat_iff.mp begins with rfl | inside
  next => exact ⟨next, after, ran, low⟩
  next => exact stays done inside

theorem staysBelow_declare (declared : List Slot) (low : machine.stack.length ≤ bound) :
    machine.StaysBelow bound index (declared.map .declare) console := by
  rintro done ⟨rest, same⟩
  obtain ⟨front, back, -, rfl, -⟩ := List.map_eq_append_iff.mp same.symm
  obtain ⟨slots, ran, -⟩ := execute_declare front index machine console
  exact ⟨_, _, ran, low⟩

end Machine

namespace Expr

open Machine

theorem staysBelow_code {names : Names} {environment : Environment} {expr : Expr} {code : Code}
    (saturated : expr.Every Saturated) (coded : expr.code names = .ok code) (index : Nat)
    (machine : Machine) (held : environment.HeldIn names machine.slots) (console : Console) :
    machine.StaysBelow (machine.stack.length + expr.height + 1) index code console := by
  induction expr generalizing code index machine console with
  | number span value | identifier span name =>
    obtain ⟨value, printed, -, ran⟩ := execute_code saturated coded index machine held console
    rw [Expr.code] at coded
    split at coded <;> cases coded
    exact StaysBelow.concat (.nil (Nat.le_add_right _ 1)) ran (Nat.le_refl _)
  | unaryCall span builtin argument ih =>
    obtain ⟨value, printed, -, ran⟩ := execute_code saturated coded index machine held console
    obtain ⟨argumentCode, argumentCoded, coded⟩ := bind_eq_ok.mp coded
    cases coded
    have stays := ih saturated.2 argumentCoded index machine held console
    refine (stays.mono ?_).concat ran ?_
    next =>
      rw [height]
      omega
    next =>
      rw [height, push, List.length_cons]
      omega
  | binary span operator left right ihLeft ihRight
  | binaryCall span builtin left right ihLeft ihRight =>
    obtain ⟨value, printed, -, ran⟩ := execute_code saturated coded index machine held console
    obtain ⟨leftCode, leftCoded, coded⟩ := bind_eq_ok.mp coded
    obtain ⟨rightCode, rightCoded, coded⟩ := bind_eq_ok.mp coded
    cases coded
    obtain ⟨leftValue, leftPrinted, -, leftRan⟩ :=
      execute_code saturated.2.1 leftCoded index machine held console
    have staysLeft := ihLeft saturated.2.1 leftCoded index machine held console
    -- The value of the left operand stays on the stack while the right one is computed.
    have staysRight := ihRight saturated.2.2 rightCoded (index + leftCode.length)
      (machine.push leftValue) held ⟨console.output ++ leftPrinted⟩
    rw [push, List.length_cons] at staysRight
    refine ((staysLeft.mono ?_).append leftRan (staysRight.mono ?_)).concat ran ?_
    next =>
      rw [height]
      omega
    next =>
      rw [height]
      omega
    next =>
      rw [height, push, List.length_cons]
      omega

end Expr

namespace Simulates

open Machine

variable {declared names : Names} {start machine : Machine} {before : String}
  {state : Evaluation} {console : Console}

theorem staysBelow_statement
    (simulates : Simulates declared names start before state machine console)
    {statement : Statement} {code : Code} (saturated : statement.value.Every Expr.Saturated)
    (coded : statement.code names = .ok code)
    (targets : ∀ name ∈ statement.defines names, name ∈ declared) (index : Nat) :
    machine.StaysBelow (start.stack.length + statement.value.height + 1) index code console := by
  obtain ⟨next, last, after, -, ran, simulatesNext⟩ :=
    simulates.step saturated coded targets index
  have low : last.stack.length ≤ start.stack.length + statement.value.height + 1 := by
    rw [simulatesNext.stack]
    omega
  obtain ⟨valueCode, valueCoded, rfl⟩ := Statement.code_eq_ok.mp coded
  have stays := Expr.staysBelow_code saturated valueCoded index machine simulates.held console
  rw [simulates.stack] at stays
  exact stays.concat ran low

theorem staysBelow_statements {levels : Nat}
    (simulates : Simulates declared names start before state machine console)
    {statements : List Statement} {code : Code}
    (saturated : ∀ statement ∈ statements, statement.value.Every Expr.Saturated)
    (shallow : ∀ statement ∈ statements, statement.value.height ≤ levels)
    (coded : Statement.codeAll names statements = .ok code)
    (targets : ∀ name ∈ statements.foldl Statement.defines names, name ∈ declared) (index : Nat) :
    machine.StaysBelow (start.stack.length + levels + 1) index code console := by
  -- Between two statements the stack is what it was at the start.
  induction statements generalizing names state machine console code index with
  | nil =>
    cases coded
    apply StaysBelow.nil
    rw [simulates.stack]
    omega
  | cons first rest ih =>
    obtain ⟨firstCode, firstCoded, coded⟩ := bind_eq_ok.mp coded
    obtain ⟨restCode, restCoded, coded⟩ := bind_eq_ok.mp coded
    cases coded
    simp only [List.mem_cons, forall_eq_or_imp] at saturated shallow
    have firstTargets : ∀ name ∈ first.defines names, name ∈ declared := fun name defined =>
      targets name (Statement.mem_foldl_defines rest defined)
    have stays := simulates.staysBelow_statement saturated.1 firstCoded firstTargets index
    obtain ⟨next, last, after, -, ran, simulates⟩ :=
      simulates.step saturated.1 firstCoded firstTargets index
    have staysRest := ih simulates saturated.2 shallow.2 restCoded targets
      (index + firstCode.length)
    refine (stays.mono ?_).append ran staysRest
    have := shallow.1
    omega

end Simulates

theorem Program.staysBelow_compile {program : Program} {code : Code} {levels : Nat}
    (saturated : program.Every Expr.Saturated)
    (shallow : ∀ statement ∈ program.statements, statement.value.height ≤ levels)
    (compiled : program.compile = .ok code) (machine : Machine) (console : Console) :
    machine.StaysBelow (machine.stack.length + levels + 1) 0 code console := by
  obtain ⟨body, generated, compiled⟩ := bind_eq_ok.mp compiled
  cases compiled
  obtain ⟨slots, declarations, started⟩ := program.simulates_declared machine console
  have stays := started.staysBelow_statements saturated shallow generated
    (fun name declared => declared)
    (0 + ((Slot.scratch :: program.definitions.map .named).map Instruction.declare).length)
  refine (Machine.staysBelow_declare _ ?_).append declarations stays
  omega

/-- Nesting bounds what is done with a source. On a path through an expression of it lie no more
operations and calls than the nesting limit; its code is found in at most one more nested call than
that; and while the code runs, the stack never holds more than one more value than that. -/
theorem nestingLimit_bounds_stack (source : List Char) :
    (∀ program, Program.ofSource source = .ok program → ∀ statement ∈ program.statements,
      (∀ path ∈ statement.value.paths, path.countP Expr.isCompound ≤ nestingLimit) ∧
      ∀ names, statement.value.codeWithin names (nestingLimit + 1) =
        ExceptT.mk (some (statement.value.code names))) ∧
    ∀ code, compile source = .ok code → ∀ done rest, code = done ++ rest →
      ∃ machine console, Machine.execute 0 done {} {} = ⟨.ok (), machine, console⟩ ∧
        machine.stack.length ≤ nestingLimit + 1 := by
  constructor
  next =>
    intro program read statement member
    have shallow := ((Program.printable_of_ofSource read).statements statement member).height_le
    constructor
    next =>
      intro path inside
      exact Nat.le_trans (Expr.countP_le_height inside) shallow
    next => exact Expr.codeWithin_eq (Nat.lt_succ_of_le shallow)
  next =>
    intro code compiled done rest split
    obtain ⟨program, read, compiled⟩ := bind_eq_ok.mp compiled
    have printable := (Program.printable_of_ofSource read).statements
    have stays := Program.staysBelow_compile
      (fun statement member => (printable statement member).saturated)
      (fun statement member => (printable statement member).height_le) compiled {} {}
    simpa using stays done ⟨rest, split.symm⟩

theorem nestingLimit_bounds_stack_of_differences :
    ∃ program code, Program.ofSource "1 - max(2, 3 - print(4))".toList = .ok program ∧
      compile "1 - max(2, 3 - print(4))".toList = .ok code ∧
      (∀ statement ∈ program.statements, ∀ path ∈ statement.value.paths,
        path.countP Expr.isCompound ≤ nestingLimit) ∧
      ∃ machine console, Machine.execute 0 (code.take 6) {} {} = ⟨.ok (), machine, console⟩ ∧
        machine.stack = [4, 3, 2, 1] ∧ machine.stack.length ≤ nestingLimit + 1 := by
  have compiled : compile "1 - max(2, 3 - print(4))".toList = .ok
      [.declare .scratch, .const 1, .const 2, .const 3, .const 4, .call .print, .arith .sub,
        .call .max, .arith .sub, .set .scratch] :=
    eq_ok_of_toOption (by decide +kernel)
  obtain ⟨program, read, -⟩ := bind_eq_ok.mp compiled
  obtain ⟨shallow, bounded⟩ := nestingLimit_bounds_stack "1 - max(2, 3 - print(4))".toList
  obtain ⟨machine, console, ran, low⟩ := bounded _ compiled _ _ (List.take_append_drop 6 _).symm
  refine ⟨program, _, read, compiled, fun statement member => (shallow _ read statement member).1,
    machine, console, ran, ?_, low⟩
  rw [show machine = _ from (congrArg (·.machine) ran).symm]
  decide

end StackScript
