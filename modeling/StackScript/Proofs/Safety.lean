import StackScript.CommandLine
import StackScript.Proofs.Evaluation
import StackScript.Proofs.Printable

set_option autoImplicit false

namespace StackScript

def OnlyUnresolved {α : Type} : Except CompileError α → Prop
  | .ok _ | .error (.reference _ _) => True
  | .error _ => False

theorem OnlyUnresolved.bind {α β : Type} {first : Except CompileError α}
    {next : α → Except CompileError β} (head : OnlyUnresolved first)
    (tail : ∀ value, OnlyUnresolved (next value)) : OnlyUnresolved (first >>= next) := by
  cases first with
  | ok value => exact tail value
  | error error => cases error <;> simp_all [OnlyUnresolved]

theorem OnlyUnresolved.cases {α : Type} {result : Except CompileError α}
    (only : OnlyUnresolved result) :
    (∃ value, result = .ok value) ∨ ∃ name span, result = .error (.reference name span) := by
  cases result with
  | ok value => exact .inl ⟨value, rfl⟩
  | error error =>
    cases error with
    | reference name span => exact .inr ⟨name, span, rfl⟩
    | lexical => exact only.elim
    | fault => exact only.elim

theorem Expr.onlyUnresolved_code {expr : Expr} (fitting : expr.Every Fitting) (names : Names) :
    OnlyUnresolved (expr.code names) := by
  induction expr with
  | number span value =>
    rw [code, if_pos (Decimal.fits_iff.mpr fitting)]
    trivial
  | identifier span name =>
    rw [code]
    split <;> trivial
  | binary span operator left right ihLeft ihRight =>
    exact (ihLeft fitting.2.1).bind fun _ => (ihRight fitting.2.2).bind fun _ => trivial
  | unaryCall span builtin argument ih => exact (ih fitting.2).bind fun _ => trivial
  | binaryCall span builtin first second ihFirst ihSecond =>
    exact (ihFirst fitting.2.1).bind fun _ => (ihSecond fitting.2.2).bind fun _ => trivial

theorem Statement.onlyUnresolved_codeAll {statements : List Statement}
    (fitting : ∀ statement ∈ statements, statement.value.Every Expr.Fitting) (names : Names) :
    OnlyUnresolved (codeAll names statements) := by
  induction statements generalizing names with
  | nil => trivial
  | cons first rest ih =>
    have code : OnlyUnresolved (first.code names) := by
      have value := Expr.onlyUnresolved_code (fitting first (by simp)) names
      cases first <;> exact value.bind fun _ => trivial
    exact code.bind fun _ =>
      (ih (fun statement member => fitting statement (by simp [member])) _).bind fun _ => trivial

theorem Program.onlyUnresolved_compile {program : Program} (fitting : program.Every Expr.Fitting) :
    OnlyUnresolved program.compile :=
  (Statement.onlyUnresolved_codeAll fitting []).bind fun _ => trivial

theorem Program.Printable.every {program : Program} (printable : program.Printable) :
    program.Every Expr.Fitting ∧ program.Every Expr.Saturated ∧ program.Every Expr.Named :=
  ⟨fun statement member => (printable.statements statement member).fitting,
    fun statement member => (printable.statements statement member).saturated,
    fun statement member => (printable.statements statement member).named⟩

theorem exists_run_of_compile {source : List Char} {program : Program} {code : Code}
    (read : Program.ofSource source = .ok program) (compiled : program.compile = .ok code)
    (machine : Machine) (console : Console) :
    ∃ value, (Machine.run code machine console).result = .ok value := by
  have saturated := (Program.printable_of_ofSource read).every.2.1
  obtain ⟨final, slots, -, ran, -⟩ := Program.run_compile saturated compiled machine console
  exact ⟨final.result, by rw [ran]⟩

namespace CommandLine.Options

theorem status_answer (options : Options) (source : List Char) :
    (options.answer source).status = if (compile source).isOk then 0 else 1 := by
  unfold answer compile
  cases read : Program.ofSource source with
  | error error =>
    simp only [error_bind, failed]
    split <;> rfl
  | ok program =>
    have outcome : (∃ error, program.compile = .error error) ∨
        ∃ code, program.compile = .ok code := by
      cases program.compile <;> simp
    rcases outcome with ⟨error, compiled⟩ | ⟨code, compiled⟩
    · simp only [ok_bind, compiled, failed]
      split <;> rfl
    · simp only [ok_bind, compiled]
      split
      · -- A run that failed would give the status 1 to a source that compiles.
        obtain ⟨value, ran⟩ := exists_run_of_compile read compiled {} {}
        simp only [ran]
        rfl
      · rfl

theorem status_report_run (options : Options) (input : Except ReadFailure String) :
    ({ options with run := true }.report input).status =
      ({ options with run := false }.report input).status := by
  cases input with
  | error failure => rfl
  | ok source => simp only [report, status_answer]

end CommandLine.Options

/-- Programs that are read from a source never go wrong. Their literals fit in 32 bits, their calls
hand over as many arguments as the builtins take, and their names are identifiers and no keywords.
So they compile or use a name before it is defined, their code runs to its end on every machine, and
whether it is run does not change the status of the command line. -/
theorem compiled_never_goes_wrong (source : List Char) :
    (∀ program, Program.ofSource source = .ok program →
      program.Every Expr.Fitting ∧ program.Every Expr.Saturated ∧ program.Every Expr.Named ∧
      (∀ statement ∈ program.statements, ∀ name ∈ statement.target?,
        Text.isName name.toList = true) ∧
      ((∃ code, compile source = .ok code) ∨
        ∃ name span, compile source = .error (.reference name span))) ∧
    (∀ code, compile source = .ok code → ∀ machine console,
      ∃ value, (Machine.run code machine console).result = .ok value) ∧
    ∀ (options : CommandLine.Options) (input : Except CommandLine.ReadFailure String),
      ({ options with run := true }.report input).status =
        ({ options with run := false }.report input).status := by
  refine ⟨?_, ?_, ?_⟩
  · intro program read
    have printable := Program.printable_of_ofSource read
    obtain ⟨fitting, saturated, named⟩ := printable.every
    refine ⟨fitting, saturated, named, ?_, ?_⟩
    · intro statement member
      exact (printable.statements statement member).target
    · rw [compile, read, ok_bind]
      exact (Program.onlyUnresolved_compile fitting).cases
  · intro code compiled machine console
    obtain ⟨program, read, compiled⟩ := bind_eq_ok.mp compiled
    exact exists_run_of_compile read compiled machine console
  · exact fun options input => options.status_report_run input

def limits : List Char :=
  "x = pow(2, 31) - 2147483647\nprint(max(x, -2147483648))".toList

theorem limits_never_go_wrong :
    ∃ program code value, Program.ofSource limits = .ok program ∧
      program.Every Expr.Fitting ∧ program.Every Expr.Saturated ∧ program.Every Expr.Named ∧
      compile limits = .ok code ∧ (Machine.run code {} {}).result = .ok value ∧
      (CommandLine.Options.answer { run := true } limits).status =
        (CommandLine.Options.answer { run := false } limits).status := by
  obtain ⟨code, compiled⟩ : ∃ code, compile limits = .ok code := exists_eq_ok (by decide +kernel)
  obtain ⟨program, read, -⟩ := bind_eq_ok.mp compiled
  obtain ⟨sound, runs, statuses⟩ := compiled_never_goes_wrong limits
  obtain ⟨fitting, saturated, named, -⟩ := sound program read
  obtain ⟨value, ran⟩ := runs code compiled {} {}
  exact ⟨program, code, value, read, fitting, saturated, named, compiled, ran,
    statuses { run := true } (.ok (String.ofList limits))⟩

end StackScript
