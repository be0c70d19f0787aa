import StackScript.Program.Code
import StackScript.Proofs.Except
import StackScript.Proofs.Printable

set_option autoImplicit false

namespace StackScript

variable {ε α β : Type}

def failure? : Except ε α → Option ε
  | .ok _ => none
  | .error error => some error

theorem failure?_eq_none {result : Except ε α} :
    failure? result = none ↔ ∃ value, result = .ok value := by
  cases result <;> simp [failure?]

theorem failure?_eq_some {result : Except ε α} {error : ε} :
    failure? result = some error ↔ result = .error error := by
  cases result <;> simp [failure?]

theorem failure?_bind (first : Except ε α) {next : α → Except ε β} {later : Option ε}
    (same : ∀ value, failure? (next value) = later) :
    failure? (first >>= next) = (failure? first).or later := by
  cases first with
  | error error => rfl
  | ok value => simpa [failure?] using same value

theorem failure?_bind_pure (first : Except ε α) (after : α → β) :
    failure? (first >>= fun value => pure (after value)) = failure? first := by
  cases first <;> rfl

namespace Expr

def leaves : Expr → List Expr
  | number span value => [number span value]
  | identifier span name => [identifier span name]
  | binary _ _ left right => left.leaves ++ right.leaves
  | unaryCall _ _ argument => argument.leaves
  | binaryCall _ _ first second => first.leaves ++ second.leaves

def offence? (names : Names) : Expr → Option CompileError
  | number span value =>
    if Decimal.fits value then none else some (.fault (.constantOutOfRange value) span)
  | identifier span name => if name ∈ names then none else some (.reference name span)
  | _ => none

theorem failure?_code (names : Names) (expr : Expr) :
    failure? (expr.code names) = expr.leaves.findSome? (offence? names) := by
  -- The code of a right operand is only asked for when the left one has code, and so is its error.
  induction expr with
  | number span value =>
    by_cases fits : Decimal.fits value = true <;> simp [code, leaves, offence?, fits, failure?]
  | identifier span name =>
    by_cases known : name ∈ names <;> simp [code, leaves, offence?, known, failure?]
  | binary span operator left right ihLeft ihRight =>
    rw [leaves, List.findSome?_append, ← ihLeft, ← ihRight]
    apply failure?_bind
    intro leftCode
    exact failure?_bind_pure _ _
  | unaryCall span builtin argument ih =>
    rw [leaves, ← ih]
    exact failure?_bind_pure _ _
  | binaryCall span builtin first second ihFirst ihSecond =>
    rw [leaves, List.findSome?_append, ← ihFirst, ← ihSecond]
    apply failure?_bind
    intro firstCode
    exact failure?_bind_pure _ _

end Expr

namespace Statement

theorem failure?_code (names : Names) (statement : Statement) :
    failure? (statement.code names) = statement.value.leaves.findSome? (Expr.offence? names) := by
  rw [← Expr.failure?_code]
  cases statement with
  | define span name value => exact failure?_bind_pure _ _
  | expression span value => exact failure?_bind_pure _ _

theorem mem_defines {names : Names} {statement : Statement} {name : String} :
    name ∈ statement.defines names ↔ name ∈ names ∨ statement.target? = some name := by
  cases statement with
  | define span target value => simp [defines, target?, Names.mem_define, eq_comm]
  | expression span value => simp [defines, target?]

theorem mem_foldl_defines_iff {statements : List Statement} {names : Names} {name : String} :
    name ∈ statements.foldl defines names ↔
      name ∈ names ∨ ∃ statement ∈ statements, statement.target? = some name := by
  induction statements generalizing names with
  | nil => simp
  | cons first rest ih => simp [ih, mem_defines, or_assoc]

end Statement

namespace Program

def leaves (program : Program) : List (Expr × Nat) :=
  program.statements.zipIdx.flatMap fun place => place.1.value.leaves.map (·, place.2)

def DefinedBefore (program : Program) (index : Nat) (name : String) : Prop :=
  ∃ earlier < index, ∃ statement, program.statements[earlier]? = some statement ∧
    statement.target? = some name

/-- What is wrong with a leaf: it is a literal out of range, which is a fault of the kind
`literalOutOfRange`, or a name that no statement before its own defines. -/
inductive Offends (program : Program) : Expr × Nat → CompileError → Prop
  | literal {span : Span} {value : Int} {index : Nat}
      (outside : ¬ (Int32.minValue.toInt ≤ value ∧ value ≤ Int32.maxValue.toInt)) :
      Offends program (.number span value, index) (.fault (.constantOutOfRange value) span)
  | name {span : Span} {name : String} {index : Nat}
      (unknown : ¬ program.DefinedBefore index name) :
      Offends program (.identifier span name, index) (.reference name span)

def namesBefore (program : Program) (index : Nat) : Names :=
  (program.statements.take index).foldl Statement.defines []

theorem mem_namesBefore {program : Program} {index : Nat} {name : String} :
    name ∈ program.namesBefore index ↔ program.DefinedBefore index name := by
  rw [namesBefore, Statement.mem_foldl_defines_iff, DefinedBefore]
  simp only [List.not_mem_nil, false_or]
  simp only [List.mem_iff_getElem?, List.getElem?_take]
  constructor
  next =>
    rintro ⟨statement, ⟨earlier, found⟩, target⟩
    by_cases before : earlier < index
    next => exact ⟨earlier, before, statement, by simpa [before] using found, target⟩
    next => simp [before] at found
  next =>
    rintro ⟨earlier, before, statement, found, target⟩
    exact ⟨statement, ⟨earlier, by simpa [before] using found⟩, target⟩

theorem offends_iff {program : Program} {place : Expr × Nat} {error : CompileError} :
    program.Offends place error ↔
      place.1.offence? (program.namesBefore place.2) = some error := by
  constructor
  next =>
    intro offends
    cases offends with
    | literal outside => exact if_neg (mt Decimal.fits_iff.mp outside)
    | name unknown => exact if_neg (mt mem_namesBefore.mp unknown)
  next =>
    intro found
    obtain ⟨leaf, index⟩ := place
    cases leaf with
    | number span value =>
      simp only [Expr.offence?, Decimal.fits_iff, Option.ite_none_left_eq_some,
        Option.some.injEq] at found
      rw [← found.2]
      exact .literal found.1
    | identifier span name =>
      simp only [Expr.offence?, mem_namesBefore, Option.ite_none_left_eq_some,
        Option.some.injEq] at found
      rw [← found.2]
      exact .name found.1
    | _ => simp [Expr.offence?] at found

theorem not_offends_iff {program : Program} {place : Expr × Nat} :
    (∀ problem, ¬ program.Offends place problem) ↔
      place.1.offence? (program.namesBefore place.2) = none := by
  simp only [offends_iff, Option.eq_none_iff_forall_ne_some, ne_eq]

theorem failure?_codeAll (front rest : List Statement) :
    failure? (Statement.codeAll (front.foldl Statement.defines []) rest) =
      ((rest.zipIdx front.length).flatMap fun place =>
        place.1.value.leaves.map (·, place.2)).findSome? fun place =>
          place.1.offence? (namesBefore ⟨front ++ rest⟩ place.2) := by
  -- `front` is what was compiled already: it has defined the names, and its length is the number
  -- of the statement that comes next.
  induction rest generalizing front with
  | nil => rfl
  | cons first rest ih =>
    have here : namesBefore ⟨front ++ first :: rest⟩ front.length =
        front.foldl Statement.defines [] := by
      rw [namesBefore, List.take_left]
    have later := ih (front ++ [first])
    rw [List.foldl_append, List.append_assoc, List.length_append] at later
    rw [List.zipIdx_cons, List.flatMap_cons, List.findSome?_append, List.findSome?_map]
    simp only [Function.comp_def, here, ← Statement.failure?_code]
    rw [Statement.codeAll]
    apply failure?_bind
    intro code
    rw [failure?_bind_pure]
    exact later

theorem failure?_compile (program : Program) :
    failure? program.compile = program.leaves.findSome? fun place =>
      place.1.offence? (program.namesBefore place.2) := by
  rw [compile, failure?_bind_pure]
  exact failure?_codeAll [] program.statements

/-- A program compiles if every literal in it fits in 32 bits and every name is the target of an
earlier statement. Otherwise it fails with the error of the first leaf that offends, statement by
statement and in each from left to right. -/
theorem compile_fails_at_first_offence (program : Program) :
    ((∃ code, program.compile = .ok code) ↔
      (∀ span value index, (.number span value, index) ∈ program.leaves →
        Int32.minValue.toInt ≤ value ∧ value ≤ Int32.maxValue.toInt) ∧
      ∀ span name index, (.identifier span name, index) ∈ program.leaves →
        program.DefinedBefore index name) ∧
    ∀ error, program.compile = .error error ↔
      ∃ before leaf after, program.leaves = before ++ leaf :: after ∧
        (∀ earlier ∈ before, ∀ problem, ¬ program.Offends earlier problem) ∧
        program.Offends leaf error := by
  constructor
  next =>
    rw [← failure?_eq_none, failure?_compile, List.findSome?_eq_none_iff]
    constructor
    next =>
      intro fine
      constructor
      next =>
        intro span value index member
        have inside : Decimal.fits value = true := by simpa [Expr.offence?] using fine _ member
        exact Decimal.fits_iff.mp inside
      next =>
        intro span name index member
        simpa [Expr.offence?, mem_namesBefore] using fine _ member
    next =>
      rintro ⟨fitting, defined⟩ ⟨leaf, index⟩ member
      cases leaf with
      | number span value =>
        exact if_pos (Decimal.fits_iff.mpr (fitting span value index member))
      | identifier span name =>
        exact if_pos (mem_namesBefore.mpr (defined span name index member))
      | _ => rfl
  next =>
    intro error
    rw [← failure?_eq_some, failure?_compile, List.findSome?_eq_some_iff]
    simp only [not_offends_iff]
    simp only [offends_iff, and_comm]

-- `x = 2147483647`, `x + 2147483648`, `y`.
def lateLiteral : Program :=
  ⟨[.define ⟨0, 14⟩ "x" (.number ⟨4, 14⟩ 2147483647),
    .expression ⟨15, 29⟩ (.binary ⟨15, 29⟩ .add (.identifier ⟨15, 16⟩ "x")
      (.number ⟨19, 29⟩ 2147483648)),
    .expression ⟨30, 31⟩ (.identifier ⟨30, 31⟩ "y")]⟩

theorem lateLiteral_fails_at_first_offence :
    lateLiteral.compile = .error (.fault (.constantOutOfRange 2147483648) ⟨19, 29⟩) ∧
    (∃ code, compile ⟨lateLiteral.statements.take 1⟩ = .ok code) := by
  constructor
  next =>
    refine ((compile_fails_at_first_offence lateLiteral).2 _).mpr
      ⟨[(.number ⟨4, 14⟩ 2147483647, 0), (.identifier ⟨15, 16⟩ "x", 1)],
        (.number ⟨19, 29⟩ 2147483648, 1), [(.identifier ⟨30, 31⟩ "y", 2)], rfl, ?_,
        .literal (by decide)⟩
    intro earlier member
    rw [not_offends_iff]
    rcases List.mem_pair.mp member with rfl | rfl
    next => decide
    next => decide
  next =>
    refine (compile_fails_at_first_offence _).1.mpr ⟨?_, ?_⟩
    next =>
      intro span value index member
      obtain ⟨⟨rfl, rfl⟩, rfl⟩ : (span = ⟨4, 14⟩ ∧ value = 2147483647) ∧ index = 0 := by
        simpa [leaves, lateLiteral, Statement.value, Expr.leaves] using member
      decide
    next =>
      intro span name index member
      simp [leaves, lateLiteral, Statement.value, Expr.leaves] at member

end Program

end StackScript
