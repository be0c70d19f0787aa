import StackScript.Proofs.Evaluation
import StackScript.Proofs.RoundTrip

set_option autoImplicit false

namespace StackScript

/-- What has been read of some code: the statements that are complete, and the expressions behind
them that wait to be used, the last one first. -/
structure Draft where
  statements : List Statement := []
  waiting : List Expr := []

namespace Draft

def wait (draft : Draft) (expr : Expr) : Draft :=
  { draft with waiting := expr :: draft.waiting }

def complete (draft : Draft) (statement : Statement) : Draft :=
  { draft with statements := draft.statements ++ [statement] }

def stored (value : Expr) : Slot → Statement
  | .scratch => .expression ⟨0, 0⟩ value
  | .named name => .define ⟨0, 0⟩ name value

def call? (draft : Draft) (builtin : Builtin) : Option Draft :=
  match builtin.arity, draft.waiting with
  | 1, argument :: waiting =>
    some { draft with waiting := .unaryCall ⟨0, 0⟩ builtin argument :: waiting }
  | 2, second :: first :: waiting =>
    some { draft with waiting := .binaryCall ⟨0, 0⟩ builtin first second :: waiting }
  | _, _ => none

/-- Goes on by one instruction. There are no declarations in the body of a program, and the scratch
slot is never read there. -/
def read? (draft : Draft) : Instruction → Option Draft
  | .const value => some (draft.wait (.number ⟨0, 0⟩ value.toInt))
  | .get (.named name) => some (draft.wait (.identifier ⟨0, 0⟩ name))
  | .arith operator =>
    match draft.waiting with
    | right :: left :: waiting =>
      some { draft with waiting := .binary ⟨0, 0⟩ operator left right :: waiting }
    | _ => none
  | .call builtin => draft.call? builtin
  | .set slot =>
    match draft.waiting with
    | value :: waiting => some (complete { draft with waiting } (stored value slot))
    | [] => none
  | .declare _ | .get .scratch => none

def readAll? (draft : Draft) (code : Code) : Option Draft :=
  code.foldlM read? draft

theorem readAll?_append {draft next : Draft} {first : Code}
    (done : draft.readAll? first = some next)
    (rest : Code) : draft.readAll? (first ++ rest) = next.readAll? rest := by
  rw [readAll?, List.foldlM_append]
  change (draft.readAll? first).bind _ = _
  rw [done]
  rfl

theorem readAll?_concat {draft next : Draft} {code : Code} (done : draft.readAll? code = some next)
    (instruction : Instruction) :
    draft.readAll? (code ++ [instruction]) = next.read? instruction := by
  rw [readAll?_append done, readAll?, List.foldlM_cons]
  cases next.read? instruction <;> rfl

theorem call?_unary (draft : Draft) {builtin : Builtin} (unary : builtin.arity = 1)
    (argument : Expr) :
    (draft.wait argument).call? builtin =
      some (draft.wait (.unaryCall ⟨0, 0⟩ builtin argument)) := by
  rw [call?, unary]
  rfl

theorem call?_binary (draft : Draft) {builtin : Builtin} (binary : builtin.arity = 2)
    (first second : Expr) :
    ((draft.wait first).wait second).call? builtin =
      some (draft.wait (.binaryCall ⟨0, 0⟩ builtin first second)) := by
  rw [call?, binary]
  rfl

end Draft

theorem Decimal.toInt_ofInt_of_fits {value : Int} (inside : fits value = true) :
    (Int32.ofInt value).toInt = value := by
  obtain ⟨least, most⟩ := fits_iff.mp inside
  exact Int32.toInt_ofInt_of_le least (Int.lt_add_one_of_le most)

theorem Expr.readAll?_code {names : Names} {expr : Expr} {code : Code}
    (saturated : expr.Every Saturated) (coded : expr.code names = .ok code) (draft : Draft) :
    draft.readAll? code = some (draft.wait expr.bare) := by
  induction expr generalizing code draft with
  | number span value =>
    rw [Expr.code] at coded
    split at coded
    next inside =>
      cases coded
      simp [Draft.readAll?, Draft.read?, bare, Decimal.toInt_ofInt_of_fits inside]
    next => cases coded
  | identifier span name =>
    rw [Expr.code] at coded
    split at coded
    next =>
      cases coded
      rfl
    next => cases coded
  | binary span operator left right ihLeft ihRight =>
    obtain ⟨leftCode, leftCoded, coded⟩ := bind_eq_ok.mp coded
    obtain ⟨rightCode, rightCoded, coded⟩ := bind_eq_ok.mp coded
    cases coded
    have leftRead := ihLeft saturated.2.1 leftCoded draft
    have rightRead := ihRight saturated.2.2 rightCoded (draft.wait left.bare)
    rw [Draft.readAll?_concat ((Draft.readAll?_append leftRead rightCode).trans rightRead)]
    rfl
  | unaryCall span builtin argument ih =>
    obtain ⟨argumentCode, argumentCoded, coded⟩ := bind_eq_ok.mp coded
    cases coded
    rw [Draft.readAll?_concat (ih saturated.2 argumentCoded draft)]
    exact draft.call?_unary saturated.1 argument.bare
  | binaryCall span builtin first second ihFirst ihSecond =>
    obtain ⟨firstCode, firstCoded, coded⟩ := bind_eq_ok.mp coded
    obtain ⟨secondCode, secondCoded, coded⟩ := bind_eq_ok.mp coded
    cases coded
    have firstRead := ihFirst saturated.2.1 firstCoded draft
    have secondRead := ihSecond saturated.2.2 secondCoded (draft.wait first.bare)
    rw [Draft.readAll?_concat ((Draft.readAll?_append firstRead secondCode).trans secondRead)]
    exact draft.call?_binary saturated.1 first.bare second.bare

namespace Statement

theorem stored_bare (statement : Statement) :
    Draft.stored statement.value.bare statement.slot = statement.bare := by
  cases statement <;> rfl

theorem readAll?_code {names : Names} {statement : Statement} {code : Code}
    (saturated : statement.value.Every Expr.Saturated) (coded : statement.code names = .ok code)
    (draft : Draft) : draft.readAll? code = some (draft.complete statement.bare) := by
  obtain ⟨valueCode, valueCoded, rfl⟩ := code_eq_ok.mp coded
  rw [Draft.readAll?_concat (Expr.readAll?_code saturated valueCoded draft), ← stored_bare]
  rfl

theorem readAll?_codeAll {names : Names} {statements : List Statement} {code : Code}
    (saturated : ∀ statement ∈ statements, statement.value.Every Expr.Saturated)
    (coded : codeAll names statements = .ok code) (draft : Draft) :
    draft.readAll? code =
      some { draft with statements := draft.statements ++ statements.map bare } := by
  induction statements generalizing names code draft with
  | nil =>
    cases coded
    simp [Draft.readAll?]
  | cons first rest ih =>
    obtain ⟨firstCode, firstCoded, coded⟩ := bind_eq_ok.mp coded
    obtain ⟨restCode, restCoded, coded⟩ := bind_eq_ok.mp coded
    cases coded
    rw [List.forall_mem_cons] at saturated
    rw [Draft.readAll?_append (readAll?_code saturated.1 firstCoded draft),
      ih saturated.2 restCoded]
    simp [Draft.complete]

end Statement

namespace Program

theorem readAll?_body {program : Program} {code : Code} (saturated : program.Every Expr.Saturated)
    (coded : program.body = .ok code) :
    Draft.readAll? {} code = some { statements := program.bare.statements } :=
  Statement.readAll?_codeAll saturated coded {}

/-- Two programs with the same code are the same up to their spans: in statements, names, literals,
operators and calls. -/
theorem bare_eq_of_body_eq {program other : Program} {code : Code}
    (saturated : program.Every Expr.Saturated) (otherSaturated : other.Every Expr.Saturated)
    (coded : program.body = .ok code) (otherCoded : other.body = .ok code) :
    program.bare = other.bare := by
  have read := readAll?_body saturated coded
  rw [readAll?_body otherSaturated otherCoded, Option.some.injEq, Draft.mk.injEq] at read
  exact congrArg mk read.1.symm

-- `x = 1 - 2`, `max(x, abs(x))`, as they are read behind some bytes.
def differenceBehind (bytes : Nat) : Program :=
  let span (start stop : Nat) : Span := ⟨bytes + start, bytes + stop⟩
  ⟨[.define (span 0 9) "x" (.binary (span 4 9) .sub (.number (span 4 5) 1) (.number (span 8 9) 2)),
    .expression (span 10 24) (.binaryCall (span 10 24) .max (.identifier (span 14 15) "x")
      (.unaryCall (span 17 23) .abs (.identifier (span 21 22) "x")))]⟩

theorem bare_differenceBehind :
    differenceBehind 0 ≠ differenceBehind 3 ∧ (differenceBehind 0).Every Expr.Saturated ∧
      (differenceBehind 3).Every Expr.Saturated ∧
      (∃ code, (differenceBehind 0).body = .ok code ∧ (differenceBehind 3).body = .ok code) ∧
      (differenceBehind 0).bare = (differenceBehind 3).bare := by
  have saturated (bytes : Nat) : (differenceBehind bytes).Every Expr.Saturated := by
    simp [differenceBehind, Every, Statement.value, Expr.Every, Expr.Saturated, Builtin.arity]
  have coded (bytes : Nat) : (differenceBehind bytes).body =
      .ok [.const 1, .const 2, .arith .sub, .set (.named "x"), .get (.named "x"),
        .get (.named "x"), .call .abs, .call .max, .set .scratch] := rfl
  exact ⟨by decide, saturated 0, saturated 3, ⟨_, coded 0, coded 3⟩,
    bare_eq_of_body_eq (saturated 0) (saturated 3) (coded 0) (coded 3)⟩

end Program

end StackScript
