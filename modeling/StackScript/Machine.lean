import StackScript.Machine.Console

set_option autoImplicit false

namespace StackScript

abbrev Slots := List (Slot × Int32)

namespace Slots

def get? : Slots → Slot → Option Int32
  | [], _ => none
  | (held, value) :: rest, slot => if held = slot then some value else get? rest slot

def put : Slots → Slot → Int32 → Slots
  | [], slot, value => [(slot, value)]
  | (held, old) :: rest, slot, value =>
    if held = slot then (slot, value) :: rest else (held, old) :: put rest slot value

theorem get?_put (slots : Slots) (slot other : Slot) (value : Int32) :
    (slots.put slot value).get? other = if slot = other then some value else slots.get? other := by
  induction slots with
  | nil => rfl
  | cons entry rest ih =>
    obtain ⟨held, old⟩ := entry
    by_cases same : held = slot
    · by_cases asked : slot = other <;> simp [put, get?, same, asked]
    · by_cases asked : slot = other
      · subst asked
        simp [put, get?, same, ih]
      · simp [put, get?, same, ih, asked]

end Slots

structure Machine where
  /-- The top of the stack comes first. -/
  stack : List Int32 := []
  slots : Slots := []
deriving DecidableEq, Repr

namespace Machine

structure Outcome (α : Type) where
  result : Except RuntimeError α
  machine : Machine
  console : Console

def push (machine : Machine) (value : Int32) : Machine :=
  { machine with stack := value :: machine.stack }

def read (machine : Machine) (slot : Slot) : Except RuntimeError Int32 :=
  match machine.slots.get? slot with
  | some value => .ok value
  | none => .error (.undeclared slot)

def step (index : Nat) (instruction : Instruction) (machine : Machine) (console : Console) :
    Outcome Unit :=
  match instruction with
  | .declare slot => ⟨.ok (), { machine with slots := machine.slots.put slot 0 }, console⟩
  | .const value => ⟨.ok (), machine.push value, console⟩
  | .get slot =>
    match machine.read slot with
    | .ok value => ⟨.ok (), machine.push value, console⟩
    | .error error => ⟨.error error, machine, console⟩
  | .set slot =>
    match machine.stack with
    | [] => ⟨.error (.stackUnderflow index instruction), machine, console⟩
    | value :: stack =>
      match machine.read slot with
      | .ok _ => ⟨.ok (), ⟨stack, machine.slots.put slot value⟩, console⟩
      | .error error => ⟨.error error, { machine with stack }, console⟩
  | .arith operator =>
    match machine.stack with
    | right :: left :: stack =>
      ⟨.ok (), { machine with stack := operator.apply left right :: stack }, console⟩
    | _ => ⟨.error (.stackUnderflow index instruction), { machine with stack := [] }, console⟩
  | .call builtin =>
    if machine.stack.length < builtin.arity then
      ⟨.error (.stackUnderflow index instruction), machine, console⟩
    else
      let arguments := (machine.stack.take builtin.arity).reverse
      let stack := machine.stack.drop builtin.arity
      match console.call builtin arguments with
      | (.ok value, after) => ⟨.ok (), { machine with stack := value :: stack }, after⟩
      | (.error error, after) => ⟨.error error, { machine with stack }, after⟩

def execute (index : Nat) (code : Code) (machine : Machine) (console : Console) : Outcome Unit :=
  match code with
  | [] => ⟨.ok (), machine, console⟩
  | instruction :: rest =>
    match step index instruction machine console with
    | ⟨.ok _, next, after⟩ => execute (index + 1) rest next after
    | ⟨.error error, next, after⟩ => ⟨.error error, next, after⟩

theorem execute_append (index : Nat) (first rest : Code) (machine : Machine) (console : Console) :
    execute index (first ++ rest) machine console =
      match execute index first machine console with
      | ⟨.ok _, next, after⟩ => execute (index + first.length) rest next after
      | ⟨.error error, next, after⟩ => ⟨.error error, next, after⟩ := by
  induction first generalizing index machine console with
  | nil => simp [execute]
  | cons instruction code ih =>
    rw [List.cons_append, execute, execute]
    split
    next => simp [ih, Nat.add_assoc, Nat.add_comm 1]
    next => rfl

def run (code : Code) (machine : Machine) (console : Console) : Outcome Int32 :=
  match execute 0 code machine console with
  | ⟨.ok _, last, after⟩ => ⟨last.read .scratch, last, after⟩
  | ⟨.error error, last, after⟩ => ⟨.error error, last, after⟩

end Machine

end StackScript
