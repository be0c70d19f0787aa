import StackScript.Builtin

set_option autoImplicit false

namespace StackScript

/-- Where code keeps a value: under a name, or in the slot for the value of an expression that
stands as a statement. -/
inductive Slot where
  | scratch
  | named (name : String)
deriving DecidableEq, Repr

/-- No name of a source starts with a dollar sign, so the scratch slot has a name of its own. -/
def Slot.name : Slot → String
  | scratch => "$last"
  | named name => name

inductive Instruction where
  | declare (slot : Slot)
  | const (value : Int32)
  | get (slot : Slot)
  | set (slot : Slot)
  | arith (operator : Operator)
  | call (builtin : Builtin)
deriving DecidableEq, Repr

def Operator.mnemonic : Operator → String
  | add => "i32.add"
  | sub => "i32.sub"
  | mul => "i32.mul"

def Instruction.text : Instruction → String
  | declare slot => "(local $" ++ slot.name ++ " i32)"
  | const value => "(i32.const " ++ toString value.toInt ++ ")"
  | get slot => "(local.get $" ++ slot.name ++ ")"
  | set slot => "(local.set $" ++ slot.name ++ ")"
  | arith operator => "(" ++ operator.mnemonic ++ ")"
  | call builtin => "(call $" ++ builtin.name ++ ")"

abbrev Code := List Instruction

def Code.text (code : Code) : String :=
  "\n".intercalate (code.map Instruction.text)

end StackScript
