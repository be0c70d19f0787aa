import StackScript.Instruction
import StackScript.Machine.Word

set_option autoImplicit false

namespace StackScript

inductive RuntimeError where
  | stackUnderflow (index : Nat) (instruction : Instruction)
  | undeclared (slot : Slot)
  | arity (builtin : Builtin) (count : Nat)
deriving DecidableEq, Repr

def RuntimeError.message : RuntimeError → String
  | stackUnderflow index instruction =>
    "stack underflow at instruction " ++ toString index ++ ": " ++ instruction.text
  | undeclared slot => "local '" ++ slot.name ++ "' used without a declaration"
  | arity builtin count =>
    "builtin '" ++ builtin.name ++ "' expects " ++ toString builtin.arity ++
      " argument(s), got " ++ toString count

structure Console where
  output : String := ""
deriving DecidableEq, Repr

namespace Console

def print (console : Console) (value : Int32) : Console :=
  ⟨console.output ++ (toString value.toInt ++ "\n")⟩

def call (console : Console) : Builtin → List Int32 → Except RuntimeError Int32 × Console
  | .print, [value] => (.ok value, console.print value)
  | .abs, [value] => (.ok (Word.abs value), console)
  | .max, [left, right] => (.ok (Word.larger left right), console)
  | .min, [left, right] => (.ok (Word.smaller left right), console)
  | .pow, [base, exponent] => (.ok (Word.power base exponent), console)
  | builtin, arguments => (.error (.arity builtin arguments.length), console)

end Console

end StackScript
