set_option autoImplicit false

namespace StackScript

inductive Operator where
  | add
  | sub
  | mul
deriving DecidableEq, Repr

namespace Operator

def ofSymbol? : String → Option Operator
  | "+" => some add
  | "-" => some sub
  | "*" => some mul
  | _ => none

def name : Operator → String
  | add => "Add"
  | sub => "Sub"
  | mul => "Mul"

end Operator

inductive Builtin where
  | abs
  | print
  | max
  | min
  | pow
deriving DecidableEq, Repr

namespace Builtin

def all : List Builtin := [abs, print, max, min, pow]

def name : Builtin → String
  | abs => "abs"
  | print => "print"
  | max => "max"
  | min => "min"
  | pow => "pow"

def arity : Builtin → Nat
  | abs | print => 1
  | max | min | pow => 2

def lookup? (name : String) (arity : Nat) : Option Builtin :=
  all.find? fun builtin => builtin.name = name && builtin.arity = arity

theorem lookup?_name_arity (builtin : Builtin) :
    lookup? builtin.name builtin.arity = some builtin := by
  cases builtin <;> decide

end Builtin

end StackScript
