import StackScript.Builtin

set_option autoImplicit false

namespace StackScript

def Operator.apply : Operator → Int32 → Int32 → Int32
  | add, left, right => left + right
  | sub, left, right => left - right
  | mul, left, right => left * right

namespace Word

/-- The smallest word has no counterpart and stays itself. -/
def abs (value : Int32) : Int32 :=
  if value.toInt < 0 then -value else value

def larger (left right : Int32) : Int32 :=
  if left.toInt ≤ right.toInt then right else left

def smaller (left right : Int32) : Int32 :=
  if left.toInt ≤ right.toInt then left else right

def squarings (base : Int32) (exponent : Nat) : Int32 :=
  if exponent = 0 then 1
  else
    let root := squarings (base * base) (exponent / 2)
    if exponent % 2 = 0 then root else base * root
termination_by exponent

/-- The power of a word. Below a negative exponent it is a fraction, cut off toward zero; that of
zero counts as zero. -/
def power (base exponent : Int32) : Int32 :=
  if 0 ≤ exponent.toInt then squarings base exponent.toInt.toNat
  else if base = 1 then 1
  else if base = -1 then if exponent.toInt % 2 = 0 then 1 else -1
  else 0

end Word

end StackScript
