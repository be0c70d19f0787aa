import Mathlib.Algebra.Ring.Parity
import Mathlib.Tactic.Linarith
import StackScript.Machine.Console

set_option autoImplicit false

namespace StackScript

def Operator.exact : Operator → Int → Int → Int
  | add, left, right => left + right
  | sub, left, right => left - right
  | mul, left, right => left * right

theorem Operator.apply_eq (operator : Operator) (left right : Int32) :
    operator.apply left right = Int32.ofInt (operator.exact left.toInt right.toInt) := by
  cases operator <;> simp [apply, exact]

def exactPower (base exponent : Int) : Int :=
  if 0 ≤ exponent then base ^ exponent.toNat else Int.tdiv 1 (base ^ (-exponent).toNat)

namespace Word

theorem abs_eq (value : Int32) : abs value = Int32.ofInt value.toInt.natAbs := by
  unfold abs
  split
  next negative =>
    have flipped : (value.toInt.natAbs : Int) = -value.toInt := by omega
    simp [flipped]
  next notNegative =>
    have same : (value.toInt.natAbs : Int) = value.toInt := by omega
    simp [same]

theorem larger_eq (left right : Int32) :
    larger left right = Int32.ofInt (max left.toInt right.toInt) := by
  unfold larger
  split
  next ordered => simp [max_eq_right ordered]
  next ordered => simp [max_eq_left (by omega : right.toInt ≤ left.toInt)]

theorem smaller_eq (left right : Int32) :
    smaller left right = Int32.ofInt (min left.toInt right.toInt) := by
  unfold smaller
  split
  next ordered => simp [min_eq_left ordered]
  next ordered => simp [min_eq_right (by omega : right.toInt ≤ left.toInt)]

theorem squarings_ofInt (base : Int) (exponent : Nat) :
    squarings (Int32.ofInt base) exponent = Int32.ofInt (base ^ exponent) := by
  -- The base is squared where the exponent is halved, so the claim is about every base at once.
  induction exponent using Nat.strongRecOn generalizing base with
  | ind exponent ih =>
    rw [squarings]
    split
    next zero => simp [zero]
    next positive =>
      have root : squarings (Int32.ofInt base * Int32.ofInt base) (exponent / 2) =
          Int32.ofInt (base ^ (2 * (exponent / 2))) := by
        rw [← Int32.ofInt_mul, ih (exponent / 2) (by omega), Int.pow_mul, Int.pow_succ, Int.pow_one]
      rw [root]
      split
      next even => rw [show 2 * (exponent / 2) = exponent by omega]
      next odd =>
        have split : exponent = 2 * (exponent / 2) + 1 := by omega
        conv_rhs => rw [split, Int.pow_succ, Int.mul_comm]
        simp

theorem tdiv_one_pow {base : Int} (notOne : base ≠ 1) (notMinusOne : base ≠ -1) {exponent : Nat}
    (positive : 0 < exponent) : Int.tdiv 1 (base ^ exponent) = 0 := by
  by_cases zero : base = 0
  · simp [zero, Nat.pos_iff_ne_zero.mp positive]
  · have large : 1 < (base ^ exponent).natAbs := by
      rw [Int.natAbs_pow]
      exact Nat.one_lt_pow (by omega) (by omega)
    rw [← Int.natAbs_eq_zero, Int.natAbs_tdiv]
    exact Nat.div_eq_of_lt large

theorem power_eq (base exponent : Int32) :
    power base exponent = Int32.ofInt (exactPower base.toInt exponent.toInt) := by
  unfold power exactPower
  split
  next notNegative =>
    conv_lhs => rw [← Int32.ofInt_toInt base]
    exact squarings_ofInt base.toInt exponent.toInt.toNat
  next negative =>
    split
    next one =>
      subst one
      simp
    next notOne =>
      split
      next minusOne =>
        subst minusOne
        have flipped : (-1 : Int32).toInt = -1 := by decide
        rw [flipped]
        split
        next even =>
          have even : Even (-exponent.toInt).toNat := Nat.even_iff.mpr (by omega)
          simp [even.neg_one_pow]
        next odd =>
          have odd : Odd (-exponent.toInt).toNat := Nat.odd_iff.mpr (by omega)
          simp [odd.neg_one_pow]
      next notMinusOne =>
        rw [tdiv_one_pow _ _ (by omega)]
        · rfl
        · exact fun same => notOne (Int32.toInt.inj same)
        · exact fun same => notMinusOne (Int32.toInt.inj same)

end Word

def Builtin.value? : Builtin → List Int → Option Int
  | abs, [value] => some value.natAbs
  | print, [value] => some value
  | max, [left, right] => some (Max.max left right)
  | min, [left, right] => some (Min.min left right)
  | pow, [base, exponent] => some (exactPower base exponent)
  | _, _ => none

def Builtin.printed (builtin : Builtin) (value : Int) : String :=
  if builtin = print then toString value ++ "\n" else ""

theorem Console.call_eq {builtin : Builtin} {arguments : List Int32} {value : Int}
    (exact : builtin.value? (arguments.map Int32.toInt) = some value) (console : Console) :
    console.call builtin arguments =
      (.ok (Int32.ofInt value), ⟨console.output ++ builtin.printed value⟩) := by
  cases builtin with
  | abs | print =>
    match arguments with
    | [argument] =>
      simp only [Builtin.value?, List.map, Option.some.injEq] at exact
      simp [← exact, call, Console.print, Builtin.printed, Word.abs_eq]
    | [] | _ :: _ :: _ => simp [Builtin.value?] at exact
  | max | min | pow =>
    match arguments with
    | [first, second] =>
      simp only [Builtin.value?, List.map, Option.some.injEq] at exact
      simp only [← exact, call, Builtin.printed, Word.larger_eq, Word.smaller_eq, Word.power_eq]
      simp
    | [] | [_] | _ :: _ :: _ :: _ => simp [Builtin.value?] at exact

end StackScript
