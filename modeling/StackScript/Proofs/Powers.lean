import Mathlib.Data.Int.ModEq
import Mathlib.Data.Rat.Floor
import StackScript.Proofs.Word

set_option autoImplicit false

namespace StackScript

def truncate (fraction : ℚ) : ℤ :=
  if 0 ≤ fraction then ⌊fraction⌋ else ⌈fraction⌉

theorem truncate_eq_zero {fraction : ℚ} (above : -1 < fraction) (below : fraction < 1) :
    truncate fraction = 0 := by
  unfold truncate
  split
  next notNegative => exact Int.floor_eq_zero_iff.mpr ⟨notNegative, below⟩
  next negative => exact Int.ceil_eq_zero_iff.mpr ⟨above, by linarith⟩

theorem truncate_intCast (value : ℤ) : truncate value = value := by
  unfold truncate
  split
  next => exact Int.floor_intCast value
  next => exact Int.ceil_intCast value

theorem truncate_inv (value : ℤ) : truncate (value : ℚ)⁻¹ = Int.tdiv 1 value := by
  by_cases unit : value = 1 ∨ value = -1
  next =>
    have inverse : (value : ℚ)⁻¹ = value := by rcases unit with rfl | rfl <;> norm_num
    rw [inverse, truncate_intCast]
    rcases unit with rfl | rfl <;> rfl
  next =>
    -- No other integer has an inverse that is an integer, and zero is its own.
    have cut : Int.tdiv 1 (value ^ 1) = 0 :=
      Word.tdiv_one_pow (fun one => unit (.inl one)) (fun minusOne => unit (.inr minusOne)) one_pos
    have small : |(value : ℚ)⁻¹| < 1 := by
      by_cases zero : value = 0
      next => simp [zero]
      next =>
        have large : 1 < |value| := by
          rw [Int.abs_eq_natAbs]
          omega
        rw [abs_inv]
        exact inv_lt_one_of_one_lt₀ (by exact_mod_cast large)
    obtain ⟨above, below⟩ := abs_lt.mp small
    rw [truncate_eq_zero above below, ← cut, pow_one]

theorem truncate_zpow (base : ℤ) {exponent : ℤ} (negative : exponent < 0) :
    truncate ((base : ℚ) ^ exponent) = exactPower base exponent := by
  obtain ⟨count, same⟩ := Int.eq_ofNat_of_zero_le (Int.neg_nonneg_of_nonpos negative.le)
  obtain rfl : exponent = -count := by omega
  rw [zpow_neg, zpow_natCast, exactPower, if_neg (Int.not_le.mpr negative), same, Int.toNat_natCast]
  exact_mod_cast truncate_inv (base ^ count)

namespace Word

def countedSquarings (base : Int32) (exponent : Nat) : Int32 × Nat :=
  if exponent = 0 then (1, 0)
  else
    let root := countedSquarings (base * base) (exponent / 2)
    if exponent % 2 = 0 then (root.1, root.2 + 1) else (base * root.1, root.2 + 2)
termination_by exponent

theorem fst_countedSquarings (base : Int32) (exponent : Nat) :
    (countedSquarings base exponent).1 = squarings base exponent := by
  fun_induction squarings base exponent with
  | case1 base => rw [countedSquarings, if_pos rfl]
  | case2 base exponent positive root even ih =>
    rw [countedSquarings, if_neg positive, if_pos even]
    exact ih
  | case3 base exponent positive root odd ih =>
    rw [countedSquarings, if_neg positive, if_neg odd]
    exact congrArg (base * ·) ih

theorem snd_countedSquarings_le {bits exponent : Nat} (short : exponent < 2 ^ bits)
    (base : Int32) : (countedSquarings base exponent).2 ≤ 2 * bits := by
  -- A halved exponent has one binary digit less.
  induction bits generalizing base exponent with
  | zero =>
    obtain rfl : exponent = 0 := by simpa using short
    rw [countedSquarings, if_pos rfl]
  | succ bits ih =>
    have half := @ih (exponent / 2) (by omega) (base * base)
    rw [countedSquarings]
    split
    next => exact Nat.zero_le _
    next =>
      split
      next => exact Nat.le_trans (Nat.succ_le_succ half) (by omega)
      next => exact Nat.add_le_add_right half 2

theorem toInt_power_of_neg (base : Int32) {exponent : Int32} (negative : exponent.toInt < 0) :
    (power base exponent).toInt = exactPower base.toInt exponent.toInt := by
  have notNegative : ¬ 0 ≤ exponent.toInt := Int.not_le.mpr negative
  have small : (exactPower base.toInt exponent.toInt).natAbs ≤ 1 := by
    rw [exactPower, if_neg notNegative, Int.natAbs_tdiv]
    exact Nat.div_le_self 1 _
  rw [power_eq]
  exact Int32.toInt_ofInt_of_le (by omega) (by omega)

end Word

/-- The builtin `pow` is the power of integers and leaves the console alone. Its value is found by
repeated squaring and is the power up to a multiple of 2^32; below a negative exponent it is the
fraction, cut off toward zero, and zero for the base zero. -/
theorem Console.pow_is_integer_power (console : Console) (base exponent : Int32) :
    ∃ value, console.call .pow [base, exponent] = (.ok value, console) ∧
      (0 ≤ exponent.toInt →
        value.toInt ≡ base.toInt ^ exponent.toInt.toNat [ZMOD 2 ^ 32] ∧
        ∃ products ≤ 62, Word.countedSquarings base exponent.toInt.toNat = (value, products)) ∧
      (exponent.toInt < 0 → base ≠ 0 →
        value.toInt = truncate ((base.toInt : ℚ) ^ exponent.toInt)) ∧
      (exponent.toInt < 0 → base = 0 → value = 0) := by
  refine ⟨Word.power base exponent, rfl, ?_, ?_, ?_⟩
  next =>
    intro notNegative
    constructor
    next =>
      rw [Word.power_eq, exactPower, if_pos notNegative, Int32.toInt_ofInt]
      exact Int.bmod_emod
    next =>
      have short : exponent.toInt.toNat < 2 ^ 31 := by
        have := exponent.toInt_lt
        omega
      refine ⟨_, Word.snd_countedSquarings_le short base, Prod.ext ?_ rfl⟩
      rw [Word.fst_countedSquarings, Word.power, if_pos notNegative]
  next =>
    intro negative _
    rw [Word.toInt_power_of_neg base negative, truncate_zpow base.toInt negative]
  next =>
    rintro negative rfl
    rw [Word.power, if_neg (Int.not_le.mpr negative)]
    rfl

theorem Console.pow_at_limits :
    (∃ value, call {} .pow [-3, 21] = (.ok value, {}) ∧ value = -1870418611 ∧
      value.toInt ≡ (-3) ^ 21 [ZMOD 2 ^ 32]) ∧
    (∃ value, call {} .pow [Int32.minValue, -1] = (.ok value, {}) ∧
      value.toInt = truncate ((-2147483648 : ℚ) ^ (-1 : ℤ))) ∧
    (∃ value, call {} .pow [-1, Int32.minValue] = (.ok value, {}) ∧
      value.toInt = truncate ((-1 : ℚ) ^ (-2147483648 : ℤ))) ∧
    ∃ value, call {} .pow [0, -5] = (.ok value, {}) ∧ value = 0 := by
  obtain ⟨wrapped, called, congruent, -, -⟩ := pow_is_integer_power {} (-3) 21
  obtain ⟨cut, cutCalled, -, isCut, -⟩ := pow_is_integer_power {} Int32.minValue (-1)
  obtain ⟨unit, unitCalled, -, isUnit, -⟩ := pow_is_integer_power {} (-1) Int32.minValue
  obtain ⟨zero, zeroCalled, -, -, isZero⟩ := pow_is_integer_power {} 0 (-5)
  refine ⟨⟨wrapped, called, ?_, (congruent (by decide)).1⟩, ⟨cut, cutCalled, ?_⟩,
    ⟨unit, unitCalled, ?_⟩, ⟨zero, zeroCalled, isZero (by decide) rfl⟩⟩
  next =>
    have computed : (call {} .pow [-3, 21]).1 = .ok (-1870418611) := by decide +kernel
    rw [called] at computed
    exact Except.ok.inj computed
  next => exact_mod_cast isCut (by decide) (by decide)
  next => exact_mod_cast isUnit (by decide) (by decide)

end StackScript
