import StackScript.Program.Literal

set_option autoImplicit false

namespace StackScript

namespace Decimal

theorem fits_iff {value : Int} :
    fits value = true ↔ -2147483648 ≤ value ∧ value ≤ 2147483647 := by
  rw [fits, Bool.and_eq_true, decide_eq_true_eq, decide_eq_true_eq]

theorem digitsValue_zeros {zeros : List Char} (all : ∀ digit ∈ zeros, digit = '0') :
    digitsValue zeros = 0 := by
  rw [List.eq_replicate_of_mem all]
  induction zeros.length with
  | zero => rfl
  | succ count ih => rw [List.replicate_succ', digitsValue_concat, ih]; rfl

theorem digitsValue_append_of_zeros {zeros : List Char} (all : ∀ digit ∈ zeros, digit = '0')
    (digits : List Char) : digitsValue (zeros ++ digits) = digitsValue digits := by
  have start := digitsValue_zeros all
  unfold digitsValue at start ⊢
  rw [List.foldl_append, start]

theorem exists_trailing_zeros (digits : List Char) :
    ∃ zeros, digits = withoutTrailingZeros digits ++ zeros ∧ ∀ digit ∈ zeros, digit = '0' := by
  refine ⟨(digits.reverse.takeWhile (· == '0')).reverse, ?_, ?_⟩
  · rw [withoutTrailingZeros, ← List.reverse_append, List.takeWhile_append_dropWhile,
      List.reverse_reverse]
  · intro digit member
    simpa using List.all_eq_true.mp List.all_takeWhile digit (List.mem_reverse.mp member)

def significant (digits : List Char) : List Char :=
  (withoutTrailingZeros digits).dropWhile (· == '0')

theorem exists_leading_zeros (digits : List Char) :
    ∃ zeros, withoutTrailingZeros digits = zeros ++ significant digits ∧
      ∀ digit ∈ zeros, digit = '0' := by
  refine ⟨(withoutTrailingZeros digits).takeWhile (· == '0'),
    List.takeWhile_append_dropWhile.symm, ?_⟩
  intro digit member
  simpa using List.all_eq_true.mp List.all_takeWhile digit member

theorem magnitude_eq {decimal : Decimal} {trailing : List Char}
    (cut : decimal.whole ++ decimal.fraction =
      withoutTrailingZeros (decimal.whole ++ decimal.fraction) ++ trailing) :
    decimal.magnitude =
      let digits := significant (decimal.whole ++ decimal.fraction)
      let shift := decimal.exponent + trailing.length - decimal.fraction.length
      if digits = [] then .ok 0
      else if shift < 0 then .error .nonInteger
      else if 10 < digits.length + shift then .error .outOfRange
      else .ok (digitsValue (digits ++ List.replicate shift.toNat '0')) := by
  obtain ⟨leading, split, -⟩ := exists_leading_zeros (decimal.whole ++ decimal.fraction)
  have length := congrArg List.length cut
  have keptLength := congrArg List.length split
  rw [List.length_append, List.length_append] at length
  rw [List.length_append] at keptLength
  have places : (decimal.whole.length : Int) + decimal.exponent -
      ((leading.length + (significant (decimal.whole ++ decimal.fraction)).length -
        (significant (decimal.whole ++ decimal.fraction)).length : Nat) : Int) =
      (significant (decimal.whole ++ decimal.fraction)).length +
        (decimal.exponent + trailing.length - decimal.fraction.length) := by
    omega
  unfold magnitude
  dsimp only
  rw [← significant, keptLength, places]
  generalize significant (decimal.whole ++ decimal.fraction) = digits
  generalize decimal.exponent + trailing.length - decimal.fraction.length = shift
  have added : ((digits.length : Int) + shift).toNat - digits.length = shift.toNat := by omega
  have negative : (digits.length : Int) + shift < digits.length ↔ shift < 0 := by omega
  simp only [added, negative, List.isEmpty_iff]

theorem magnitude_whole {digits : List Char} (negative : Bool) (short : digits.length ≤ 10) :
    magnitude ⟨negative, digits, [], 0⟩ = .ok (digitsValue digits) := by
  -- The digits are zeros, then the significant ones, then zeros that are cut off and put back.
  obtain ⟨trailing, cut, trailingZeros⟩ := exists_trailing_zeros digits
  obtain ⟨leading, split, leadingZeros⟩ := exists_leading_zeros digits
  have value : digitsValue digits = digitsValue (significant digits ++ trailing) := by
    rw [split, List.append_assoc] at cut
    exact (congrArg digitsValue cut).trans (digitsValue_append_of_zeros leadingZeros _)
  have length := congrArg List.length cut
  rw [split, List.length_append, List.length_append] at length
  rw [@magnitude_eq ⟨negative, digits, [], 0⟩ trailing (by simpa using cut)]
  simp only [List.append_nil, List.length_nil]
  split
  · rename_i empty
    rw [value, empty, List.nil_append, digitsValue_zeros trailingZeros]
  · rw [if_neg (by omega), if_neg (by omega)]
    have added : ((0 : Int) + trailing.length - (0 : Nat)).toNat = trailing.length := by omega
    rw [added, ← List.eq_replicate_of_mem trailingZeros, value]

theorem ofText?_digits {text digits : List Char} {negative : Bool}
    (sign : splitSign text = (negative, digits)) (nonempty : digits ≠ [])
    (all : ∀ digit ∈ digits, digit.isDigit = true) :
    ofText? text = some ⟨negative, digits, [], 0⟩ := by
  have other (character : Char) (plain : character.isDigit = false) :
      ∀ digit ∈ digits, digit ≠ character := by
    rintro digit member rfl
    simp [all digit member] at plain
  have unmarked : ∀ digit ∈ digits, (!isExponentMark digit) = true := by
    intro digit member
    simp [isExponentMark, other 'e' rfl digit member, other 'E' rfl digit member]
  have pointless : ∀ digit ∈ digits, (digit != '.') = true := by
    intro digit member
    simp [other '.' rfl digit member]
  have takes (property : Char → Bool) (holds : ∀ digit ∈ digits, property digit = true) :
      digits.takeWhile property = digits ∧ digits.dropWhile property = [] := by
    have taken := @List.takeWhile_append_of_pos _ property digits [] holds
    have dropped := @List.dropWhile_append_of_pos _ property digits [] holds
    simp_all
  have digitsOnly : (digits.isEmpty || !digits.all Char.isDigit) = false := by
    simpa [nonempty] using all
  unfold ofText?
  simp only [sign, splitExponent?, (takes _ unmarked).1, (takes _ unmarked).2, splitPoint,
    (takes _ pointless).1, (takes _ pointless).2, List.drop_nil, List.append_nil, digitsOnly]
  rfl

theorem clamp_whole (negative : Bool) (digits : List Char) :
    clamp ⟨negative, digits, [], 0⟩ = ⟨negative, digits, [], 0⟩ :=
  rfl

end Decimal

theorem Literal.value_digits (text : List Char) {digits : List Char} {negative : Bool}
    (sign : Decimal.splitSign text = (negative, digits)) (nonempty : digits ≠ [])
    (all : ∀ digit ∈ digits, digit.isDigit = true) (short : digits.length ≤ 10)
    (fits : Decimal.fits (Decimal.signed negative (Decimal.digitsValue digits)) = true) :
    Literal.value text = .ok (Decimal.signed negative (Decimal.digitsValue digits)) := by
  rw [Literal.value, Decimal.ofText?_digits sign nonempty all]
  simp only [Decimal.clamp_whole, Decimal.integer, Decimal.magnitude_whole negative short, fits]
  rfl

def Decimal.digits (value : Int) : List Char :=
  Nat.toDigits 10 value.natAbs

namespace Decimal

theorem toString_of_nonneg {value : Int} (nonneg : 0 ≤ value) :
    (toString value).toList = digits value := by
  obtain ⟨magnitude, rfl⟩ := Int.eq_ofNat_of_zero_le nonneg
  exact Nat.toList_repr

theorem toString_of_neg {value : Int} (negative : value < 0) :
    (toString value).toList = '-' :: digits value := by
  obtain ⟨magnitude, rfl⟩ := Int.eq_negSucc_of_lt_zero negative
  change ("-" ++ (magnitude + 1).repr).toList = _
  rw [String.toList_append, Nat.toList_repr]
  rfl

theorem digits_ne_nil (value : Int) : digits value ≠ [] :=
  Nat.toDigits_ne_nil

theorem isDigit_of_mem_digits {value : Int} {digit : Char} (member : digit ∈ digits value) :
    digit.isDigit = true :=
  Nat.isDigit_of_mem_toDigits (by omega) (by omega) member

theorem digitsValue_digits (value : Int) : digitsValue (digits value) = value.natAbs :=
  Nat.ofDigitChars_toDigits (by omega) (by omega)

theorem natAbs_of_fits {value : Int} (fits : Decimal.fits value = true) :
    value.natAbs ≤ 2147483648 := by
  have inside := fits_iff.mp fits
  omega

theorem length_digits_le {value : Int} (fits : Decimal.fits value = true) :
    (digits value).length ≤ 10 := by
  have small := natAbs_of_fits fits
  exact (Nat.length_toDigits_le_iff (by omega) (by omega)).mpr (by omega)

end Decimal

theorem Literal.value_toString {value : Int} (fits : Decimal.fits value = true) :
    Literal.value (toString value).toList = .ok value := by
  have all : ∀ digit ∈ Decimal.digits value, digit.isDigit = true :=
    fun digit member => Decimal.isDigit_of_mem_digits member
  have short := Decimal.length_digits_le fits
  by_cases negative : value < 0
  · have same : Decimal.signed true (Decimal.digitsValue (Decimal.digits value)) = value := by
      rw [Decimal.digitsValue_digits, Decimal.signed, if_pos rfl]
      omega
    have read := value_digits ('-' :: Decimal.digits value) rfl
      (Decimal.digits_ne_nil value) all short (by rw [same]; exact fits)
    rwa [same, ← Decimal.toString_of_neg negative] at read
  · have same : Decimal.signed false (Decimal.digitsValue (Decimal.digits value)) = value := by
      rw [Decimal.digitsValue_digits, Decimal.signed, if_neg (by simp)]
      omega
    have unsigned : Decimal.splitSign (Decimal.digits value) = (false, Decimal.digits value) := by
      unfold Decimal.splitSign
      split
      · rename_i text
        simp [text] at all
      · rename_i text
        simp [text] at all
      · rfl
    have read := value_digits _ unsigned (Decimal.digits_ne_nil value) all short
      (by rw [same]; exact fits)
    rwa [same, ← Decimal.toString_of_nonneg (by omega)] at read

theorem Literal.exists_decimal {text : List Char} {value : Int}
    (read : Literal.value text = .ok value) :
    ∃ decimal magnitude, Decimal.ofText? text = some decimal ∧
      value = Decimal.signed decimal.negative magnitude ∧ Decimal.fits value = true := by
  unfold Literal.value at read
  split at read
  · simp at read
  · rename_i decimal spelled
    unfold Decimal.integer at read
    split at read
    · simp at read
    · rename_i magnitude same
      dsimp only at read
      split at read
      · rename_i fits
        cases read
        exact ⟨decimal, magnitude, spelled, rfl, fits⟩
      · simp at read

theorem Literal.read_eq_ok {text : List Char} {span : Span} {number : Int} :
    Literal.read text span = .ok number ↔ Literal.value text = .ok number := by
  unfold Literal.read
  split <;> simp_all

theorem Literal.fits_of_read {text : List Char} {span : Span} {value : Int}
    (read : Literal.read text span = .ok value) : Decimal.fits value = true := by
  obtain ⟨decimal, magnitude, -, -, fits⟩ := exists_decimal (read_eq_ok.mp read)
  exact fits

theorem Decimal.negative_of_ofText? {text : List Char} {decimal : Decimal}
    (read : ofText? text = some decimal) : decimal.negative = (splitSign text).1 := by
  unfold ofText? at read
  dsimp only at read
  split at read
  · simp at read
  · split at read
    · simp at read
    · cases read
      rfl

theorem Literal.nonneg_of_read {first : Char} {rest : List Char} {span : Span} {value : Int}
    (unsigned : first ≠ '-') (read : Literal.read (first :: rest) span = .ok value) :
    0 ≤ value := by
  have positive : (Decimal.splitSign (first :: rest)).1 = false := by
    unfold Decimal.splitSign
    split <;> simp_all
  obtain ⟨decimal, magnitude, spelled, rfl, -⟩ := exists_decimal (read_eq_ok.mp read)
  rw [Decimal.negative_of_ofText? spelled, positive]
  simp [Decimal.signed]

end StackScript
