import StackScript.Proofs.Decimals

set_option autoImplicit false

namespace StackScript

open Decimal

namespace Checked

def word? (number : Int) : Option Int :=
  if -9223372036854775808 ≤ number ∧ number ≤ 9223372036854775807 then some number else none

def push? (total : Int) (digit : Char) : Option Int := do
  let tens ← word? (total * 10)
  word? (tens + ↑(digit.toNat - '0'.toNat))

def digits? (digits : List Char) : Option Int :=
  digits.foldlM push? 0

def pad? (total : Int) : Nat → Option Int
  | 0 => some total
  | count + 1 => do pad? (← word? (total * 10)) count

/-- The exponent, which is none if the text is not that of one. Digits that do not fit in a word
count as the largest one. -/
def exponent? (text : List Char) : Option (Option Int) :=
  let (negative, digits) := splitSign text
  if digits.isEmpty || !digits.all Char.isDigit then some none
  else
    let magnitude := min ((digits? digits).getD 9223372036854775807) exponentLimit
    (if negative then word? (-magnitude) else some magnitude).map some

def ofText? (text : List Char) : Option (Option Decimal) := do
  let (negative, unsigned) := splitSign text
  let mantissa := unsigned.takeWhile fun character => !isExponentMark character
  let scale ←
    match unsigned.dropWhile fun character => !isExponentMark character with
    | [] => some (some 0)
    | _ :: rest => exponent? rest
  match scale with
  | none => return none
  | some exponent =>
    let (whole, fraction) := splitPoint mantissa
    let digits := whole ++ fraction
    if digits.isEmpty || !digits.all Char.isDigit then return none
    else return some { negative, whole, fraction, exponent }

def magnitude? (decimal : Decimal) : Option (Except Refusal Int) :=
  let digits := withoutTrailingZeros (decimal.whole ++ decimal.fraction)
  let significant := digits.dropWhile (· == '0')
  if significant.isEmpty then some (.ok 0)
  else do
    let leadingZeros ← word? ↑(digits.length - significant.length)
    let whole ← word? decimal.whole.length
    let moved ← word? (whole + decimal.exponent)
    let places ← word? (moved - leadingZeros)
    let size ← word? significant.length
    if places < size then return .error .nonInteger
    else if 10 < places then return .error .outOfRange
    else
      let read ← digits? significant
      return .ok (← pad? read (places - size).toNat)

def integer? (decimal : Decimal) : Option (Except Refusal Int) := do
  match ← magnitude? decimal with
  | .error refusal => return .error refusal
  | .ok magnitude =>
    let value ← if decimal.negative then word? (-magnitude) else some magnitude
    return if fits value then .ok value else .error .outOfRange

def value? (text : List Char) : Option (Except Refusal Int) := do
  match ← ofText? text with
  | none => return .error .nonInteger
  | some decimal => integer? decimal

theorem word?_of_mem {number : Int} (least : -9223372036854775808 ≤ number)
    (most : number ≤ 9223372036854775807) : word? number = some number :=
  if_pos ⟨least, most⟩

theorem word?_of_lt {number : Int} (large : 9223372036854775807 < number) : word? number = none :=
  if_neg (by omega)

-- If a number on the way does not fit, then neither does the last, which is no smaller.
theorem bind_word? {number last : Nat} {next : Int → Option Int} (grows : number ≤ last)
    (continues : number ≤ 9223372036854775807 → next number = word? last) :
    (do next (← word? number)) = word? last := by
  by_cases large : 9223372036854775807 < number
  next =>
    rw [word?_of_lt (by omega), word?_of_lt (by omega)]
    rfl
  next =>
    rw [word?_of_mem (by omega) (by omega)]
    exact continues (by omega)

theorem push?_eq (total : Nat) (digit : Char) :
    push? total digit = word? ↑(total * 10 + (digit.toNat - '0'.toNat)) :=
  @bind_word? (total * 10) _ _ (Nat.le_add_right _ _) fun _ => rfl

theorem foldlM_push? (digits : List Char) {total : Nat} (inside : total ≤ 9223372036854775807) :
    digits.foldlM push? (total : Int) =
      word? ↑(10 ^ digits.length * total + digitsValue digits) := by
  induction digits generalizing total with
  | nil =>
    have start : 10 ^ ([] : List Char).length * total + digitsValue [] = total := by
      simp [digitsValue]
    rw [start, word?_of_mem (by omega) (by omega)]
    rfl
  | cons digit rest ih =>
    have grown : 10 ^ (digit :: rest).length * total + digitsValue (digit :: rest) =
        10 ^ rest.length * (total * 10 + (digit.toNat - '0'.toNat)) + digitsValue rest := by
      rw [digitsValue_cons, List.length_cons]
      ring
    rw [List.foldlM_cons, push?_eq, grown]
    refine bind_word? ?_ ih
    exact Nat.le_add_right_of_le (Nat.le_mul_of_pos_left _ (by positivity))

theorem digits?_eq (digits : List Char) : digits? digits = word? (digitsValue digits) := by
  have run := @foldlM_push? digits 0 (by omega)
  rwa [Nat.mul_zero, Nat.zero_add] at run

theorem pad?_eq (count : Nat) {total : Nat} (inside : total ≤ 9223372036854775807) :
    pad? total count = word? ↑(total * 10 ^ count) := by
  induction count generalizing total with
  | zero =>
    rw [Nat.pow_zero, Nat.mul_one, word?_of_mem (by omega) (by omega)]
    rfl
  | succ count ih =>
    have grown : total * 10 ^ (count + 1) = total * 10 * 10 ^ count := by ring
    rw [pad?, grown]
    exact @bind_word? (total * 10) _ _ (Nat.le_mul_of_pos_right _ (by positivity)) ih

theorem min_getD_word? (number : Nat) :
    min ((word? number).getD 9223372036854775807) exponentLimit =
      ((min number exponentLimit : Nat) : Int) := by
  have limit : exponentLimit = 1000000 := rfl
  by_cases large : 9223372036854775807 < number
  next =>
    rw [word?_of_lt (by omega), Option.getD_none]
    omega
  next =>
    rw [word?_of_mem (by omega) (by omega), Option.getD_some]
    omega

theorem max_min_signed (negative : Bool) (number : Nat) :
    max (-(exponentLimit : Int)) (min (signed negative number) exponentLimit) =
      signed negative (min number exponentLimit) := by
  cases negative with
  | false =>
    rw [signed, signed, if_neg (by simp), if_neg (by simp)]
    omega
  | true =>
    rw [signed, signed, if_pos rfl, if_pos rfl]
    omega

theorem exponent?_eq (text : List Char) :
    exponent? text = some ((Decimal.exponent? text).map fun exponent =>
      max (-(exponentLimit : Int)) (min exponent exponentLimit)) := by
  have limit : exponentLimit = 1000000 := rfl
  unfold exponent? Decimal.exponent?
  dsimp only
  split
  next => rfl
  next =>
    rw [digits?_eq, min_getD_word?, Option.map_some, max_min_signed]
    cases (splitSign text).1 with
    | false => rfl
    | true =>
      rw [if_pos rfl, word?_of_mem (by omega) (by omega)]
      rfl

theorem ofText?_eq (text : List Char) : ofText? text = some ((Decimal.ofText? text).map clamp) := by
  have zero : max (-(exponentLimit : Int)) (min 0 exponentLimit) = 0 := rfl
  unfold ofText? Decimal.ofText? splitExponent?
  dsimp only
  cases (splitSign text).2.dropWhile (!isExponentMark ·) with
  | nil =>
    dsimp only [Option.bind_eq_bind, Option.bind_some]
    split
    next => rfl
    next =>
      rw [Option.map_some, clamp_mk, zero]
      rfl
  | cons mark rest =>
    dsimp only
    rw [exponent?_eq]
    cases Decimal.exponent? rest with
    | none => rfl
    | some exponent =>
      dsimp only [Option.bind_eq_bind, Option.bind_some, Option.map_some]
      split
      next => rfl
      next =>
        rw [Option.map_some, clamp_mk]
        rfl

theorem length_withoutTrailingZeros_le (digits : List Char) :
    (withoutTrailingZeros digits).length ≤ digits.length := by
  obtain ⟨zeros, cut, -⟩ := exists_trailing_zeros digits
  have length := congrArg List.length cut
  rw [List.length_append] at length
  omega

theorem digitsValue_pad_lt {digits : List Char} (all : ∀ digit ∈ digits, digit.isDigit = true)
    {count : Nat} (short : digits.length + count ≤ 10) :
    digitsValue (digits ++ List.replicate count '0') < 10000000000 := by
  have isDigit : ∀ digit ∈ digits ++ List.replicate count '0', digit.isDigit = true := by
    refine List.forall_mem_append.mpr ⟨all, fun digit member => ?_⟩
    rw [List.eq_of_mem_replicate member]
    rfl
  calc digitsValue (digits ++ List.replicate count '0')
    _ < 10 ^ (digits ++ List.replicate count '0').length := digitsValue_lt isDigit
    _ ≤ 10 ^ 10 := Nat.pow_le_pow_right (by omega) (by simpa using short)

theorem magnitude_lt {decimal : Decimal} {magnitude : Nat}
    (all : ∀ digit ∈ decimal.whole ++ decimal.fraction, digit.isDigit = true)
    (found : decimal.magnitude = .ok magnitude) : magnitude < 10000000000 := by
  have inside := isDigit_of_mem_significant all
  obtain ⟨trailing, cut, -⟩ := exists_trailing_zeros (decimal.whole ++ decimal.fraction)
  rw [magnitude_eq cut] at found
  dsimp only at found
  split at found
  next =>
    cases found
    omega
  next =>
    split at found
    next => cases found
    next =>
      split at found
      next => cases found
      next =>
        cases found
        exact digitsValue_pad_lt inside (by omega)

theorem pad?_digits? {digits : List Char} (all : ∀ digit ∈ digits, digit.isDigit = true)
    {count : Nat} (short : digits.length + count ≤ 10) :
    (do pad? (← digits? digits) count) =
      some ↑(digitsValue (digits ++ List.replicate count '0')) := by
  have small := digitsValue_pad_lt all short
  have padded : digitsValue (digits ++ List.replicate count '0') =
      digitsValue digits * 10 ^ count := by
    rw [digitsValue_append_zeros (fun digit member => List.eq_of_mem_replicate member),
      List.length_replicate]
  have less : digitsValue digits ≤ digitsValue digits * 10 ^ count :=
    Nat.le_mul_of_pos_right _ (by positivity)
  rw [digits?_eq, word?_of_mem (by omega) (by omega)]
  dsimp only [Option.bind_eq_bind, Option.bind_some]
  rw [pad?_eq count (by omega), ← padded, word?_of_mem (by omega) (by omega)]

theorem magnitude?_eq {decimal : Decimal}
    (all : ∀ digit ∈ decimal.whole ++ decimal.fraction, digit.isDigit = true)
    (room : decimal.whole.length + decimal.fraction.length + 1000000 ≤ 9223372036854775807)
    (limited : decimal.exponent.natAbs ≤ 1000000) :
    magnitude? decimal = some (decimal.magnitude.map Int.ofNat) := by
  have inside := isDigit_of_mem_significant all
  have length := length_withoutTrailingZeros_le (decimal.whole ++ decimal.fraction)
  have shorter : (significant (decimal.whole ++ decimal.fraction)).length ≤
      (withoutTrailingZeros (decimal.whole ++ decimal.fraction)).length :=
    (List.dropWhile_sublist _).length_le
  rw [List.length_append] at length
  unfold magnitude? magnitude
  dsimp only
  rw [← significant]
  generalize significant (decimal.whole ++ decimal.fraction) = digits at inside shorter ⊢
  generalize (withoutTrailingZeros (decimal.whole ++ decimal.fraction)).length = kept
    at length shorter ⊢
  split
  next => rfl
  next =>
    rw [@word?_of_mem ↑(kept - digits.length) (by omega) (by omega),
      @word?_of_mem decimal.whole.length (by omega) (by omega),
      @word?_of_mem digits.length (by omega) (by omega)]
    dsimp only [Option.bind_eq_bind, Option.bind_some]
    rw [word?_of_mem (by omega) (by omega)]
    dsimp only [Option.bind_eq_bind, Option.bind_some]
    rw [word?_of_mem (by omega) (by omega)]
    dsimp only [Option.bind_eq_bind, Option.bind_some]
    generalize (decimal.whole.length : Int) + decimal.exponent - ↑(kept - digits.length) = places
    split
    next => rfl
    next above =>
      split
      next => rfl
      next below =>
        have count : (places - digits.length).toNat = places.toNat - digits.length := by omega
        have run := @pad?_digits? digits inside (places.toNat - digits.length) (by omega)
        rw [count, ← Option.bind_assoc]
        exact congrArg (Option.bind · _) run

theorem integer?_eq {decimal : Decimal}
    (all : ∀ digit ∈ decimal.whole ++ decimal.fraction, digit.isDigit = true)
    (room : decimal.whole.length + decimal.fraction.length + 1000000 ≤ 9223372036854775807)
    (limited : decimal.exponent.natAbs ≤ 1000000) :
    integer? decimal = some decimal.integer := by
  unfold integer? integer
  rw [magnitude?_eq all room limited]
  cases found : decimal.magnitude with
  | error refusal => rfl
  | ok magnitude =>
    have small := magnitude_lt all found
    dsimp only [Except.map, Option.bind_eq_bind, Option.bind_some, Int.ofNat_eq_natCast]
    cases decimal.negative with
    | false => rfl
    | true =>
      rw [if_pos rfl, word?_of_mem (by omega) (by omega)]
      rfl

theorem value?_eq {text : List Char}
    (room : ∀ decimal, Spells text decimal →
      decimal.whole.length + decimal.fraction.length + 1000000 ≤ 9223372036854775807) :
    value? text = some (Literal.value text) := by
  unfold value? Literal.value
  rw [ofText?_eq]
  cases read : Decimal.ofText? text with
  | none => rfl
  | some decimal =>
    have spelled := ofText?_eq_some.mp read
    have limit : exponentLimit = 1000000 := rfl
    have clamped := clamp_exponent decimal
    exact @integer?_eq decimal.clamp spelled.isDigit (room decimal spelled) (by omega)

end Checked

namespace Literal

/-- Literals are read exactly, if the exponent is not beyond its limit or the digits before it are
not too many. A text is refused as no integer if it spells no decimal, or one whose number is none;
it is refused as out of range if the number is an integer of more than 32 bits; and else it is read
as that integer. Words of 64 bits are enough for all numbers on the way, if they can count the
digits. -/
theorem reads_exactly {text : List Char}
    (bounded : ∀ decimal, Spells text decimal → decimal.exponent.natAbs ≤ 1000000 ∨
      decimal.whole.length + decimal.fraction.length ≤ 999000) (span : Span) :
    (text ∈ Decimal.language ↔ ∃! decimal, Spells text decimal) ∧
    (read text span = .error (.fault (.nonIntegerLiteral (String.ofList text)) span) ↔
      text ∉ Decimal.language ∨
        ∃ decimal, Spells text decimal ∧ ∀ number : Int, decimal.value ≠ number) ∧
    (read text span = .error (.fault (.literalOutOfRange (String.ofList text)) span) ↔
      ∃ decimal, Spells text decimal ∧ ∃ number : Int, decimal.value = number ∧
        ¬ (-2147483648 ≤ number ∧ number ≤ 2147483647)) ∧
    (∀ number : Int, read text span = .ok number ↔
      ∃ decimal, Spells text decimal ∧ decimal.value = number ∧
        -2147483648 ≤ number ∧ number ≤ 2147483647) ∧
    ((∀ decimal, Spells text decimal →
        decimal.whole.length + decimal.fraction.length + 1000000 ≤ 9223372036854775807) →
      Checked.value? text = some (Literal.value text)) := by
  rw [read_eq_nonInteger, read_eq_outOfRange]
  simp only [read_eq_ok, ← fits_iff]
  by_cases spells : text ∈ Decimal.language
  next =>
    obtain ⟨decimal, spelled⟩ := mem_language.mp spells
    have answers := answers_value spelled (bounded decimal spelled)
    have only (property : Decimal → Prop) :
        (∃ other, Spells text other ∧ property other) ↔ property decimal := by
      constructor
      next =>
        rintro ⟨other, again, holds⟩
        rwa [spelled.unique again]
      next => exact fun holds => ⟨decimal, spelled, holds⟩
    have unique : ∃! decimal, Spells text decimal :=
      ⟨decimal, spelled, fun other again => again.unique spelled⟩
    refine ⟨iff_of_true spells unique, ?_, ?_, ?_, Checked.value?_eq⟩
    next => simpa [spells, only] using answers.eq_nonInteger_iff
    next => simpa [only] using answers.eq_outOfRange_iff
    next =>
      intro number
      rw [only]
      exact answers.eq_ok_iff
  next =>
    have missing : ∀ decimal, ¬ Spells text decimal := by
      intro decimal spelled
      exact spells (mem_language.mpr ⟨decimal, spelled⟩)
    refine ⟨?_, ?_, ?_, ?_, Checked.value?_eq⟩
    next => simp [spells, ExistsUnique, missing]
    next => simp [spells, value_of_notMem spells]
    next => simp [missing, value_of_notMem spells]
    next => simp [missing, value_of_notMem spells]

theorem reads_exactly_at_limits :
    read "-21474836.480e+2".toList ⟨3, 19⟩ = .ok (-2147483648) ∧
      read "1e1000001".toList ⟨0, 9⟩ =
        .error (.fault (.literalOutOfRange (String.ofList "1e1000001".toList)) ⟨0, 9⟩) := by
  have least : Spells "-21474836.480e+2".toList
      ⟨true, "21474836".toList, ['4', '8', '0'], 2⟩ := ofText?_eq_some.mp (by decide +kernel)
  have large : Spells "1e1000001".toList ⟨false, ['1'], [], 1000001⟩ :=
    ofText?_eq_some.mp (by decide +kernel)
  constructor
  next =>
    obtain ⟨-, -, -, read, -⟩ := @reads_exactly "-21474836.480e+2".toList (by
      intro decimal spelled
      rw [spelled.unique least]
      decide) ⟨3, 19⟩
    have whole : digitsValue "21474836".toList = 21474836 := by decide +kernel
    have fraction : digitsValue ['4', '8', '0'] = 480 := by decide +kernel
    refine (read _).mpr ⟨_, least, ?_, by decide, by decide⟩
    rw [Decimal.value, whole, fraction]
    norm_num
  next =>
    obtain ⟨-, -, refused, -, -⟩ := @reads_exactly "1e1000001".toList (by
      intro decimal spelled
      rw [spelled.unique large]
      decide) ⟨0, 9⟩
    have power (count : Nat) : Decimal.value ⟨false, ['1'], [], count⟩ = (10 ^ count : Int) := by
      simp [Decimal.value, digitsValue]
    have more (count : Nat) : ¬ (10 : Int) ^ (count + 10) ≤ 2147483647 := by
      have positive : (0 : Int) < 10 ^ count := by positivity
      rw [pow_add]
      omega
    refine refused.mpr ⟨_, large, 10 ^ (999991 + 10), power (999991 + 10), ?_⟩
    intro inside
    exact more 999991 inside.2

end Literal

end StackScript
