import Mathlib.Algebra.Order.Field.Power
import Mathlib.Data.List.Induction
import Mathlib.Tactic.FieldSimp
import Mathlib.Tactic.Linarith
import Mathlib.Tactic.Ring
import StackScript.Proofs.Digits
import StackScript.Proofs.Languages

set_option autoImplicit false

namespace StackScript

open Text

namespace Decimal

inductive Signs : List Char → Bool → Prop
  | none : Signs [] false
  | plus : Signs ['+'] false
  | minus : Signs ['-'] true

structure Numeral (digits : List Char) : Prop where
  nonempty : digits ≠ []
  all : ∀ digit ∈ digits, digit.isDigit = true

inductive Mantissa : List Char → List Char → List Char → Prop
  | whole {digits : List Char} (numeral : Numeral digits) : Mantissa digits digits []
  | pointed {whole fraction : List Char} (numeral : Numeral (whole ++ fraction)) :
      Mantissa (whole ++ '.' :: fraction) whole fraction

inductive Scale : List Char → Int → Prop
  | none : Scale [] 0
  | marked {mark : Char} {sign digits : List Char} {negative : Bool}
      (marked : isExponentMark mark = true) (signs : Signs sign negative)
      (numeral : Numeral digits) :
      Scale (mark :: (sign ++ digits)) (signed negative (digitsValue digits))

inductive Spells : List Char → Decimal → Prop
  | parts {sign mantissa scale whole fraction : List Char} {negative : Bool} {exponent : Int}
      (signs : Signs sign negative) (digits : Mantissa mantissa whole fraction)
      (scaled : Scale scale exponent) :
      Spells (sign ++ (mantissa ++ scale)) ⟨negative, whole, fraction, exponent⟩

def value (decimal : Decimal) : ℚ :=
  let mantissa : ℚ :=
    digitsValue decimal.whole + digitsValue decimal.fraction / 10 ^ decimal.fraction.length
  (if decimal.negative then -mantissa else mantissa) * 10 ^ decimal.exponent

def language : Language Char :=
  zeroOrOne (anyOf ['+', '-']) * Token.Kind.number.language

section Reading

variable {text mantissa scale whole fraction digits : List Char} {exponent : Int}
  {decimal : Decimal}

theorem numeral_iff :
    (digits.isEmpty || !digits.all Char.isDigit) = false ↔ Numeral digits := by
  simp only [Bool.or_eq_false_iff, Bool.not_eq_false', List.all_eq_true, List.isEmpty_eq_false_iff]
  exact ⟨fun ⟨nonempty, all⟩ => ⟨nonempty, all⟩, fun ⟨nonempty, all⟩ => ⟨nonempty, all⟩⟩

theorem ne_of_isDigit {digit : Char} (other : Char) (isDigit : digit.isDigit = true)
    (plain : other.isDigit = false) : digit ≠ other := by
  rintro rfl
  simp [isDigit] at plain

theorem Numeral.head_unsigned (numeral : Numeral digits) :
    ∀ first ∈ digits.head?, first ≠ '+' ∧ first ≠ '-' := by
  intro first found
  have isDigit := numeral.all first (List.mem_of_mem_head? found)
  exact ⟨ne_of_isDigit '+' isDigit rfl, ne_of_isDigit '-' isDigit rfl⟩

namespace Mantissa

theorem numeral (spelled : Mantissa mantissa whole fraction) : Numeral (whole ++ fraction) := by
  cases spelled with
  | whole numeral => simpa using numeral
  | pointed numeral => exact numeral

theorem ne_nil (spelled : Mantissa mantissa whole fraction) : mantissa ≠ [] := by
  cases spelled with
  | whole numeral => exact numeral.nonempty
  | pointed numeral => simp

theorem digit_or_point (spelled : Mantissa mantissa whole fraction) {character : Char}
    (member : character ∈ mantissa) : character.isDigit = true ∨ character = '.' := by
  have all := spelled.numeral.all character
  cases spelled with
  | whole numeral => exact .inl (numeral.all character member)
  | pointed numeral =>
    simp only [List.mem_append, List.mem_cons] at member all
    tauto

theorem not_isExponentMark (spelled : Mantissa mantissa whole fraction) {character : Char}
    (member : character ∈ mantissa) : isExponentMark character = false := by
  rcases spelled.digit_or_point member with isDigit | rfl
  next => simp [isExponentMark, ne_of_isDigit 'e' isDigit rfl, ne_of_isDigit 'E' isDigit rfl]
  next => rfl

theorem head_unsigned (spelled : Mantissa mantissa whole fraction) (rest : List Char) :
    ∀ first ∈ (mantissa ++ rest).head?, first ≠ '+' ∧ first ≠ '-' := by
  intro first found
  rw [List.head?_append_of_ne_nil _ spelled.ne_nil] at found
  rcases spelled.digit_or_point (List.mem_of_mem_head? found) with isDigit | rfl
  next => exact ⟨ne_of_isDigit '+' isDigit rfl, ne_of_isDigit '-' isDigit rfl⟩
  next => decide

end Mantissa

theorem splitSign_append {sign rest : List Char} {negative : Bool} (signs : Signs sign negative)
    (unsigned : ∀ first ∈ rest.head?, first ≠ '+' ∧ first ≠ '-') :
    splitSign (sign ++ rest) = (negative, rest) := by
  cases signs with
  | none =>
    rw [List.nil_append]
    unfold splitSign
    split <;> simp_all
  | plus => rfl
  | minus => rfl

theorem exists_sign (text : List Char) :
    ∃ sign, Signs sign (splitSign text).1 ∧ sign ++ (splitSign text).2 = text := by
  unfold splitSign
  split
  next => exact ⟨_, .minus, rfl⟩
  next => exact ⟨_, .plus, rfl⟩
  next => exact ⟨_, .none, rfl⟩

theorem exponent?_eq_some : exponent? text = some exponent ↔
    ∃ sign digits negative, sign ++ digits = text ∧ Signs sign negative ∧ Numeral digits ∧
      signed negative (digitsValue digits) = exponent := by
  constructor
  next =>
    intro read
    obtain ⟨sign, signs, cut⟩ := exists_sign text
    unfold exponent? at read
    dsimp only at read
    split at read
    next => cases read
    next good =>
      exact ⟨sign, _, _, cut, signs, numeral_iff.mp (Bool.not_eq_true _ ▸ good),
        Option.some.inj read⟩
  next =>
    rintro ⟨sign, digits, negative, rfl, signs, numeral, rfl⟩
    simp only [exponent?, splitSign_append signs numeral.head_unsigned, numeral_iff.mpr numeral]
    rfl

theorem splitExponent?_eq_some : splitExponent? text = some (mantissa, exponent) ↔
    ∃ scale, mantissa ++ scale = text ∧ Scale scale exponent ∧
      ∀ character ∈ mantissa, isExponentMark character = false := by
  constructor
  next =>
    intro read
    have cut := @List.takeWhile_append_dropWhile _ (!isExponentMark ·) text
    have before : ∀ character ∈ text.takeWhile (!isExponentMark ·),
        isExponentMark character = false := by
      intro character member
      simpa using List.all_eq_true.mp List.all_takeWhile character member
    unfold splitExponent? at read
    dsimp only at read
    split at read
    next rest =>
      cases read
      exact ⟨[], by rwa [rest] at cut, .none, before⟩
    next mark behind rest =>
      obtain ⟨found, spelled, same⟩ := Option.map_eq_some_iff.mp read
      cases same
      obtain ⟨sign, digits, negative, rfl, signs, numeral, rfl⟩ := exponent?_eq_some.mp spelled
      have marked := List.head?_dropWhile_not (!isExponentMark ·) text
      refine ⟨_, by rwa [rest] at cut, .marked ?_ signs numeral, before⟩
      simpa [rest] using marked
  next =>
    rintro ⟨scale, rfl, scaled, before⟩
    have taken : ∀ character ∈ mantissa, (!isExponentMark character) = true := by simpa using before
    unfold splitExponent?
    dsimp only
    rw [List.takeWhile_append_of_pos taken, List.dropWhile_append_of_pos taken]
    cases scaled with
    | none => simp
    | @marked mark sign digits negative marked signs numeral =>
      have read := exponent?_eq_some.mpr ⟨sign, digits, negative, rfl, signs, numeral, rfl⟩
      simp [marked, read]

theorem splitPoint_of_mantissa (spelled : Mantissa mantissa whole fraction) :
    splitPoint mantissa = (whole, fraction) := by
  have before : ∀ digit ∈ whole, (digit != '.') = true := by
    intro digit member
    have isDigit := spelled.numeral.all digit (List.mem_append_left _ member)
    simpa using ne_of_isDigit '.' isDigit rfl
  cases spelled with
  | whole numeral =>
    have taken := @List.takeWhile_append_of_pos _ (· != '.') mantissa [] before
    have dropped := @List.dropWhile_append_of_pos _ (· != '.') mantissa [] before
    rw [List.append_nil] at taken dropped
    simp [splitPoint, taken, dropped]
  | pointed numeral =>
    rw [splitPoint, List.takeWhile_append_of_pos before, List.dropWhile_append_of_pos before]
    simp

theorem mantissa_of_splitPoint
    (numeral : Numeral ((splitPoint mantissa).1 ++ (splitPoint mantissa).2)) :
    Mantissa mantissa (splitPoint mantissa).1 (splitPoint mantissa).2 := by
  have cut := @List.takeWhile_append_dropWhile _ (· != '.') mantissa
  unfold splitPoint at *
  dsimp only at numeral ⊢
  generalize mantissa.takeWhile (· != '.') = whole at cut numeral ⊢
  cases rest : mantissa.dropWhile (· != '.') with
  | nil =>
    rw [rest, List.append_nil] at cut
    rw [rest, List.drop_nil, List.append_nil] at numeral
    rw [← cut]
    exact .whole numeral
  | cons point fraction =>
    have stops := List.head?_dropWhile_not (· != '.') mantissa
    obtain rfl : point = '.' := by simpa [rest] using stops
    rw [rest] at cut numeral
    rw [← cut]
    exact .pointed numeral

theorem ofText?_eq_some : ofText? text = some decimal ↔ Spells text decimal := by
  constructor
  next =>
    intro read
    obtain ⟨sign, signs, cut⟩ := exists_sign text
    unfold ofText? at read
    dsimp only at read
    split at read
    next => cases read
    next mantissa exponent found =>
      split at read
      next => cases read
      next good =>
        cases read
        have numeral := numeral_iff.mp (Bool.not_eq_true _ ▸ good)
        obtain ⟨scale, unsigned, scaled, -⟩ := splitExponent?_eq_some.mp found
        have spelled := Spells.parts signs (mantissa_of_splitPoint numeral) scaled
        rwa [unsigned, cut] at spelled
  next =>
    rintro ⟨signs, digits, scaled⟩
    have split := splitExponent?_eq_some.mpr
      ⟨_, rfl, scaled, fun _ member => digits.not_isExponentMark member⟩
    simp only [ofText?, splitSign_append signs (digits.head_unsigned _), split,
      splitPoint_of_mantissa digits, numeral_iff.mpr digits.numeral]
    rfl

theorem Spells.isDigit (spelled : Spells text decimal) :
    ∀ digit ∈ decimal.whole ++ decimal.fraction, digit.isDigit = true := by
  cases spelled with
  | parts signs digits scaled => exact digits.numeral.all

theorem Spells.unique {other : Decimal} (spelled : Spells text decimal)
    (again : Spells text other) : decimal = other := by
  rw [← ofText?_eq_some] at spelled again
  exact Option.some.inj (spelled.symm.trans again)

end Reading

section Language

open scoped Computability

theorem mem_sign {sign : List Char} :
    sign ∈ zeroOrOne (anyOf ['+', '-']) ↔ ∃ negative, Signs sign negative := by
  rw [zeroOrOne, Language.mem_add, Language.mem_one, anyOf, mem_one]
  constructor
  next =>
    rintro (rfl | ⟨character, member, rfl⟩)
    next => exact ⟨_, .none⟩
    next =>
      rw [List.mem_pair] at member
      rcases member with rfl | rfl
      next => exact ⟨_, .plus⟩
      next => exact ⟨_, .minus⟩
  next =>
    rintro ⟨negative, _ | _ | _⟩
    next => exact .inl rfl
    next => exact .inr ⟨'+', by decide, rfl⟩
    next => exact .inr ⟨'-', by decide, rfl⟩

theorem mem_numeral {digits : List Char} : digits ∈ oneOrMore digit ↔ Numeral digits := by
  rw [oneOrMore, Pattern.digit_eq, mem_one_mul]
  simp only [mem_star_one]
  constructor
  next =>
    rintro ⟨first, rest, isDigit, all, rfl⟩
    exact ⟨by simp, by simpa using ⟨isDigit, all⟩⟩
  next =>
    rintro ⟨nonempty, all⟩
    cases digits with
    | nil => exact absurd rfl nonempty
    | cons first rest =>
      rw [List.forall_mem_cons] at all
      exact ⟨first, rest, all.1, all.2, rfl⟩

theorem mem_digits {digits : List Char} :
    digits ∈ digit∗ ↔ ∀ digit ∈ digits, digit.isDigit = true := by
  rw [Pattern.digit_eq, mem_star_one]

theorem mem_scale {scale : List Char} :
    scale ∈ zeroOrOne StackScript.exponent ↔ ∃ exponent, Scale scale exponent := by
  rw [zeroOrOne, Language.mem_add, Language.mem_one, StackScript.exponent, mul_assoc, anyOf,
    mem_one_mul]
  simp only [Language.mem_mul, mem_sign, mem_numeral]
  constructor
  next =>
    rintro (rfl | ⟨mark, rest, marked, ⟨sign, ⟨negative, signs⟩, digits, numeral, rfl⟩, rfl⟩)
    next => exact ⟨_, .none⟩
    next => exact ⟨_, .marked (by simpa [isExponentMark] using marked) signs numeral⟩
  next =>
    rintro ⟨exponent, _ | ⟨marked, signs, numeral⟩⟩
    next => exact .inl rfl
    next =>
      refine .inr ⟨_, _, ?_, ⟨_, ⟨_, signs⟩, _, numeral, rfl⟩, rfl⟩
      simpa [isExponentMark] using marked

theorem mem_mantissa {mantissa : List Char} :
    mantissa ∈ oneOrMore digit * zeroOrOne (anyOf ['.'] * digit∗) + anyOf ['.'] * oneOrMore digit ↔
      ∃ whole fraction, Mantissa mantissa whole fraction := by
  rw [Language.mem_add, Language.mem_mul, anyOf, mem_one_mul]
  simp only [zeroOrOne, Language.mem_add, Language.mem_one, mem_one_mul, mem_numeral,
    mem_digits, List.mem_singleton]
  constructor
  next =>
    rintro (⟨whole, numeral, _, rfl | ⟨_, fraction, rfl, all, rfl⟩, rfl⟩ |
      ⟨_, fraction, rfl, numeral, rfl⟩)
    next => exact ⟨_, _, by simpa using .whole numeral⟩
    next =>
      have digits : Numeral (whole ++ fraction) :=
        ⟨by simp [numeral.nonempty], List.forall_mem_append.mpr ⟨numeral.all, all⟩⟩
      exact ⟨_, _, .pointed digits⟩
    next => exact ⟨[], fraction, @Mantissa.pointed [] fraction numeral⟩
  next =>
    rintro ⟨whole, fraction, numeral | numeral⟩
    next => exact .inl ⟨_, numeral, [], .inl rfl, by simp⟩
    next =>
      cases whole with
      | nil => exact .inr ⟨_, _, rfl, numeral, rfl⟩
      | cons first rest =>
        obtain ⟨before, behind⟩ := List.forall_mem_append.mp numeral.all
        exact .inl ⟨_, ⟨by simp, before⟩, _, .inr ⟨_, _, rfl, behind, rfl⟩, rfl⟩

theorem mem_language {text : List Char} : text ∈ language ↔ ∃ decimal, Spells text decimal := by
  have number : Token.Kind.number.language =
      (oneOrMore digit * zeroOrOne (anyOf ['.'] * digit∗) + anyOf ['.'] * oneOrMore digit) *
        zeroOrOne StackScript.exponent := (add_mul _ _ _).symm
  rw [language, number]
  simp only [Language.mem_mul, mem_sign, mem_mantissa, mem_scale]
  constructor
  next =>
    rintro ⟨sign, ⟨negative, signs⟩, _, ⟨mantissa, ⟨whole, fraction, digits⟩, scale,
      ⟨exponent, scaled⟩, rfl⟩, rfl⟩
    exact ⟨_, .parts signs digits scaled⟩
  next =>
    rintro ⟨decimal, signs, digits, scaled⟩
    exact ⟨_, ⟨_, signs⟩, _, ⟨_, ⟨_, _, digits⟩, _, ⟨_, scaled⟩, rfl⟩, rfl⟩

end Language

section Positional

variable {digits front rest : List Char} {digit first last : Char}

theorem digitsValue_append (front back : List Char) :
    digitsValue (front ++ back) = 10 ^ back.length * digitsValue front + digitsValue back := by
  calc Nat.ofDigitChars 10 (front ++ back) 0
    _ = Nat.ofDigitChars 10 back (digitsValue front) := Nat.ofDigitChars_append 0
    _ = 10 ^ back.length * digitsValue front + digitsValue back :=
      Nat.ofDigitChars_eq_ofDigitChars_zero

theorem digitsValue_cons (digit : Char) (rest : List Char) :
    digitsValue (digit :: rest) =
      10 ^ rest.length * (digit.toNat - '0'.toNat) + digitsValue rest := by
  rw [← List.singleton_append, digitsValue_append]
  simp [digitsValue]

theorem digitsValue_append_zeros {zeros : List Char} (all : ∀ digit ∈ zeros, digit = '0')
    (digits : List Char) :
    digitsValue (digits ++ zeros) = digitsValue digits * 10 ^ zeros.length := by
  rw [digitsValue_append, digitsValue_zeros all, Nat.add_zero, Nat.mul_comm]

theorem digit_le_nine (isDigit : digit.isDigit = true) : digit.toNat - '0'.toNat ≤ 9 := by
  have most : digit.toNat ≤ '9'.toNat := (Char.isDigit_iff_toNat.mp isDigit).2
  simp only [Char.reduceToNat] at most ⊢
  omega

theorem digit_pos (isDigit : digit.isDigit = true) (nonzero : digit ≠ '0') :
    0 < digit.toNat - '0'.toNat := by
  have least : '0'.toNat ≤ digit.toNat := (Char.isDigit_iff_toNat.mp isDigit).1
  have other : digit.toNat ≠ '0'.toNat := fun same => nonzero (Char.toNat_inj.mp same)
  omega

theorem digitsValue_lt (all : ∀ digit ∈ digits, digit.isDigit = true) :
    digitsValue digits < 10 ^ digits.length := by
  induction digits using List.reverseRecOn with
  | nil => simp [digitsValue]
  | append_singleton front last ih =>
    obtain ⟨before, behind⟩ := List.forall_mem_append.mp all
    have small := digit_le_nine (behind last (by simp))
    have below := ih before
    rw [digitsValue_concat, List.length_append, List.length_singleton, Nat.pow_succ]
    omega

-- A digit other than zero in front counts for as many places as stand behind it.
theorem pow_le_digitsValue (isDigit : first.isDigit = true) (nonzero : first ≠ '0') :
    10 ^ rest.length ≤ digitsValue (first :: rest) := by
  have positive := digit_pos isDigit nonzero
  rw [digitsValue_cons]
  exact Nat.le_add_right_of_le (Nat.le_mul_of_pos_right _ positive)

theorem not_ten_dvd_digitsValue (isDigit : last.isDigit = true) (nonzero : last ≠ '0') :
    ¬ 10 ∣ digitsValue (front ++ [last]) := by
  have small := digit_le_nine isDigit
  have positive := digit_pos isDigit nonzero
  rw [digitsValue_concat]
  omega

theorem isDigit_of_mem_significant (all : ∀ digit ∈ digits, digit.isDigit = true) :
    ∀ digit ∈ significant digits, digit.isDigit = true := by
  obtain ⟨trailing, cut, -⟩ := exists_trailing_zeros digits
  obtain ⟨leading, split, -⟩ := exists_leading_zeros digits
  intro digit member
  apply all
  rw [cut, split]
  simp [member]

theorem head_significant (digits : List Char) :
    ∀ first ∈ (significant digits).head?, first ≠ '0' := by
  intro first found
  have stops := List.head?_dropWhile_not (· == '0') (withoutTrailingZeros digits)
  rw [← significant, Option.mem_def.mp found] at stops
  simpa using stops

theorem getLast_significant (digits : List Char) :
    ∀ last ∈ (significant digits).getLast?, last ≠ '0' := by
  intro last found
  obtain ⟨leading, split, -⟩ := exists_leading_zeros digits
  have stops := List.head?_dropWhile_not (· == '0') digits.reverse
  rw [← List.getLast?_reverse, ← withoutTrailingZeros, split, List.getLast?_append,
    Option.mem_def.mp found] at stops
  simpa using stops

end Positional

section Exactness

variable {whole fraction : List Char} {coefficient size zeros : Nat}

/-- Digits that are not all zeros, as a number that is no multiple of ten and zeros behind it. -/
structure Normal (digits : List Char) (coefficient size zeros : Nat) : Prop where
  value : digitsValue digits = coefficient * 10 ^ zeros
  length : size + 1 + zeros ≤ digits.length
  least : 10 ^ size ≤ coefficient
  whole : ¬ 10 ∣ coefficient

def scaled (coefficient size : Nat) (shift : Int) : Except Refusal Nat :=
  if shift < 0 then .error .nonInteger
  else if 9 < size + shift then .error .outOfRange
  else .ok (coefficient * 10 ^ shift.toNat)

theorem normal_significant {digits trailing : List Char}
    (all : ∀ digit ∈ digits, digit.isDigit = true) (nonzero : significant digits ≠ [])
    (cut : digits = withoutTrailingZeros digits ++ trailing)
    (trailingZeros : ∀ digit ∈ trailing, digit = '0') :
    Normal digits (digitsValue (significant digits)) ((significant digits).length - 1)
      trailing.length := by
  obtain ⟨leading, split, leadingZeros⟩ := exists_leading_zeros digits
  have positive := List.length_pos_iff.mpr nonzero
  have inside := isDigit_of_mem_significant all
  rw [split, List.append_assoc] at cut
  constructor
  case value =>
    calc digitsValue digits
      _ = digitsValue (significant digits ++ trailing) :=
        (congrArg digitsValue cut).trans (digitsValue_append_of_zeros leadingZeros _)
      _ = digitsValue (significant digits) * 10 ^ trailing.length :=
        digitsValue_append_zeros trailingZeros _
  case length =>
    have length := congrArg List.length cut
    simp only [List.length_append] at length
    omega
  case least =>
    have head := head_significant digits
    cases same : significant digits with
    | nil => exact absurd same nonzero
    | cons first rest =>
      rw [same] at head inside
      exact pow_le_digitsValue (inside first (by simp)) (head first rfl)
  case whole =>
    have lastNonzero := getLast_significant digits
    rcases List.eq_nil_or_concat' (significant digits) with same | ⟨front, last, same⟩
    next => exact absurd same nonzero
    next =>
      rw [same] at lastNonzero inside ⊢
      exact not_ten_dvd_digitsValue (inside last (by simp)) (lastNonzero last (by simp))

theorem magnitude_cases (all : ∀ digit ∈ whole ++ fraction, digit.isDigit = true) :
    (digitsValue (whole ++ fraction) = 0 ∧
      ∀ negative exponent, magnitude ⟨negative, whole, fraction, exponent⟩ = .ok 0) ∨
    ∃ coefficient size zeros, Normal (whole ++ fraction) coefficient size zeros ∧
      ∀ negative exponent, magnitude ⟨negative, whole, fraction, exponent⟩ =
        scaled coefficient size (exponent + zeros - fraction.length) := by
  obtain ⟨trailing, cut, trailingZeros⟩ := exists_trailing_zeros (whole ++ fraction)
  by_cases zero : significant (whole ++ fraction) = []
  next =>
    refine .inl ⟨?_, fun negative exponent => ?_⟩
    next =>
      obtain ⟨leading, split, leadingZeros⟩ := exists_leading_zeros (whole ++ fraction)
      rw [cut, split, zero, List.append_nil, digitsValue_append_of_zeros leadingZeros,
        digitsValue_zeros trailingZeros]
    next =>
      rw [magnitude_eq cut]
      exact if_pos zero
  next =>
    refine .inr ⟨_, _, _, normal_significant all zero cut trailingZeros, ?_⟩
    intro negative exponent
    have positive := List.length_pos_iff.mpr zero
    rw [magnitude_eq cut]
    dsimp only
    generalize exponent + trailing.length - fraction.length = shift
    generalize significant (whole ++ fraction) = digits at zero positive ⊢
    have long : 10 < (digits.length : Int) + shift ↔
        9 < ((digits.length - 1 : Nat) : Int) + shift := by
      omega
    have padded : digitsValue (digits ++ List.replicate shift.toNat '0') =
        digitsValue digits * 10 ^ shift.toNat := by
      rw [digitsValue_append_zeros (fun digit member => List.eq_of_mem_replicate member),
        List.length_replicate]
    rw [if_neg zero, scaled, padded]
    simp only [long]

theorem signed_mul (negative : Bool) (left right : Nat) :
    signed negative (left * right) = signed negative left * right := by
  cases negative <;> simp [signed]

theorem value_eq (decimal : Decimal) :
    decimal.value =
      signed decimal.negative (digitsValue (decimal.whole ++ decimal.fraction)) *
        10 ^ (decimal.exponent - decimal.fraction.length) := by
  rw [value, digitsValue_append, zpow_sub₀ (by norm_num), zpow_natCast]
  cases decimal.negative with
  | false =>
    simp only [signed, Bool.false_eq_true, if_false]
    push_cast
    field_simp
  | true =>
    simp only [signed, if_true]
    push_cast
    field_simp

theorem value_of_normal {decimal : Decimal}
    (normal : Normal (decimal.whole ++ decimal.fraction) coefficient size zeros) :
    decimal.value = signed decimal.negative coefficient *
      10 ^ (decimal.exponent + zeros - decimal.fraction.length) := by
  have shift : decimal.exponent + zeros - decimal.fraction.length =
      (zeros : Int) + (decimal.exponent - decimal.fraction.length) := by
    omega
  rw [value_eq, normal.value, signed_mul, shift, zpow_add₀ (by norm_num), zpow_natCast]
  push_cast
  ring

inductive Answers (number : ℚ) : Except Refusal Int → Prop
  | integer {whole : Int} (same : number = whole) (inside : fits whole = true) :
      Answers number (.ok whole)
  | outOfRange {whole : Int} (same : number = whole) (outside : fits whole = false) :
      Answers number (.error .outOfRange)
  | nonInteger (apart : ∀ whole : Int, number ≠ whole) : Answers number (.error .nonInteger)

namespace Answers

variable {number : ℚ} {result : Except Refusal Int}

theorem eq_ok_iff (answers : Answers number result) {whole : Int} :
    result = .ok whole ↔ number = whole ∧ fits whole = true := by
  cases answers with
  | integer same inside =>
    subst same
    simp only [Except.ok.injEq, Int.cast_inj]
    constructor
    next =>
      rintro rfl
      exact ⟨rfl, inside⟩
    next => exact And.left
  | outOfRange same outside =>
    subst same
    simp only [reduceCtorEq, Int.cast_inj, false_iff, not_and]
    rintro rfl
    simp [outside]
  | nonInteger apart => simp [apart]

theorem eq_outOfRange_iff (answers : Answers number result) :
    result = .error .outOfRange ↔ ∃ whole : Int, number = whole ∧ ¬ fits whole = true := by
  cases answers with
  | integer same inside =>
    subst same
    simp [inside]
  | outOfRange same outside => simpa using ⟨_, same, outside⟩
  | nonInteger apart => simp [apart]

theorem eq_nonInteger_iff (answers : Answers number result) :
    result = .error .nonInteger ↔ ∀ whole : Int, number ≠ whole := by
  cases answers with
  | integer same inside => simp [same]
  | outOfRange same outside => simp [same]
  | nonInteger apart => simpa using apart

end Answers

theorem ne_integer_of_shift_neg (normal : Normal (whole ++ fraction) coefficient size zeros)
    (negative : Bool) {shift : Int} (behind : shift < 0) (number : Int) :
    (signed negative coefficient : ℚ) * 10 ^ shift ≠ number := by
  intro same
  obtain ⟨places, rfl⟩ := Int.eq_negSucc_of_lt_zero behind
  rw [zpow_negSucc, ← div_eq_mul_inv, div_eq_iff (by positivity)] at same
  have integers : signed negative coefficient = number * 10 ^ (places + 1) := by exact_mod_cast same
  have divides : (10 : Int) ∣ signed negative coefficient := by
    rw [integers]
    exact Dvd.dvd.mul_left (dvd_pow_self 10 (by omega)) number
  apply normal.whole
  cases negative with
  | false => exact Int.natCast_dvd_natCast.mp divides
  | true => exact Int.natCast_dvd_natCast.mp ((Int.dvd_neg).mp divides)

theorem fits_of_pow_le {number : Nat} (negative : Bool) (large : 10 ^ 10 ≤ number) :
    fits (signed negative number) = false := by
  cases negative <;> simp [fits, signed] <;> omega

theorem answers_integer {decimal : Decimal}
    (all : ∀ digit ∈ decimal.whole ++ decimal.fraction, digit.isDigit = true) :
    Answers decimal.value decimal.integer := by
  obtain ⟨negative, whole, fraction, exponent⟩ := decimal
  rcases magnitude_cases all with ⟨zero, found⟩ | ⟨coefficient, size, zeros, normal, found⟩
  next =>
    have same : value ⟨negative, whole, fraction, exponent⟩ = (0 : Int) := by
      simp [value_eq, zero, signed]
    rw [integer, found]
    cases negative with
    | false => exact .integer same rfl
    | true => exact .integer same rfl
  next =>
    rw [value_of_normal normal, integer, found]
    dsimp only
    generalize exponent + zeros - fraction.length = shift
    unfold scaled
    by_cases behind : shift < 0
    next =>
      rw [if_pos behind]
      exact .nonInteger (ne_integer_of_shift_neg normal negative behind)
    next =>
      rw [if_neg behind]
      obtain ⟨places, rfl⟩ := Int.eq_ofNat_of_zero_le (Int.not_lt.mp behind)
      have same : (signed negative coefficient : ℚ) * 10 ^ (places : Int) =
          (signed negative (coefficient * 10 ^ places) : Int) := by
        rw [signed_mul, zpow_natCast]
        push_cast
        rfl
      rw [same, Int.toNat_natCast]
      by_cases large : 9 < (size : Int) + places
      next =>
        rw [if_pos large]
        refine .outOfRange rfl (fits_of_pow_le negative ?_)
        calc 10 ^ 10
          _ ≤ 10 ^ (size + places) := Nat.pow_le_pow_right (by omega) (by omega)
          _ = 10 ^ size * 10 ^ places := Nat.pow_add _ _ _
          _ ≤ coefficient * 10 ^ places := Nat.mul_le_mul_right _ normal.least
      next =>
        rw [if_neg large]
        dsimp only
        split
        next inside => exact .integer rfl inside
        next outside => exact .outOfRange rfl (by simpa using outside)

theorem clamp_exponent (decimal : Decimal) :
    decimal.clamp.exponent = max (-(exponentLimit : Int)) (min decimal.exponent exponentLimit) := by
  unfold clamp signed exponentLimit
  dsimp only
  split
  next negative =>
    rw [decide_eq_true_eq] at negative
    omega
  next positive =>
    rw [decide_eq_true_eq] at positive
    omega

theorem clamp_mk (negative : Bool) (whole fraction : List Char) (exponent : Int) :
    clamp ⟨negative, whole, fraction, exponent⟩ =
      ⟨negative, whole, fraction, max (-(exponentLimit : Int)) (min exponent exponentLimit)⟩ :=
  congrArg (Decimal.mk negative whole fraction) (clamp_exponent _)

theorem scaled_of_neg {shift : Int} (behind : shift < 0) :
    scaled coefficient size shift = .error .nonInteger :=
  if_pos behind

theorem scaled_of_large {shift : Int} (large : 9 < shift) :
    scaled coefficient size shift = .error .outOfRange := by
  rw [scaled, if_neg (by omega), if_pos (by omega)]

-- Beyond the limit the point is moved past all digits of a text that is not too long.
theorem integer_clamp {decimal : Decimal}
    (all : ∀ digit ∈ decimal.whole ++ decimal.fraction, digit.isDigit = true)
    (least : -1000000 ≤ decimal.exponent ∨
      decimal.whole.length + decimal.fraction.length ≤ 1000000)
    (most : decimal.exponent ≤ 1000000 ∨ decimal.fraction.length ≤ 999990) :
    decimal.clamp.integer = decimal.integer := by
  have limit : exponentLimit = 1000000 := rfl
  have clamped := clamp_exponent decimal
  obtain ⟨negative, whole, fraction, exponent⟩ := decimal
  suffices same : magnitude (clamp ⟨negative, whole, fraction, exponent⟩) =
      magnitude ⟨negative, whole, fraction, exponent⟩ by
    rw [integer, integer, same]
    rfl
  rcases magnitude_cases all with ⟨-, found⟩ | ⟨coefficient, size, zeros, normal, found⟩
  next => rw [clamp, found, found]
  next =>
    have length : size + 1 + zeros ≤ whole.length + fraction.length := by
      simpa using normal.length
    rw [clamp, found, found]
    dsimp only [clamp] at clamped least most ⊢
    rw [clamped, limit]
    rcases lt_or_ge exponent (-1000000) with low | notLow
    next => rw [scaled_of_neg (by omega), scaled_of_neg (by omega)]
    next =>
      rcases lt_or_ge 1000000 exponent with high | notHigh
      next => rw [scaled_of_large (by omega), scaled_of_large (by omega)]
      next =>
        have inside : max (-((1000000 : Nat) : Int)) (min exponent ((1000000 : Nat) : Int)) =
            exponent := by
          omega
        rw [inside]

end Exactness

end Decimal

namespace Literal

variable {text : List Char} {span : Span}

open Decimal

theorem answers_value {decimal : Decimal} (spelled : Spells text decimal)
    (bounded : decimal.exponent.natAbs ≤ 1000000 ∨
      decimal.whole.length + decimal.fraction.length ≤ 999000) :
    Answers decimal.value (value text) := by
  rw [value, ofText?_eq_some.mpr spelled]
  dsimp only
  rw [integer_clamp spelled.isDigit (by omega) (by omega)]
  exact answers_integer spelled.isDigit

theorem value_of_notMem (missing : text ∉ Decimal.language) :
    value text = .error .nonInteger := by
  rw [mem_language] at missing
  unfold value
  split
  next => rfl
  next decimal read => exact absurd ⟨decimal, ofText?_eq_some.mp read⟩ missing

theorem read_eq_nonInteger :
    read text span = .error (.fault (.nonIntegerLiteral (String.ofList text)) span) ↔
      value text = .error .nonInteger := by
  unfold read
  split <;> simp_all

theorem read_eq_outOfRange :
    read text span = .error (.fault (.literalOutOfRange (String.ofList text)) span) ↔
      value text = .error .outOfRange := by
  unfold read
  split <;> simp_all

end Literal

end StackScript
