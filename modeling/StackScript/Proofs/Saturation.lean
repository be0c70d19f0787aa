import StackScript.Proofs.Decimals

/-!
What the limit on exponents changes. A literal whose exponent is beyond the limit is read as another
number than it says. One of the two numbers is the other times a power of ten, and mostly neither is
an integer, or neither fits in 32 bits, so that both are refused for the same reason. Where this is
not so, the literal has a million characters or more.
-/

set_option autoImplicit false

namespace StackScript

namespace Decimal

/-- What it takes to read a number and its multiple by a power of ten as two things: the multiple is
an integer other than zero, and the number is not an integer out of range. -/
structure ToldApart (number multiple : ℚ) : Prop where
  integral : ∃ whole : Int, multiple = whole ∧ whole ≠ 0
  inside : ∀ whole : Int, number = whole → fits whole = true

/-- The exponent is beyond the limit, and the number with the exponent is told apart from the number
with the limit. -/
inductive ShowsLimit (decimal : Decimal) : Prop
  | above (beyond : exponentLimit < decimal.exponent)
      (apart : ToldApart decimal.clamp.value decimal.value)
  | below (beyond : decimal.exponent < -exponentLimit)
      (apart : ToldApart decimal.value decimal.clamp.value)

section Multiples

variable {number multiple : ℚ} {low high : Except Refusal Int} {count : Nat}

theorem fits_of_fits_mul_pow {whole : Int} (inside : fits (whole * 10 ^ count) = true) :
    fits whole = true := by
  have positive : (0 : Int) < 10 ^ count := by positivity
  rw [fits_iff] at inside ⊢
  constructor <;> nlinarith

theorem eq_zero_of_eq_mul_pow {whole : Int} (same : whole = whole * 10 ^ (count + 1)) :
    whole = 0 := by
  have more : (1 : Int) < 10 ^ (count + 1) := one_lt_pow₀ (by omega) (by omega)
  exact (mul_right_eq_self₀.mp same.symm).resolve_left more.ne'

theorem toldApart_of_answers_ne (scaled : multiple = number * 10 ^ count)
    (lower : Answers number low) (higher : Answers multiple high) (differ : low ≠ high) :
    ToldApart number multiple := by
  have scales (whole : Int) (same : number = whole) :
      multiple = (whole * 10 ^ count : Int) := by
    rw [scaled, same]
    push_cast
    rfl
  constructor
  case integral =>
    by_contra none
    push Not at none
    apply differ
    by_cases zero : multiple = (0 : Int)
    next =>
      have vanishes : number = (0 : Int) := by simpa [scaled] using zero
      rw [lower.eq_ok_iff.mpr ⟨vanishes, rfl⟩, higher.eq_ok_iff.mpr ⟨zero, rfl⟩]
    next =>
      have broken (whole : Int) : multiple ≠ whole := by
        intro same
        apply zero
        rw [same, none whole same]
      have alsoBroken (whole : Int) : number ≠ whole := fun same => broken _ (scales whole same)
      rw [lower.eq_nonInteger_iff.mpr alsoBroken, higher.eq_nonInteger_iff.mpr broken]
  case inside =>
    intro whole same
    by_contra outside
    have alsoOutside : ¬ fits (whole * 10 ^ count) = true :=
      fun inside => outside (fits_of_fits_mul_pow inside)
    apply differ
    rw [lower.eq_outOfRange_iff.mpr ⟨whole, same, outside⟩,
      higher.eq_outOfRange_iff.mpr ⟨_, scales whole same, alsoOutside⟩]

theorem answers_ne_of_toldApart (scaled : multiple = number * 10 ^ (count + 1))
    (lower : Answers number low) (higher : Answers multiple high)
    (apart : ToldApart number multiple) : low ≠ high := by
  rintro rfl
  obtain ⟨whole, same, nonzero⟩ := apart.integral
  cases higher with
  | integer again _ =>
    have found := (lower.eq_ok_iff.mp rfl).1
    obtain rfl := Int.cast_injective (again.symm.trans same)
    rw [same, found] at scaled
    exact nonzero (eq_zero_of_eq_mul_pow (by exact_mod_cast scaled))
  | outOfRange _ _ =>
    obtain ⟨found, isFound, outside⟩ := lower.eq_outOfRange_iff.mp rfl
    exact outside (apart.inside found isFound)
  | nonInteger broken => exact broken whole same

end Multiples

section Limit

variable {decimal : Decimal}

def saturate (exponent : Int) : Int :=
  max (-(exponentLimit : Int)) (min exponent exponentLimit)

theorem clamp_eq (decimal : Decimal) :
    decimal.clamp = { decimal with exponent := saturate decimal.exponent } :=
  clamp_mk ..

theorem clamp_of_within (least : -exponentLimit ≤ decimal.exponent)
    (most : decimal.exponent ≤ exponentLimit) : decimal.clamp = decimal := by
  rw [clamp_eq, saturate, min_eq_left most, max_eq_right least]

theorem value_add_exponent (decimal : Decimal) (exponent : Int) (count : Nat) :
    value { decimal with exponent := exponent + count } =
      value { decimal with exponent } * 10 ^ count := by
  simp only [value]
  rw [zpow_add₀ (by norm_num), zpow_natCast, mul_assoc]

theorem integer_ne_iff (all : ∀ digit ∈ decimal.whole ++ decimal.fraction, digit.isDigit = true)
    {least most : Int} (below : least < most) :
    integer { decimal with exponent := least } ≠ integer { decimal with exponent := most } ↔
      ToldApart (value { decimal with exponent := least })
        (value { decimal with exponent := most }) := by
  obtain ⟨count, rfl⟩ : ∃ count : Nat, most = least + (count + 1 : Nat) :=
    ⟨(most - least - 1).toNat, by omega⟩
  have scaled := value_add_exponent decimal least (count + 1)
  have lower := @answers_integer { decimal with exponent := least } all
  have higher := @answers_integer { decimal with exponent := least + (count + 1 : Nat) } all
  exact ⟨toldApart_of_answers_ne scaled lower higher, answers_ne_of_toldApart scaled lower higher⟩

theorem integer_clamp_ne_iff
    (all : ∀ digit ∈ decimal.whole ++ decimal.fraction, digit.isDigit = true) :
    decimal.clamp.integer ≠ decimal.integer ↔ decimal.ShowsLimit := by
  have clamped := clamp_exponent decimal
  rcases lt_or_ge (exponentLimit : Int) decimal.exponent with above | notAbove
  next =>
    have lowered : decimal.clamp.exponent < decimal.exponent := by omega
    refine (integer_ne_iff all lowered).trans ⟨.above above, ?_⟩
    rintro (⟨_, apart⟩ | ⟨below, _⟩)
    next => exact apart
    next => omega
  next =>
    rcases lt_or_ge decimal.exponent (-exponentLimit) with below | notBelow
    next =>
      have raised : decimal.exponent < decimal.clamp.exponent := by omega
      refine ne_comm.trans ((integer_ne_iff all raised).trans ⟨.below below, ?_⟩)
      rintro (⟨above, _⟩ | ⟨_, apart⟩)
      next => omega
      next => exact apart
    next =>
      rw [clamp_of_within notBelow notAbove]
      refine iff_of_false (fun differ => differ rfl) ?_
      rintro (⟨above, _⟩ | ⟨below, _⟩)
      next => omega
      next => omega

end Limit

section Length

variable {text scale mantissa whole fraction digits : List Char} {exponent : Int}
  {decimal : Decimal}

theorem Numeral.lt_length (numeral : Numeral digits) {count : Nat}
    (large : 10 ^ count ≤ digitsValue digits) : count < digits.length :=
  (Nat.pow_lt_pow_iff_right (by omega)).mp (large.trans_lt (digitsValue_lt numeral.all))

theorem natAbs_signed (negative : Bool) (magnitude : Nat) :
    (signed negative magnitude).natAbs = magnitude := by
  cases negative <;> simp [signed]

theorem Scale.length_of_beyond (scaled : Scale scale exponent)
    (beyond : 1000000 < exponent.natAbs) : 8 ≤ scale.length := by
  cases scaled with
  | none => simp at beyond
  | marked _ _ numeral =>
    rw [natAbs_signed] at beyond
    have seven := @Numeral.lt_length _ numeral 6 (by omega)
    rw [List.length_cons, List.length_append]
    omega

theorem Mantissa.length_digits_le (spelled : Mantissa mantissa whole fraction) :
    whole.length + fraction.length ≤ mantissa.length ∧ fraction.length < mantissa.length := by
  cases spelled with
  | whole numeral =>
    have positive := List.length_pos_iff.mpr numeral.nonempty
    simpa using positive
  | pointed numeral =>
    rw [List.length_append, List.length_cons]
    omega

-- The last digit of an integer that fits comes within ten places of the point. If the exponent is
-- above the limit this takes 999991 digits behind the point, besides the point and an exponent of
-- eight characters; if it is below the limit, a million zeros.
theorem Spells.integer_clamp_of_short (spelled : Spells text decimal)
    (short : text.length < 1000000) : decimal.clamp.integer = decimal.integer := by
  have all := spelled.isDigit
  cases spelled with
  | @parts _ mantissa scale whole fraction _ exponent signs spelled scaled =>
    obtain ⟨digits, behind⟩ := spelled.length_digits_le
    rw [List.length_append, List.length_append] at short
    have few : whole.length + fraction.length ≤ 1000000 := by omega
    refine integer_clamp all (.inr few) ?_
    rcases lt_or_ge 1000000 exponent with beyond | within
    next =>
      have marked := scaled.length_of_beyond (by omega)
      have fewBehind : fraction.length ≤ 999990 := by omega
      exact .inr fewBehind
    next => exact .inl within

end Length

end Decimal

namespace Literal

open Decimal

def report (text : List Char) (span : Span) : Except Refusal Int → Except CompileError Int
  | .ok number => .ok number
  | .error .nonInteger => .error (.fault (.nonIntegerLiteral (String.ofList text)) span)
  | .error .outOfRange => .error (.fault (.literalOutOfRange (String.ofList text)) span)

def readWith (replace : Int → Int) (text : List Char) (span : Span) : Except CompileError Int :=
  report text span <|
    match ofText? text with
    | none => .error .nonInteger
    | some decimal => integer { decimal with exponent := replace decimal.exponent }

theorem report_injective (text : List Char) (span : Span) :
    Function.Injective (report text span) := by
  intro left right same
  rcases left with (_ | _) | _ <;> rcases right with (_ | _) | _ <;> simp_all [report]

theorem read_eq_readWith (text : List Char) (span : Span) :
    read text span = readWith saturate text span := by
  have reported : read text span = report text span (value text) := by
    unfold read report
    rfl
  rw [reported, value, readWith]
  cases ofText? text with
  | none => rfl
  | some decimal =>
    dsimp only
    rw [clamp_eq]

section Spelled

variable {text whole fraction : List Char} {negative : Bool} {exponent : Int} {replace : Int → Int}
  {span : Span}

theorem readWith_of_spells {decimal : Decimal} (spelled : Spells text decimal) :
    readWith replace text span =
      report text span (integer { decimal with exponent := replace decimal.exponent }) := by
  rw [readWith, ofText?_eq_some.mpr spelled]

theorem readWith_of_not_spells (missing : ¬ ∃ decimal, Spells text decimal) :
    readWith replace text span = report text span (.error .nonInteger) := by
  have none : ofText? text = none := by
    rw [Option.eq_none_iff_forall_ne_some]
    exact fun decimal found => missing ⟨decimal, ofText?_eq_some.mp found⟩
  rw [readWith, none]

theorem read_ne_iff {decimal : Decimal} (spelled : Spells text decimal) (span : Span) :
    read text span ≠ readWith id text span ↔ decimal.clamp.integer ≠ decimal.integer := by
  rw [read_eq_readWith, readWith_of_spells spelled, readWith_of_spells spelled,
    (report_injective text span).ne_iff, ← clamp_eq]
  rfl

theorem readWith_eq_ok (spelled : Spells text ⟨negative, whole, fraction, exponent⟩) {number : Int}
    (same : Decimal.value ⟨negative, whole, fraction, replace exponent⟩ = number)
    (inside : fits number = true) : readWith replace text span = .ok number := by
  have answers := @answers_integer ⟨negative, whole, fraction, replace exponent⟩ spelled.isDigit
  rw [readWith_of_spells spelled, answers.eq_ok_iff.mpr ⟨same, inside⟩]
  rfl

theorem readWith_eq_nonInteger (spelled : Spells text ⟨negative, whole, fraction, exponent⟩)
    (broken : ∀ number : Int,
      Decimal.value ⟨negative, whole, fraction, replace exponent⟩ ≠ number) :
    readWith replace text span =
      .error (.fault (.nonIntegerLiteral (String.ofList text)) span) := by
  have answers := @answers_integer ⟨negative, whole, fraction, replace exponent⟩ spelled.isDigit
  rw [readWith_of_spells spelled, answers.eq_nonInteger_iff.mpr broken]
  rfl

end Spelled

/-- The exponent of a literal counts as the limit where it is beyond it. This changes what the
literal is read as just if, of the number with the exponent and the number with the limit, the one
of the higher exponent is an integer other than zero and the other is not an integer out of range.
It changes nothing in a text of less than a million characters. -/
theorem saturation_observed_iff (text : List Char) (span : Span) :
    read text span = readWith saturate text span ∧
    (read text span ≠ readWith id text span ↔
      ∃ decimal, Spells text decimal ∧ decimal.ShowsLimit) ∧
    (text.length < 1000000 → read text span = readWith id text span) := by
  refine ⟨read_eq_readWith text span, ?_⟩
  by_cases spells : ∃ decimal, Spells text decimal
  next =>
    obtain ⟨decimal, spelled⟩ := spells
    have observed := read_ne_iff spelled span
    constructor
    next =>
      rw [observed, integer_clamp_ne_iff spelled.isDigit]
      constructor
      next => exact fun shown => ⟨decimal, spelled, shown⟩
      next =>
        rintro ⟨other, again, shown⟩
        rwa [spelled.unique again]
    next =>
      intro short
      by_contra differ
      exact observed.mp differ (spelled.integer_clamp_of_short short)
  next =>
    have same : read text span = readWith id text span := by
      rw [read_eq_readWith, readWith_of_not_spells spells, readWith_of_not_spells spells]
    refine ⟨iff_of_false (fun differ => differ same) ?_, fun _ => same⟩
    rintro ⟨decimal, spelled, _⟩
    exact spells ⟨decimal, spelled⟩

def padded (zeros : Nat) (scale : List Char) : List Char :=
  '1' :: (List.replicate zeros '0' ++ scale)

def tiny (zeros : Nat) (scale : List Char) : List Char :=
  '.' :: (List.replicate zeros '0' ++ '1' :: scale)

section Powers

variable {scale : List Char} {exponent : Int}

theorem isDigit_of_mem_zeros (zeros : Nat) :
    ∀ digit ∈ List.replicate zeros '0', digit.isDigit = true := by
  intro digit member
  rw [List.eq_of_mem_replicate member]
  rfl

theorem spells_padded (scaled : Scale scale exponent) (zeros : Nat) :
    Spells (padded zeros scale) ⟨false, '1' :: List.replicate zeros '0', [], exponent⟩ := by
  have numeral : Numeral ('1' :: List.replicate zeros '0') :=
    ⟨by simp, List.forall_mem_cons.mpr ⟨rfl, isDigit_of_mem_zeros zeros⟩⟩
  exact .parts .none (.whole numeral) scaled

theorem value_padded (zeros : Nat) (exponent : Int) :
    Decimal.value ⟨false, '1' :: List.replicate zeros '0', [], exponent⟩ =
      10 ^ (zeros + exponent) := by
  have digits : digitsValue ('1' :: List.replicate zeros '0') = 10 ^ zeros := by
    rw [digitsValue_cons, digitsValue_zeros (fun _ => List.eq_of_mem_replicate),
      List.length_replicate]
    simp
  rw [value_eq, List.append_nil, digits, zpow_add₀ (by norm_num)]
  simp [signed]

theorem spells_tiny (scaled : Scale scale exponent) (zeros : Nat) :
    Spells (tiny zeros scale) ⟨false, [], List.replicate zeros '0' ++ ['1'], exponent⟩ := by
  have numeral : Numeral (List.replicate zeros '0' ++ ['1']) :=
    ⟨by simp, List.forall_mem_append.mpr ⟨isDigit_of_mem_zeros zeros, by simp⟩⟩
  have spelled := Spells.parts .none (@Mantissa.pointed [] _ numeral) scaled
  simpa [tiny] using spelled

theorem value_tiny (zeros : Nat) (exponent : Int) :
    Decimal.value ⟨false, [], List.replicate zeros '0' ++ ['1'], exponent⟩ =
      10 ^ (exponent - (zeros + 1)) := by
  have digits : digitsValue (List.replicate zeros '0' ++ ['1']) = 1 := by
    rw [digitsValue_append_of_zeros (fun _ => List.eq_of_mem_replicate)]
    rfl
  rw [value_eq, List.nil_append, digits]
  simp [signed]

theorem length_tiny (zeros : Nat) (scale : List Char) :
    (tiny zeros scale).length = zeros + scale.length + 2 := by
  simp only [tiny, List.length_cons, List.length_append, List.length_replicate]
  omega

theorem scale_of_splitExponent? (read : splitExponent? scale = some ([], exponent)) :
    Scale scale exponent := by
  obtain ⟨found, rfl, scaled, -⟩ := splitExponent?_eq_some.mp read
  exact scaled

theorem scale_above : Scale "e1000001".toList 1000001 :=
  scale_of_splitExponent? (by decide +kernel)

theorem scale_below : Scale "e-1000001".toList (-1000001) :=
  scale_of_splitExponent? (by decide +kernel)

theorem saturate_above : saturate 1000001 = 1000000 := by
  decide

theorem saturate_below : saturate (-1000001) = -1000000 := by
  decide

end Powers

-- Ten to the tenth is read as its tenth, in a text of a million characters. A short text far beyond
-- the limit is refused in any case.
theorem saturation_observed_from_million :
    ((tiny 999990 "e1000001".toList).length = 1000000 ∧
      read (tiny 999990 "e1000001".toList) ⟨0, 0⟩ ≠
        readWith id (tiny 999990 "e1000001".toList) ⟨0, 0⟩) ∧
    "2.50e-9999999".toList.length < 1000000 ∧
      read "2.50e-9999999".toList ⟨0, 0⟩ = readWith id "2.50e-9999999".toList ⟨0, 0⟩ := by
  have short : "2.50e-9999999".toList.length < 1000000 := by decide +kernel
  refine ⟨⟨?_, ?_⟩, short, (saturation_observed_iff _ _).2.2 short⟩
  next =>
    rw [length_tiny]
    rfl
  next =>
    refine (saturation_observed_iff _ _).2.1.mpr
      ⟨_, spells_tiny scale_above 999990, .above (by decide) ⟨⟨10 ^ 10, ?_, by norm_num⟩, ?_⟩⟩
    next =>
      rw [value_tiny]
      norm_num
    next =>
      intro whole same
      have power : ((10 ^ 9 : Int) : ℚ) = whole := by
        rw [← same, clamp_eq, saturate_above, value_tiny]
        norm_num
      rw [← Int.cast_injective power]
      decide

/-- The limit is no bound on the exponents of integers that fit. A literal that says one is read as
ten, since its exponent counts as a higher one, and another that says one is refused, since its
exponent counts as a lower one. -/
theorem saturation_changes_literals :
    readWith id (padded 1000001 "e-1000001".toList) ⟨0, 0⟩ = .ok 1 ∧
    read (padded 1000001 "e-1000001".toList) ⟨0, 0⟩ = .ok 10 ∧
    readWith id (tiny 1000000 "e1000001".toList) ⟨0, 0⟩ = .ok 1 ∧
    read (tiny 1000000 "e1000001".toList) ⟨0, 0⟩ =
      .error (.fault
        (.nonIntegerLiteral (String.ofList (tiny 1000000 "e1000001".toList))) ⟨0, 0⟩) := by
  have long := spells_padded scale_below 1000001
  have deep := spells_tiny scale_above 1000000
  rw [read_eq_readWith, read_eq_readWith]
  refine ⟨readWith_eq_ok long ?_ rfl, readWith_eq_ok long ?_ rfl, readWith_eq_ok deep ?_ rfl,
    readWith_eq_nonInteger deep ?_⟩
  next =>
    rw [value_padded]
    norm_num
  next =>
    rw [value_padded, saturate_below]
    norm_num
  next =>
    rw [value_tiny]
    norm_num
  next =>
    intro number same
    have tenfold : (1 : ℚ) = 10 * number := by
      rw [← same, value_tiny, saturate_above]
      norm_num
    have integers : 1 = 10 * number := by exact_mod_cast tenfold
    omega

end Literal

end StackScript
