import StackScript.CompileError

set_option autoImplicit false

namespace StackScript

structure Decimal where
  negative : Bool
  whole : List Char
  fraction : List Char
  exponent : Int
deriving DecidableEq, Repr

namespace Decimal

def splitSign : List Char → Bool × List Char
  | '-' :: rest => (true, rest)
  | '+' :: rest => (false, rest)
  | text => (false, text)

def signed (negative : Bool) (magnitude : Nat) : Int :=
  if negative then -magnitude else magnitude

def digitsValue (digits : List Char) : Nat :=
  digits.foldl (fun value digit => 10 * value + (digit.toNat - '0'.toNat)) 0

theorem digitsValue_concat (digits : List Char) (digit : Char) :
    digitsValue (digits ++ [digit]) = 10 * digitsValue digits + (digit.toNat - '0'.toNat) := by
  simp [digitsValue]

def exponent? (text : List Char) : Option Int :=
  let (negative, digits) := splitSign text
  if digits.isEmpty || !digits.all Char.isDigit then none
  else some (signed negative (digitsValue digits))

def isExponentMark (character : Char) : Bool :=
  character == 'e' || character == 'E'

def splitExponent? (text : List Char) : Option (List Char × Int) :=
  let mantissa := text.takeWhile fun character => !isExponentMark character
  match text.dropWhile fun character => !isExponentMark character with
  | [] => some (mantissa, 0)
  | _ :: rest => (exponent? rest).map (mantissa, ·)

def splitPoint (mantissa : List Char) : List Char × List Char :=
  (mantissa.takeWhile (· != '.'), (mantissa.dropWhile (· != '.')).drop 1)

def ofText? (text : List Char) : Option Decimal :=
  let (negative, unsigned) := splitSign text
  match splitExponent? unsigned with
  | none => none
  | some (mantissa, exponent) =>
    let (whole, fraction) := splitPoint mantissa
    let digits := whole ++ fraction
    if digits.isEmpty || !digits.all Char.isDigit then none
    else some { negative, whole, fraction, exponent }

/-- Exponents of a larger magnitude count as this one. -/
def exponentLimit : Nat := 1000000

def clamp (decimal : Decimal) : Decimal :=
  { decimal with
    exponent :=
      signed (decide (decimal.exponent < 0)) (min decimal.exponent.natAbs exponentLimit) }

inductive Refusal where
  | nonInteger
  | outOfRange
deriving DecidableEq, Repr

def fits (value : Int) : Bool :=
  -2147483648 ≤ value && value ≤ 2147483647

def withoutTrailingZeros (digits : List Char) : List Char :=
  (digits.reverse.dropWhile (· == '0')).reverse

/-- The magnitude of a decimal if it is an integer of at most ten digits. `places` is how many of
the digits from the first to the last that is not zero stand before the point, moved by the
exponent. -/
def magnitude (decimal : Decimal) : Except Refusal Nat :=
  let digits := withoutTrailingZeros (decimal.whole ++ decimal.fraction)
  let significant := digits.dropWhile (· == '0')
  if significant.isEmpty then .ok 0
  else
    let leadingZeros := digits.length - significant.length
    let places : Int := decimal.whole.length + decimal.exponent - leadingZeros
    if places < significant.length then .error .nonInteger
    else if 10 < places then .error .outOfRange
    else .ok (digitsValue (significant ++ List.replicate (places.toNat - significant.length) '0'))

def integer (decimal : Decimal) : Except Refusal Int :=
  match decimal.magnitude with
  | .error refusal => .error refusal
  | .ok magnitude =>
    let value := signed decimal.negative magnitude
    if fits value then .ok value else .error .outOfRange

end Decimal

namespace Literal

def value (text : List Char) : Except Decimal.Refusal Int :=
  match Decimal.ofText? text with
  | none => .error .nonInteger
  | some decimal => decimal.clamp.integer

def read (text : List Char) (span : Span) : Except CompileError Int :=
  match value text with
  | .ok value => .ok value
  | .error .nonInteger => .error (.fault (.nonIntegerLiteral (String.ofList text)) span)
  | .error .outOfRange => .error (.fault (.literalOutOfRange (String.ofList text)) span)

end Literal

end StackScript
