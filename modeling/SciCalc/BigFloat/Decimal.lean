import SciCalc.BigFloat.Elementary
import SciCalc.Decimal.Numeral

/-! # Decimal digits of numbers of any precision

A number is read from a decimal by rounding its exact value, and shown by cutting its exact
value to some digits. Where the exponent is so large that the exact value would take too much
room, the power of ten is enclosed instead.
-/

namespace SciCalc.BigFloat

/-- How many bits a decimal digit takes, 3.3219280948873626, in units of `10 ^ -16`. -/
def digitBits : Nat := 33219280948873626

/-- The bits that stand for a number of decimal places: those of one digit more, rounded. -/
def bitsOfPlaces (places : Nat) : Nat :=
  max 1 (roundDiv ((places + 1) * digitBits) (tenPow 16))

/-- Exponents up to this magnitude are computed with exactly. -/
def exactReach : Nat := 20000

/-- The power of ten to an integer, with about `bits` leading bits. -/
def powerOfTen (bits : Nat) (power : Int) : Enclosure :=
  Enclosure.pow bits 10 0 power 0

/-- The number `mantissa * 10 ^ power`, with about `bits` leading bits. -/
def enclosedDecimal (bits : Nat) (mantissa power : Int) : Enclosure :=
  (powerOfTen (bits + Nat.log2 mantissa.natAbs) power).scale mantissa 0

/-- A decimal rounded to `bits` bits. -/
def ofDecimal (bits : Nat) (d : Decimal) : BigFloat :=
  if d.digits = 0 then zero
  else if d.exponent.natAbs ≤ exactReach then
    let (num, den) := scaleTen d.digits 1 d.exponent
    ofFraction bits d.negative num den 0
  else
    let mantissa : Int := if d.negative then -(d.digits : Int) else d.digits
    ofEnclosure bits fun working => some (enclosedDecimal working mantissa d.exponent)

/-- The number that a text denotes, rounded to `bits` bits. -/
def ofText? (bits : Nat) (text : String) : Option BigFloat :=
  (Numeral.ofText? text).map fun numeral =>
    match numeral with
    | .nan => nan
    | .inf negative => inf negative
    | .decimal d => ofDecimal bits d

/-- The greatest integer that is at most `mantissa * 2 ^ exponent`. -/
def floorScaled (mantissa exponent : Int) : Int := (finite mantissa exponent).floor

/-- The decimal exponent of the leading digit of a positive number with a large exponent. -/
def enclosedDecade (mantissa : Nat) (exponent : Int) : Int :=
  Enclosure.settle
    (fun bits => Enclosure.log10? (bits + Nat.log2 exponent.natAbs) mantissa exponent)
    floorScaled 0 20

/-- The number `mantissa * 2 ^ exponent` cut toward zero to a multiple of a power of two and then
to a multiple of a power of ten, both of which leave at least `count` digits. -/
def cutTwice (count mantissa : Nat) (exponent : Int) : Decimal :=
  let bits := count * digitBits / tenPow 16 + 10
  let places := (bits - (exponent + Nat.log2 mantissa + 1)).toNat
  let decimals := (2 * places * tenPow 16 + digitBits) / (2 * digitBits)
  let kept := floorScaled mantissa (exponent + places)
  ⟨false, (kept.toNat * tenPow decimals) >>> places, -decimals⟩

/-- The number `mantissa * 2 ^ exponent` cut toward zero to `count` digits. -/
def cutOnce (count mantissa : Nat) (exponent : Int) : Decimal :=
  if exponent.natAbs ≤ exactReach then
    let (num, den) := scaleTwo mantissa 1 exponent
    let place := decade num den + 1 - count
    let (num, den) := scaleTen num den (-place)
    ⟨false, num / den, place⟩
  else
    let place := enclosedDecade mantissa exponent + 1 - count
    let digits := Enclosure.settle
      (fun bits => some ((powerOfTen (bits + Nat.log2 mantissa) (-place)).scale mantissa exponent))
      floorScaled 0 (4 * count)
    ⟨false, digits.toNat, place⟩

/-- Numbers whose leading bit stands for a power of two beyond this are cut in decimal only. -/
def cutReach : Nat := 3500

/-- The number `mantissa * 2 ^ exponent` cut toward zero to at least `count` digits. -/
def cutDigits (count mantissa : Nat) (exponent : Int) : Decimal :=
  if (exponent + Nat.log2 mantissa + 1).natAbs ≤ cutReach then cutTwice count mantissa exponent
  else cutOnce (count + 3) mantissa exponent

/-- Rounds a row of digits to `count` of them: up from five on, but five followed by nothing but
zeros goes to the even digit. The result is the number that the digits kept stand for. -/
def roundDigits (count : Nat) (digits : List Char) : Nat :=
  let kept := Nat.ofDigitChars 10 (digits.take count) 0
  match digits.drop count with
  | [] => kept
  | next :: rest =>
    if next.toNat < '5'.toNat then kept
    else if next == '5' && rest.all (· == '0') then kept + kept % 2
    else kept + 1

/-- Where a number is shown without an exponent: for decimal exponents between these two, both
excluded. -/
structure FixedRange where
  above : Int
  below : Int

def FixedRange.ofDigits (digits : Nat) : FixedRange := ⟨min (-(digits / 3 : Nat)) (-5), digits⟩

def FixedRange.none : FixedRange := ⟨0, 0⟩

/-- Takes the zeros at the end of a fraction away and leaves one right after a point. -/
def stripFraction (cs : List Char) : List Char :=
  let stripped := Text.dropTrailing (· == '0') cs
  if stripped.getLast? == some '.' then stripped ++ ['0'] else stripped

/-- The exponent part of a text: a sign and digits. -/
def exponentChars (exponent : Int) : List Char :=
  'e' :: (if exponent < 0 then '-' else '+') :: Nat.toDigits 10 exponent.natAbs

/-- The text of digits whose first stands for the given power of ten. Without an exponent, the
zeros between digits and point are written; otherwise one digit stands before the point, and an
exponent of zero is not written. -/
def layout (range : FixedRange) (digits : List Char) (exponent : Int) : List Char :=
  if range.above < exponent && exponent < range.below then
    let digits := List.replicate (-exponent).toNat '0' ++ digits
    let split := if exponent < 0 then 1 else exponent.toNat + 1
    let digits := digits ++ List.replicate (split - digits.length) '0'
    stripFraction (digits.take split ++ '.' :: digits.drop split)
  else
    stripFraction (digits.take 1 ++ '.' :: digits.drop 1) ++
      if exponent = 0 then [] else exponentChars exponent

/-- The text of no digits at all: a bare zero fraction and the exponent, rounded. -/
def layoutNoDigits (digits : List Char) (exponent : Int) : List Char :=
  ['.', '0'] ++ exponentChars (if (digits.headD '0').toNat < '5'.toNat then exponent
    else exponent + 1)

/-- A finite number other than zero with `count` significant digits. -/
def significantText (count : Nat) (range : FixedRange) (mantissa exponent : Int) : String :=
  let cut := cutDigits (count + 10) mantissa.natAbs exponent
  let digits := cut.digitChars
  let text :=
    if count = 0 then layoutNoDigits digits cut.leadingExponent
    else
      let rounded := Nat.toDigits 10 (roundDigits count digits)
      let carry : Int := rounded.length - count
      layout range (rounded.take count) (cut.leadingExponent + carry)
  String.ofList (if mantissa < 0 then '-' :: text else text)

end SciCalc.BigFloat
