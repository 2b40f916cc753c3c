/-! Finite double-precision numbers in exact integer arithmetic: rounding of a quotient to the
nearest number, products and quotients, and the fewest decimal digits that read back. Powers are
spelled `Nat.pow`, which stands for the same function whatever else is imported. -/
namespace CommitPipeline

/-- Magnitudes from here on do not denote finite numbers. -/
def Binary64.limit : Nat := 0x7FF0000000000000

/-- A finite double: its sign and its other 63 bits, read as one number. A larger pattern denotes
a larger number, so a neighbour of a number is one pattern away. -/
structure Binary64 where
  negative : Bool
  magnitude : Nat
  finite : magnitude < Binary64.limit
  deriving DecidableEq

namespace Binary64

/-- The number without its sign is `significand * 2 ^ (exponent - 1074)`. -/
def significand (magnitude : Nat) : Nat :=
  if magnitude < Nat.pow 2 52 then magnitude else Nat.pow 2 52 + magnitude % Nat.pow 2 52

/-- The exponent above that of the smallest number. -/
def exponent (magnitude : Nat) : Nat :=
  magnitude / Nat.pow 2 52 - 1

/-- The number without its sign, counted in units of `2 ^ -1074`. -/
def units (magnitude : Nat) : Nat :=
  significand magnitude * Nat.pow 2 (exponent magnitude)

/-- How many units one is. -/
def unitsOfOne : Nat := Nat.pow 2 1074

/-- The quotient rounded to the nearest integer, a tie to the even one. -/
def roundDiv (num den : Nat) : Nat :=
  let quotient := num / den
  let rest := 2 * (num % den)
  if den < rest || (rest = den && quotient % 2 = 1) then quotient + 1 else quotient

/-- The magnitude nearest to `num / den`, which may lie beyond the finite ones. The quotient is
scaled so that it has 53 binary digits, or to units if it is too small for that; a carry out of
the rounding runs into the exponent. -/
def nearestMagnitude (num den : Nat) : Nat :=
  if num = 0 then 0
  else
    let guess : Int := (num.log2 : Int) - (den.log2 : Int) - 52
    let wide := num * Nat.pow 2 (-guess).toNat < den * Nat.pow 2 guess.toNat * Nat.pow 2 52
    let scale := max (if wide then guess - 1 else guess) (-1074)
    (scale + 1074).toNat * Nat.pow 2 52 +
      roundDiv (num * Nat.pow 2 (-scale).toNat) (den * Nat.pow 2 scale.toNat)

/-- The number nearest to `num / den`, unless that lies beyond the finite ones. -/
def ofRatio? (negative : Bool) (num den : Nat) : Option Binary64 :=
  if h : nearestMagnitude num den < limit then some ⟨negative, nearestMagnitude num den, h⟩
  else none

def zero (negative : Bool) : Binary64 := ⟨negative, 0, by decide⟩

/-- The number nearest to a natural number. -/
def ofNat? (n : Nat) : Option Binary64 :=
  ofRatio? false n 1

/-- The rounded product, with the sign of the left factor. -/
def mul? (x y : Binary64) : Option Binary64 :=
  ofRatio? x.negative (units x.magnitude * units y.magnitude) (unitsOfOne * unitsOfOne)

/-- The rounded quotient, with the sign of the dividend. -/
def div? (x y : Binary64) : Option Binary64 :=
  ofRatio? x.negative (units x.magnitude) (units y.magnitude)

/-- The number nearest to `digits * 10 ^ scale`, rounded once. Scales far outside the range of
doubles are settled by the number of digits alone. -/
def ofDecimal? (negative : Bool) (digits : Nat) (scale : Int) : Option Binary64 :=
  let width : Int := (Nat.toDigits 10 digits).length
  if digits = 0 ∨ width + scale < -400 then some (zero negative)
  else if 400 < width + scale then none
  else ofRatio? negative (digits * Nat.pow 10 scale.toNat) (Nat.pow 10 (-scale).toNat)

/-- Whether `num / den` is read back as the number of this magnitude: it lies between the two
points half-way to the neighbours, which belong to the even magnitude. -/
def readsBack (magnitude num den : Nat) : Bool :=
  let twice := 2 * num * unitsOfOne
  let low := units (magnitude - 1) + units magnitude
  let high := units magnitude + units (magnitude + 1)
  if magnitude % 2 = 0 then low * den ≤ twice && twice ≤ high * den
  else low * den < twice && twice < high * den

/-- The power of ten above a positive number of units: `10 ^ (p - 1) ≤ x < 10 ^ p`. -/
def decimalWidth (count : Nat) : Int :=
  if unitsOfOne ≤ count then (Nat.toDigits 10 (count / unitsOfOne)).length
  else
    let zeros := (List.range 340).find? (fun z => unitsOfOne ≤ count * Nat.pow 10 (z + 1))
    Int.negOfNat (zeros.getD 340)

/-- The candidate with `places` digits: of the two decimal neighbours of the number the nearer
one that reads back. -/
def withDigits? (magnitude : Nat) (places : Nat) : Option (Nat × Int) :=
  let count := units magnitude
  let scale := decimalWidth count - places
  let num := count * Nat.pow 10 (-scale).toNat
  let den := unitsOfOne * Nat.pow 10 scale.toNat
  let below := num / den
  let up := Nat.pow 10 scale.toNat
  let down := Nat.pow 10 (-scale).toNat
  let lowOk := readsBack magnitude (below * up) down
  let highOk := readsBack magnitude ((below + 1) * up) down
  let twice := 2 * (num % den)
  if lowOk && (!highOk || twice < den || (twice = den && below % 2 = 0)) then some (below, scale)
  else if highOk then some (below + 1, scale)
  else none

/-- Moves zeros at the end of the digits into the scale. -/
def dropZeros : Nat → Nat → Int → Nat × Int
  | 0, digits, scale => (digits, scale)
  | n + 1, digits, scale =>
    if digits % 10 = 0 then dropZeros n (digits / 10) (scale + 1) else (digits, scale)

/-- The fewest digits, with their scale, that read back as the number of this magnitude; of
several the nearest. -/
def shortest (magnitude : Nat) : Nat × Int :=
  match (List.range 17).findSome? fun n => withDigits? magnitude (n + 1) with
  | some (digits, scale) => dropZeros 18 digits scale
  | none => (0, 0)

/-- The digits of an exponent, two at least. -/
def exponentDigits (size : Nat) : List Char :=
  let digits := Nat.toDigits 10 size
  if digits.length < 2 then '0' :: digits else digits

/-- The exponent in the text of a number, always with its sign. -/
def exponentText (exponent : Int) : List Char :=
  'e' :: (if exponent < 0 then '-' else '+') :: exponentDigits exponent.natAbs

/-- The decimal text of a number: positional from `1e-4` up to sixteen digits before the point,
otherwise one digit, the fraction and the exponent. -/
def toText (x : Binary64) : String :=
  let mark := if x.negative then "-" else ""
  if x.magnitude = 0 then mark ++ "0.0"
  else
    let (digits, scale) := shortest x.magnitude
    let text := Nat.toDigits 10 digits
    let width := (text.length : Int) + scale
    let zeros (n : Int) := List.replicate n.toNat '0'
    let body :=
      if 0 ≤ scale ∧ width ≤ 16 then text ++ zeros scale ++ ['.', '0']
      else if 0 < width ∧ width ≤ 16 then
        text.take width.toNat ++ '.' :: text.drop width.toNat
      else if -4 < width ∧ width ≤ 0 then '0' :: '.' :: (zeros (-width) ++ text)
      else
        let tail := exponentText (width - 1)
        match text with
        | [] => tail
        | [d] => d :: tail
        | d :: fraction => d :: '.' :: (fraction ++ tail)
    mark ++ String.ofList body

end Binary64
end CommitPipeline
