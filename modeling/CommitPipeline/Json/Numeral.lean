import CommitPipeline.Json.Value

/-! JSON numerals and the numbers they denote. Integers that fit into 64 bits stand for
themselves. Every other numeral denotes a double that is found in two roundings: the leading
digits as a 64-bit integer, then one product or quotient with a power of ten. -/
namespace CommitPipeline.Json

/-- The parts of a numeral: sign, digits before the point, digits behind it, and the exponent
with its sign. -/
structure Numeral where
  negative : Bool
  whole : List Nat
  fraction : List Nat
  exponent : Option (Bool × List Nat)
  deriving DecidableEq

namespace Numeral

/-- Takes digits into an integer as long as it stays at most `bound`; the rest is left over. -/
def accumulate (bound : Nat) : Nat → List Nat → Nat × List Nat
  | total, [] => (total, [])
  | total, d :: rest =>
    if total * 10 + d ≤ bound then accumulate bound (total * 10 + d) rest
    else (total, d :: rest)

/-- The largest significand. -/
def maxSignificand : Nat := Nat.pow 2 64 - 1

/-- Largest and smallest exponent. -/
def maxExponent : Int := Int.pow 2 31 - 1

def minExponent : Int := -Int.pow 2 31

/-- `x * 10 ^ exponent` by one rounded product or quotient, after quotients by `10 ^ 308` while the
exponent is below those of the doubles. Nothing is returned beyond the finite doubles. -/
def scale (x : Binary64) (exponent : Int) : Option Binary64 :=
  if exponent.natAbs ≤ 308 then do
    let power ← Binary64.ofNat? (Nat.pow 10 exponent.natAbs)
    if 0 ≤ exponent then x.mul? power else x.div? power
  else if x.magnitude = 0 then some x
  else if 0 ≤ exponent then none
  else do
    let power ← Binary64.ofNat? (Nat.pow 10 308)
    let smaller ← x.div? power
    scale smaller (exponent + 308)
  termination_by exponent.natAbs

/-- The double of a significand and an exponent. -/
def toDouble? (negative : Bool) (significand : Nat) (exponent : Int) : Option Binary64 := do
  let x ← scale (← Binary64.ofNat? significand) exponent
  some { x with negative }

/-- The number a numeral denotes, if it is not beyond the finite doubles. -/
def value? (n : Numeral) : Option Number :=
  let (leading, left) := accumulate maxSignificand 0 n.whole
  let (significand, unread) := accumulate maxSignificand leading n.fraction
  let shift : Int := (left.length : Int) - ((n.fraction.length : Int) - unread.length)
  match n.exponent with
  | none =>
    if n.fraction = [] && left = [] then
      if !n.negative then some (.int significand)
      else if 0 < significand && significand ≤ Nat.pow 2 63 then some (.int (-significand))
      else (toDouble? true significand 0).map .float
    else (toDouble? n.negative significand shift).map .float
  | some (down, digits) =>
    match accumulate maxExponent.toNat 0 digits with
    | (size, []) =>
      let total := if down then max minExponent (shift - size) else min maxExponent (shift + size)
      (toDouble? n.negative significand total).map .float
    | _ =>
      if significand ≠ 0 && !down then none
      else some (.float (Binary64.zero n.negative))

end Numeral
end CommitPipeline.Json
