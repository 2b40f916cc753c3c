import CommitPipeline.Number.Binary64

/-! Doubles together with the infinities and what is not a number. -/
namespace CommitPipeline

inductive Extended where
  | finite (x : Binary64)
  | infinite (negative : Bool)
  | notANumber
  deriving DecidableEq

namespace Extended

/-- All digits of a number, with a point and a digit behind it, and no exponent. -/
def positional (x : Binary64) : String :=
  let (digits, scale) := Binary64.shortest x.magnitude
  let text := Nat.toDigits 10 digits
  let places := (-scale).toNat
  let padded := List.replicate (places + 1 - text.length) '0' ++ text
  let whole := padded.take (padded.length - places) ++ List.replicate scale.toNat '0'
  let fraction := padded.drop (padded.length - places)
  (if x.negative then "-" else "") ++ String.ofList whole ++ "."
    ++ String.ofList (if fraction.isEmpty then ['0'] else fraction)

/-- The text of a number in messages. -/
def toText : Extended → String
  | .finite x => positional x
  | .infinite false => "inf"
  | .infinite true => "-inf"
  | .notANumber => "NaN"

end Extended
end CommitPipeline
