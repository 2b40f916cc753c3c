import CommitPipeline.Text.Digit
import CommitPipeline.Toml.Token
import CommitPipeline.Toml.Value

/-! Numbers in TOML documents. How a number has to be written is looser than what has a value: the
rest of an integer behind its first underscore is free, and a number may be too large. -/
namespace CommitPipeline.Toml

namespace Numeral

def isSign (c : Char) : Bool := c = '+' || c = '-'

/-- The sign at the front of a number, and what follows it. -/
def splitSign : List Char → Bool × List Char
  | '+' :: rest => (false, rest)
  | '-' :: rest => (true, rest)
  | rest => (false, rest)

def signed (negative : Bool) (n : Nat) : Int := if negative then -n else n

/-- Integers have at most 128 bits. -/
def inRange (n : Int) : Bool := -Int.pow 2 127 ≤ n && n < Int.pow 2 128

/-- The value of an integer in a base, where it has one. -/
def integerValue? (base : Nat) (cs : List Char) : Option Int := do
  let (negative, digits) := splitSign (cs.filter (· ≠ '_'))
  let n ← if digits.isEmpty then none else Text.number? base digits
  if inRange (signed negative n) then some (signed negative n) else none

/-- The value of a number with a fraction, an exponent or both, rounded once, where it has one. -/
def floatValue? (cs : List Char) : Option Binary64 := do
  let (negative, rest) := splitSign (cs.filter (· ≠ '_'))
  let (whole, rest) := rest.span Char.isDigit
  let (fraction, rest) := if rest.head? = some '.' then (rest.drop 1).span Char.isDigit else ([], rest)
  let (down, exponent) := splitSign (rest.drop 1)
  let digits ← Text.number? 10 (whole ++ fraction)
  let scale ← Text.number? 10 exponent
  Binary64.ofDecimal? negative digits (signed down scale - fraction.length)

/-- The place of the first underscore that does not stand between digits, from a byte on and behind
a character. -/
def strayUnderscore? (isDigit : Char → Bool) (place : Nat) (before : Char) :
    List Char → Option Nat
  | [] => none
  | c :: rest =>
    let stray := c = '_' &&
      !(isDigit before && rest.head?.all fun after => isDigit after || after = '_')
    if stray then some place
    else strayUnderscore? isDigit (place + c.utf8Size) c rest

/-- Checks the underscores of a number: they stand between digits, or between the sign and a
digit. -/
def checkUnderscores (isDigit : Char → Bool) (p : Piece) : Except Fault Unit :=
  match p.chars with
  | [] => .ok ()
  | first :: rest =>
    let place := p.start + first.utf8Size
    if first = '_' then refuse .misplacedUnderscore ⟨p.start, place⟩
    else if p.chars.getLast? = some '_' then refuse .misplacedUnderscore ⟨p.stop - 1, p.stop⟩
    else
      match strayUnderscore? isDigit place (if isSign first then '0' else first) rest with
      | some place => refuse .misplacedUnderscore ⟨place, place + 1⟩
      | none => .ok ()

/-- Refuses a zero in front of other characters of a number. -/
def checkLeadingZero (p : Piece) : Except Fault Unit :=
  if p.chars.head? = some '0' && 1 < p.chars.length then
    refuse .leadingZero ⟨p.start, p.start + 1⟩
  else .ok ()

/-- An integer with its base in front, by what follows the sign. -/
def basedInteger (base : Base) (whole unsigned : Piece) : Except Fault Value := do
  if unsigned.start ≠ whole.start then
    refuse .signBeforeBase ⟨whole.start, whole.start + 1⟩
  if (unsigned.chars.drop 1).head?.any Char.isUpper then
    refuse (.upperCaseBase base) ⟨unsigned.start, unsigned.start + 2⟩
  let digits := unsigned.drop 2
  let isDigit c := (Text.number? base.size [c]).isSome
  match digits.find? fun c => !(isDigit c || c = '_') with
  | some place => refuse (.baseDigit base) (.point place)
  | none => do
    checkUnderscores isDigit digits
    return .integer (integerValue? base.size digits.chars)

/-- An integer in base ten. Behind an underscore its characters are not checked; it has a value if
they are digits. -/
def decimalInteger (whole unsigned : Piece) : Except Fault Value := do
  checkLeadingZero unsigned
  checkUnderscores (fun c => (Text.hexDigit? c).isSome) whole
  return .integer (integerValue? 10 whole.chars)

/-- Takes digits and underscores off the front, of which one at least is a digit. -/
def digitRow (part : String) (zeros : Bool) (p : Piece) : Except Fault Piece := do
  let row := p.chars.takeWhile fun c => c.isDigit || c = '_'
  let digits := (row.filter Char.isDigit).length
  if digits = 0 then refuse (.noDigits part) (.point p.start)
  if !zeros && 1 < digits then checkLeadingZero p
  return p.drop row.length

/-- A number with a fraction, an exponent or both. -/
def float (whole unsigned : Piece) : Except Fault Value := do
  let rest ← digitRow "mantissa" false unsigned
  let rest ←
    if rest.chars.head? = some '.' then digitRow "fraction" true (rest.drop 1) else pure rest
  let rest ←
    if rest.chars.head?.any fun c => c = 'e' || c = 'E' then
      let rest := rest.drop 1
      digitRow "exponent" true (if rest.chars.head?.any isSign then rest.drop 1 else rest)
    else pure rest
  if !rest.chars.isEmpty then refuse .behindFloat rest.span
  checkUnderscores Char.isDigit whole
  return .float ((floatValue? whole.chars).map .finite)

end Numeral
end CommitPipeline.Toml
