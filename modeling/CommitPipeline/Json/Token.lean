import CommitPipeline.Json.Numeral
import CommitPipeline.Text.Digit

/-! The tokens of a JSON text. A numeral beyond the doubles and a text with half of a surrogate
pair are tokens too, without a value: whether that matters is for the reader to say. -/
namespace CommitPipeline.Json

open Text (digit? hexDigit?)

inductive Token where
  | openList
  | closeList
  | openObject
  | closeObject
  | comma
  | colon
  | null
  | bool (b : Bool)
  | number (value : Option Number)
  | text (value : Option String)
  deriving DecidableEq

namespace Token

/-- The blanks between tokens. -/
def isSpace (c : Char) : Bool :=
  c = ' ' || c = '\n' || c = '\t' || c = '\r'

/-- The digits at the front and what follows them. -/
def digits : List Char → List Nat × List Char
  | [] => ([], [])
  | c :: rest =>
    match digit? c with
    | some d => let (more, after) := digits rest; (d :: more, after)
    | none => ([], c :: rest)

/-- A part of a text between quotes: a character, or a 16-bit unit written as an escape. -/
inductive Piece where
  | char (c : Char)
  | unit (n : Nat)
  deriving DecidableEq

/-- The character of an escape other than that of a unit. -/
def escaped? : Char → Option Char
  | '"' => some '"'
  | '\\' => some '\\'
  | '/' => some '/'
  | 'b' => some '\u0008'
  | 'f' => some '\u000c'
  | 'n' => some '\n'
  | 'r' => some '\r'
  | 't' => some '\t'
  | _ => none

/-- The pieces up to the closing quote and what follows it. Control characters must be escaped. -/
def pieces? : List Char → Option (List Piece × List Char)
  | [] => none
  | '"' :: rest => some ([], rest)
  | '\\' :: 'u' :: a :: b :: c :: d :: rest => do
    let unit := (((← hexDigit? a) * 16 + (← hexDigit? b)) * 16 + (← hexDigit? c)) * 16
      + (← hexDigit? d)
    let (more, after) ← pieces? rest
    some (.unit unit :: more, after)
  | '\\' :: e :: rest => do
    let c ← escaped? e
    let (more, after) ← pieces? rest
    some (.char c :: more, after)
  | c :: rest =>
    if c.toNat < 0x20 || c = '\\' then none
    else do
      let (more, after) ← pieces? rest
      some (.char c :: more, after)

def isHighSurrogate (n : Nat) : Bool := 0xD800 ≤ n && n < 0xDC00

def isLowSurrogate (n : Nat) : Bool := 0xDC00 ≤ n && n < 0xE000

/-- The characters of the pieces. A high surrogate must be followed by a low one, and a low one
must follow a high one. -/
def join? : List Piece → Option (List Char)
  | [] => some []
  | .char c :: rest => (join? rest).map (c :: ·)
  | .unit n :: rest =>
    if isHighSurrogate n then
      match rest with
      | .unit low :: rest =>
        if isLowSurrogate low then
          (join? rest).map (Char.ofNat (0x10000 + (n - 0xD800) * 0x400 + (low - 0xDC00)) :: ·)
        else none
      | _ => none
    else if isLowSurrogate n then none
    else (join? rest).map (Char.ofNat n :: ·)

/-- The exponent part of a numeral, if there is one: it needs a digit. -/
def exponent? : List Char → Option (Option (Bool × List Nat) × List Char)
  | c :: rest =>
    if c = 'e' || c = 'E' then
      let (down, rest) := match rest with
        | '+' :: rest => (false, rest)
        | '-' :: rest => (true, rest)
        | _ => (false, rest)
      match digits rest with
      | ([], _) => none
      | (size, after) => some (some (down, size), after)
    else some (none, c :: rest)
  | [] => some (none, [])

/-- A numeral without its sign. A zero stands alone before the point, and a point needs a digit
on either side. -/
def numeral? (negative : Bool) (cs : List Char) : Option (Numeral × List Char) := do
  let (whole, rest) := digits cs
  if whole = [] ∨ (whole.head? = some 0 ∧ 1 < whole.length) then none
  else
    let (fraction, rest) ← match rest with
      | '.' :: rest => match digits rest with
        | ([], _) => none
        | found => some found
      | _ => some ([], rest)
    let (exponent, rest) ← exponent? rest
    some (⟨negative, whole, fraction, exponent⟩, rest)

/-- The token at the front of a text that does not start with a blank, and what follows it. -/
def next? : List Char → Option (Token × List Char)
  | '[' :: rest => some (.openList, rest)
  | ']' :: rest => some (.closeList, rest)
  | '\x7b' :: rest => some (.openObject, rest)
  | '\x7d' :: rest => some (.closeObject, rest)
  | ',' :: rest => some (.comma, rest)
  | ':' :: rest => some (.colon, rest)
  | 'n' :: 'u' :: 'l' :: 'l' :: rest => some (.null, rest)
  | 't' :: 'r' :: 'u' :: 'e' :: rest => some (.bool true, rest)
  | 'f' :: 'a' :: 'l' :: 's' :: 'e' :: rest => some (.bool false, rest)
  | '"' :: rest => (pieces? rest).map fun (found, rest) =>
    (.text ((join? found).map String.ofList), rest)
  | '-' :: rest => (numeral? true rest).map fun (n, rest) => (.number n.value?, rest)
  | rest => (numeral? false rest).map fun (n, rest) => (.number n.value?, rest)

/-- The tokens of a text, at most as many as the first argument. -/
def scan? : Nat → List Char → Option (List Token)
  | _, [] => some []
  | 0, _ :: _ => none
  | n + 1, c :: rest =>
    if isSpace c then scan? n rest
    else do
      let (token, after) ← next? (c :: rest)
      let more ← scan? n after
      some (token :: more)

/-- All tokens of a text. Each takes a character at least, so the length bounds their number. -/
def ofText? (s : String) : Option (List Token) :=
  let cs := s.toList
  scan? cs.length cs

end Token
end CommitPipeline.Json
