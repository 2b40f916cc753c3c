import CommitPipeline.Text.Digit
import CommitPipeline.Toml.Outline

/-! What texts in quotes say. -/
namespace CommitPipeline.Toml

/-- The character with the code given by so many hexadecimal digits. -/
def codedChar (width place : Nat) (cs : List Char) : Except Fault Char :=
  let digits := (cs.take width).takeWhile fun c => (Text.hexDigit? c).isSome
  let code := (Text.number? 16 digits).getD 0
  if digits.length < width then refuse .tooFewDigits (.point (place + digits.length))
  else if code.isValidChar then .ok (Char.ofNat code)
  else refuse .noCharacterCode (.point place)

/-- The character of an escape behind its backslash, and how many characters the escape takes. -/
def escapedChar (place : Nat) : List Char → Except Fault (Char × Nat)
  | 'b' :: _ => .ok ('\u0008', 1)
  | 't' :: _ => .ok ('\t', 1)
  | 'n' :: _ => .ok ('\n', 1)
  | 'f' :: _ => .ok ('\u000c', 1)
  | 'r' :: _ => .ok ('\r', 1)
  | 'e' :: _ => .ok ('\u001b', 1)
  | '"' :: _ => .ok ('"', 1)
  | '\\' :: _ => .ok ('\\', 1)
  | 'x' :: rest => return (← codedChar 2 (place + 1) rest, 3)
  | 'u' :: rest => return (← codedChar 4 (place + 1) rest, 5)
  | 'U' :: rest => return (← codedChar 8 (place + 1) rest, 9)
  | _ => refuse .unknownEscape (.point place)

/-- The number of characters of the line break at the front, or zero. -/
def breakSize : List Char → Nat
  | '\n' :: _ => 1
  | '\r' :: '\n' :: _ => 2
  | _ => 0

/-- How many characters a backslash at the end of a line takes away behind it: all blanks and line
breaks, if there is a line break behind blanks at all. The first argument counts those found. -/
def joinSize (found : Nat) (broken : Bool) : List Char → Nat
  | [] => if broken then found else 0
  | c :: rest =>
    if Token.isSpace c then joinSize (found + 1) broken rest
    else if c = '\n' || (c = '\r' && rest.head? = some '\n') then joinSize (found + 1) true rest
    else if broken then found else 0

/-- Reads characters between quotes, from a byte on, behind those read before, the latest first.
The first argument bounds the number of steps. -/
def readText (quote : Quote) : Nat → List Char → Nat → List Char → Except Fault (List Char)
  | 0, found, _, _ | _ + 1, found, _, [] => .ok found.reverse
  | n + 1, found, place, c :: rest =>
    if quote.escapes && c = '\\' then
      match (if quote.lines then joinSize 0 false rest else 0) with
      | 0 => do
        let (e, size) ← escapedChar (place + 1) rest
        readText quote n (e :: found) (place + 1 + size) (rest.drop size)
      | size => readText quote n found (place + 1 + size) (rest.drop size)
    else if quote.lines && (c = '\n' || (c = '\r' && rest.head? = some '\n')) then
      readText quote n (c :: found) (place + 1) rest
    else if quote.lines && c = '\r' then refuse .loneCarriageReturn (.point (place + 1))
    else if isControl c then refuse (.textCharacter quote) ⟨place, place + 1⟩
    else readText quote n (c :: found) (place + c.utf8Size) rest

/-- The characters of a text in quotes. A line break right behind three quotes is not part of the
text. -/
def Piece.quotedText (quote : Quote) (p : Piece) : Except Fault String := do
  let marks := List.replicate quote.width quote.mark
  let inner := p.drop quote.width
  let size := inner.chars.length - quote.width
  if inner.chars.drop size ≠ marks then refuse (.unclosedText quote) p.span.after
  else
    let inner : Piece := ⟨inner.start, inner.chars.take size⟩
    let inner := inner.drop (if quote.lines then breakSize inner.chars else 0)
    return String.ofList (← readText quote inner.chars.length [] inner.start inner.chars)

end CommitPipeline.Toml
