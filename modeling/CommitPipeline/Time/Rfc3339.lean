import CommitPipeline.Text.Blank
import CommitPipeline.Time.Calendar
import CommitPipeline.Time.Instant

/-! Instants as text after RFC 3339. They are written in universal time with as few fraction
digits as possible out of none, three, six and nine; a year outside four digits has a sign.
Reading is more liberal: it takes any offset, and blanks between the parts. -/
namespace CommitPipeline.Rfc3339

/-- Seconds in a day. -/
def day : Int := 86400

/-- The decimal digits of a number, with zeros in front up to a width. -/
def padded (width n : Nat) : List Char :=
  let digits := Nat.toDigits 10 n
  List.replicate (width - digits.length) '0' ++ digits

/-- Four digits, or a sign and at least four digits. -/
def yearText (year : Int) : List Char :=
  if 0 ≤ year ∧ year ≤ 9999 then padded 4 year.toNat
  else (if year < 0 then '-' else '+') :: padded 4 year.natAbs

/-- The fraction of a second in groups of three digits, as few as show it. -/
def fractionText (nanos : Nat) : List Char :=
  if nanos = 0 then []
  else if nanos % 1000000 = 0 then '.' :: padded 3 (nanos / 1000000)
  else if nanos % 1000 = 0 then '.' :: padded 6 (nanos / 1000)
  else '.' :: padded 9 nanos

/-- The text of an instant in universal time. A leap second is the second 60. -/
def renderList (t : Instant) : List Char :=
  let date := Calendar.ofDayNumber (t.secs / day)
  let clock := (t.secs % day).toNat
  let leap := t.nanos / Instant.second
  yearText date.year ++ '-' :: padded 2 date.month ++ '-' :: padded 2 date.day
    ++ 'T' :: padded 2 (clock / 3600) ++ ':' :: padded 2 (clock / 60 % 60)
    ++ ':' :: padded 2 (clock % 60 + leap) ++ fractionText (t.nanos % Instant.second) ++ ['Z']

def render (t : Instant) : String :=
  String.ofList (renderList t)

/-- The text without the blanks in front. -/
def skipBlanks (cs : List Char) : List Char :=
  cs.dropWhile Text.isBlank

/-- The value of a row of digits. -/
def decimal (digits : List Char) : Nat :=
  digits.foldl (fun n c => n * 10 + (c.toNat - '0'.toNat)) 0

/-- A number of one to `width` digits, and what follows it. -/
def number? (width : Nat) (cs : List Char) : Option (Nat × List Char) :=
  match (cs.take width).takeWhile Char.isDigit with
  | [] => none
  | digits => some (decimal digits, cs.drop digits.length)

/-- A year: up to four digits, or a sign and any number of digits. -/
def year? (cs : List Char) : Option (Int × List Char) :=
  match skipBlanks cs with
  | '-' :: rest => (number? rest.length rest).map fun (n, rest) => (-(n : Int), rest)
  | '+' :: rest => (number? rest.length rest).map fun (n, rest) => ((n : Int), rest)
  | rest => (number? 4 rest).map fun (n, rest) => ((n : Int), rest)

/-- Up to two digits, blanks allowed in front. -/
def pair? (cs : List Char) : Option (Nat × List Char) :=
  number? 2 (skipBlanks cs)

/-- What follows a character, blanks allowed in front of it. -/
def mark? (mark : Char) (cs : List Char) : Option (List Char) :=
  match skipBlanks cs with
  | c :: rest => if c = mark then some rest else none
  | [] => none

/-- A point and digits, of which nine count. -/
def fraction? : List Char → Option (Nat × List Char)
  | '.' :: rest =>
    match rest.takeWhile Char.isDigit with
    | [] => none
    | digits =>
      let read := digits.take 9
      some (decimal read * Nat.pow 10 (9 - read.length), rest.drop digits.length)
  | rest => some (0, rest)

/-- An offset from universal time in seconds: `Z`, `UTC`, or a sign, two digits for the hours and
two for the minutes, with any colons and blanks between them. -/
def offset? (cs : List Char) : Option (Int × List Char) :=
  match cs with
  | 'Z' :: rest => some (0, rest)
  | 'z' :: rest => some (0, rest)
  | a :: b :: c :: rest =>
    if a.toLower = 'u' ∧ b.toLower = 't' ∧ c.toLower = 'c' then some (0, rest)
    else if (a = '+' ∨ a = '-' ∨ a = '\u2212') ∧ b.isDigit ∧ c.isDigit then
      match rest.dropWhile fun c => c = ':' || Text.isBlank c with
      | m :: n :: rest =>
        if m.isDigit ∧ n.isDigit ∧ m < '6' then
          let size : Int := decimal [b, c] * 3600 + decimal [m, n] * 60
          some (if a = '+' then size else -size, rest)
        else none
      | _ => none
    else none
  | _ => none

/-- The instant of a date and a time of day at an offset, if the calendar has the day and the
clock has both the local time and the universal one. The second 60 is a leap second. -/
def instant? (date : Calendar.Date) (hour minute second nanos : Nat) (offset : Int) :
    Option Instant :=
  if date.Valid ∧ hour < 24 ∧ minute < 60 ∧ second ≤ 60 ∧ offset.natAbs < day.natAbs then do
    let clock : Int := hour * 3600 + minute * 60 + min second 59
    let nanos := if second = 60 then nanos + Instant.second else nanos
    let localSecs := Calendar.dayNumber date * day + clock
    if Instant.minSecs ≤ localSecs ∧ localSecs ≤ Instant.maxSecs then
      Instant.ofParts? (localSecs - offset) nanos
    else none
  else none

/-- Reads an instant. -/
def parseList? (cs : List Char) : Option Instant := do
  let (year, rest) ← year? cs
  let rest ← mark? '-' rest
  let (month, rest) ← pair? rest
  let rest ← mark? '-' rest
  let (day, rest) ← pair? rest
  let rest ← match rest with
    | c :: rest => if c = 'T' ∨ c = 't' ∨ c = ' ' then some rest else none
    | [] => none
  let (hour, rest) ← pair? rest
  let rest ← mark? ':' rest
  let (minute, rest) ← pair? rest
  let rest ← mark? ':' rest
  let (second, rest) ← pair? rest
  let (nanos, rest) ← fraction? rest
  let (offset, rest) ← offset? (skipBlanks rest)
  if skipBlanks rest = [] then instant? ⟨year, month, day⟩ hour minute second nanos offset
  else none

def parse? (s : String) : Option Instant :=
  parseList? s.toList

end CommitPipeline.Rfc3339
