import CommitPipeline.Text.Digit
import CommitPipeline.Time.Calendar
import CommitPipeline.Toml.Fault

/-! Moments in TOML documents: a day, a time of day, or both with or without an offset. -/
namespace CommitPipeline.Toml.Moment

/-- Holds a moment to a rule. -/
def hold (rule : Bool) (part wanted : String) : Except Problem Unit :=
  if rule then .ok () else .error (.moment part [wanted])

/-- The digits at the front, of which there is at least one, and what follows them. -/
def digits (part wanted : String) (cs : List Char) : Except Problem (List Char × List Char) := do
  let (found, rest) := cs.span Char.isDigit
  hold (!found.isEmpty) part wanted
  return (found, rest)

/-- What follows a sign at the front. -/
def sign (mark : Char) (part wanted : String) (cs : List Char) : Except Problem (List Char) := do
  hold (cs.head? = some mark) part wanted
  return cs.drop 1

/-- The number of two digits. -/
def twoDigits (part wanted : String) (cs : List Char) : Except Problem Nat := do
  hold (cs.length = 2) part ("a two-digit " ++ wanted)
  return (Text.number? 10 cs).getD 0

/-- A calendar day `YYYY-MM-DD` behind its year. -/
def day (year rest : List Char) : Except Problem (List Char × List Char) := do
  let (month, rest) ← digits "date" "month" (← sign '-' "date" "month" rest)
  let (day, rest) ← digits "date" "day" (← sign '-' "date" "`-` (MM-DD)" rest)
  hold (year.length = 4) "date" "a four-digit year (YYYY)"
  let monthNumber ← twoDigits "date" "month (MM)" month
  let dayNumber ← twoDigits "date" "day (DD)" day
  hold (1 ≤ monthNumber && monthNumber ≤ 12) "date" "month between 01 and 12"
  let days := Calendar.daysInMonth ((Text.number? 10 year).getD 0) monthNumber
  hold (1 ≤ dayNumber && dayNumber ≤ days) "date" ("day between 01 and " ++ toString days)
  return (year ++ '-' :: month ++ '-' :: day, rest)

/-- A fraction of a second with its point: nine digits at most, without zeros at the end. A
fraction of zero is not written. -/
def fractionText (digits : List Char) : List Char :=
  match ((digits.take 9).reverse.dropWhile (· = '0')).reverse with
  | [] => []
  | kept => '.' :: kept

/-- A time of day at the front, and what follows it. Seconds that are left out are zero; without
them there is no fraction. -/
def timeOfDay (cs : List Char) : Except Problem (List Char × List Char) := do
  let (hour, rest) ← digits "time" "hour" cs
  let (minute, rest) ← digits "time" "minute" (← sign ':' "time" "`:` (HH:MM)" rest)
  let (second, fraction, rest) ← match rest with
    | ':' :: rest => do
      let (second, rest) ← digits "time" "second" rest
      match rest with
      | '.' :: rest => do
        let (fraction, rest) ← digits "time" "nanosecond" rest
        pure (second, fractionText fraction, rest)
      | _ => pure (second, [], rest)
    | _ => pure (['0', '0'], [], rest)
  let hourNumber ← twoDigits "time" "hour (HH)" hour
  let minuteNumber ← twoDigits "time" "minute (MM)" minute
  let secondNumber ← twoDigits "time" "second (SS)" second
  hold (hourNumber ≤ 23) "time" "hour between 00 and 23"
  hold (minuteNumber ≤ 59) "time" "minute between 00 and 59"
  hold (secondNumber ≤ 60) "time" "second between 00 and 60"
  return (hour ++ ':' :: minute ++ ':' :: second ++ fraction, rest)

/-- The offset behind a day and a time of day, and what follows it. An offset of zero is written
with a plus. -/
def offset : List Char → Except Problem (List Char × List Char)
  | [] => return ([], [])
  | mark :: rest =>
    if mark = 'Z' ∨ mark = 'z' then return (['Z'], rest)
    else do
      hold (mark = '+' || mark = '-') "offset" "`Z`, +OFFSET, -OFFSET"
      let (hour, rest) ← digits "offset" "hour" rest
      let (minute, rest) ← digits "offset" "minute" (← sign ':' "offset" "`:` (HH:MM)" rest)
      let hours ← twoDigits "offset" "hour (HH)" hour
      let minutes ← twoDigits "offset" "minute (MM)" minute
      hold (hours ≤ 23) "offset" "hours between 00 and 23"
      hold (minutes ≤ 59) "offset" "minutes between 00 and 59"
      let mark := if hours = 0 ∧ minutes = 0 then '+' else mark
      return (mark :: hour ++ ':' :: minute, rest)

/-- Refuses what follows a moment. -/
def finish (found rest : List Char) : Except Problem String :=
  if rest.isEmpty then .ok (String.ofList found) else .error (.moment "datetime" [])

/-- The usual spelling of a moment. A day and a time of day have a `T` or a blank between them. -/
def read (cs : List Char) : Except Problem String := do
  let (first, rest) ← digits "datetime" "year or hour" cs
  match rest with
  | '-' :: _ => do
    let (day, rest) ← day first rest
    match rest with
    | [] => finish day []
    | mark :: rest => do
      hold (mark = 'T' || mark = 't' || mark = ' ') "date-time" "`T` between date and time"
      let (time, rest) ← timeOfDay rest
      let (offset, rest) ← offset rest
      finish (day ++ 'T' :: time ++ offset) rest
  | _ => do
    hold (rest.head? = some ':') "datetime" "`-` (YYYY-MM) or `:` (HH:MM)"
    let (time, rest) ← timeOfDay cs
    finish time rest

end CommitPipeline.Toml.Moment
