import Mathlib.Algebra.Group.Nat.Defs
import CommitPipeline.Proofs.CalendarDays
import CommitPipeline.Proofs.DigitRows
import CommitPipeline.Time.Rfc3339

/-! The text of an instant is read back as that instant, from the first one of the clock to the
last and within leap seconds. Each part of the text has its own lemma: reading it stops where the
part ends. -/
namespace CommitPipeline.Rfc3339
open Text (NoDigit Row)

/-! ### Rows of digits -/

theorem row_padded (width n : Nat) : Row (padded width n) :=
  Text.row_append (Text.row_zeros _) (Text.row_toDigits n)

theorem padded_length {width n : Nat} (wide : 0 < width) (fits : n < 10 ^ width) :
    (padded width n).length = width := by
  have := (Nat.length_toDigits_le_iff (by decide : 1 < 10) wide).2 fits
  simp only [padded, List.length_append, List.length_replicate]
  omega

theorem padded_ne_nil (width n : Nat) : padded width n ≠ [] := by
  simp [padded, Nat.toDigits_ne_nil]

theorem decimal_eq (digits : List Char) : decimal digits = Nat.ofDigitChars 10 digits 0 := by
  simp only [decimal, Nat.ofDigitChars, Nat.mul_comm]

@[simp] theorem decimal_padded (width n : Nat) : decimal (padded width n) = n := by
  rw [decimal_eq, padded, Nat.ofDigitChars_append, Nat.ofDigitChars_replicate_zero, Nat.mul_zero,
    Nat.ofDigitChars_ten_toDigits]

section
variable {digits rest : List Char} {width : Nat}

/-- The digits at the front are read if no more of them can follow. -/
theorem number?_append (some_digit : digits ≠ []) (all : Row digits)
    (fits : digits.length ≤ width) (stop : digits.length = width ∨ NoDigit rest) :
    number? width (digits ++ rest) = some (decimal digits, rest) := by
  have behind : (rest.take (width - digits.length)).takeWhile Char.isDigit = [] := by
    rcases stop with full | stop
    · simp [full]
    · exact Text.takeWhile_noDigit fun c first =>
        stop c (by cases rest <;> cases h : width - digits.length <;> simp_all)
  have front : ((digits ++ rest).take width).takeWhile Char.isDigit = digits := by
    rw [List.take_append, List.take_of_length_le fits, List.takeWhile_append_of_pos all, behind,
      List.append_nil]
  rw [number?, front]
  cases digits with
  | nil => contradiction
  | cons c digits => simp

end

/-! ### The parts of the text -/

theorem not_isBlank_of_isDigit {c : Char} (digit : c.isDigit = true) : Text.isBlank c = false := by
  have range : 48 ≤ c.toNat ∧ c.toNat ≤ 57 := Char.isDigit_iff_toNat.1 digit
  rw [Bool.eq_false_iff]
  intro blank
  simp [Text.isBlank, Text.Ranges.has, Text.blankRanges] at blank
  omega

theorem skipBlanks_cons {c : Char} {rest : List Char} (visible : Text.isBlank c = false) :
    skipBlanks (c :: rest) = c :: rest := by
  simp [skipBlanks, visible]

theorem skipBlanks_digits {digits rest : List Char} (some_digit : digits ≠ [])
    (all : Row digits) : skipBlanks (digits ++ rest) = digits ++ rest := by
  cases digits with
  | nil => contradiction
  | cons c digits => exact skipBlanks_cons (not_isBlank_of_isDigit (all c (by simp)))

theorem pair?_padded {n : Nat} {rest : List Char} (small : n < 100) :
    pair? (padded 2 n ++ rest) = some (n, rest) := by
  have all := row_padded 2 n
  have length := padded_length (by decide : 0 < 2) small
  rw [pair?, skipBlanks_digits (padded_ne_nil 2 n) all,
    number?_append (padded_ne_nil 2 n) all (Nat.le_of_eq length) (.inl length), decimal_padded]

theorem mark?_self {mark : Char} {rest : List Char} (visible : Text.isBlank mark = false) :
    mark? mark (mark :: rest) = some rest := by
  simp [mark?, skipBlanks_cons visible]

theorem year?_unsigned {c : Char} {rest : List Char} (digit : c.isDigit = true) :
    year? (c :: rest) = (number? 4 (c :: rest)).map fun (n, rest) => ((n : Int), rest) := by
  rw [year?, skipBlanks_cons (not_isBlank_of_isDigit digit)]
  split
  · next minus => simp_all
  · next plus => simp_all
  · rfl

/-- A year is read whatever its sign and its width. -/
theorem year?_yearText {year : Int} {rest : List Char} (stop : NoDigit rest) :
    year? (yearText year ++ rest) = some (year, rest) := by
  have all := row_padded 4
  have some_digit : ∀ n, padded 4 n ≠ [] := padded_ne_nil 4
  by_cases plain : 0 ≤ year ∧ year ≤ 9999
  · have length := padded_length (by decide : 0 < 4) (by omega : year.toNat < 10 ^ 4)
    have value : (year.toNat : Int) = year := Int.toNat_of_nonneg plain.1
    have read : number? 4 (padded 4 year.toNat ++ rest) = some (year.toNat, rest) := by
      rw [number?_append (some_digit _) (all _) (Nat.le_of_eq length) (.inl length), decimal_padded]
    rw [yearText, if_pos plain]
    cases row : padded 4 year.toNat with
    | nil => exact absurd row (some_digit _)
    | cons c digits =>
      rw [row] at read
      rw [List.cons_append] at read ⊢
      rw [year?_unsigned (all year.toNat c (by simp [row])), read]
      simp only [Option.map_some, value]
  · have signed : number? (padded 4 year.natAbs ++ rest).length (padded 4 year.natAbs ++ rest)
        = some (year.natAbs, rest) := by
      rw [number?_append (some_digit _) (all _) (by simp) (.inr stop), decimal_padded]
    by_cases negative : year < 0
    · have value : -(year.natAbs : Int) = year := by omega
      rw [yearText, if_neg plain, if_pos negative, year?, List.cons_append,
        skipBlanks_cons (by decide)]
      simp only [signed, Option.map_some, value]
    · have value : (year.natAbs : Int) = year := by omega
      rw [yearText, if_neg plain, if_neg negative, year?, List.cons_append,
        skipBlanks_cons (by decide)]
      simp only [signed, Option.map_some, value]

/-- A point and up to nine digits. -/
theorem fraction?_row {digits rest : List Char} (some_digit : digits ≠ []) (all : Row digits)
    (fits : digits.length ≤ 9) (stop : NoDigit rest) : fraction? ('.' :: digits ++ rest)
      = some (decimal digits * 10 ^ (9 - digits.length), rest) := by
  have row : (digits ++ rest).takeWhile Char.isDigit = digits := by
    rw [List.takeWhile_append_of_pos all, Text.takeWhile_noDigit stop, List.append_nil]
  have read : digits.take 9 = digits := List.take_of_length_le fits
  simp [fraction?, row, read]

theorem fraction?_padded {width n : Nat} {rest : List Char} (wide : 0 < width) (narrow : width ≤ 9)
    (fits : n < 10 ^ width) (stop : NoDigit rest) :
    fraction? ('.' :: padded width n ++ rest) = some (n * 10 ^ (9 - width), rest) := by
  have length := padded_length wide fits
  rw [fraction?_row (padded_ne_nil _ _) (row_padded _ _) (by omega) stop, decimal_padded, length]

/-- Nanoseconds are written with no digits, or with as many groups of three as do not leave any
of them out. -/
theorem fractionText_cases {nanos : Nat} (small : nanos < 10 ^ 9) :
    (nanos = 0 ∧ fractionText nanos = []) ∨ ∃ width n, fractionText nanos = '.' :: padded width n ∧
      n < 10 ^ width ∧ n * 10 ^ (9 - width) = nanos ∧ nanos ≠ 0 ∧
      (width = 3 ∨ (width = 6 ∧ nanos % 1000000 ≠ 0) ∨ (width = 9 ∧ nanos % 1000 ≠ 0)) := by
  unfold fractionText
  by_cases none : nanos = 0
  · exact .inl ⟨none, if_pos none⟩
  refine .inr ?_
  rw [if_neg none]
  by_cases millis : nanos % 1000000 = 0
  · exact ⟨3, nanos / 1000000, if_pos millis, by omega, by omega, none, .inl rfl⟩
  rw [if_neg millis]
  by_cases micros : nanos % 1000 = 0
  · exact ⟨6, nanos / 1000, if_pos micros, by omega, by omega, none, .inr (.inl ⟨rfl, millis⟩)⟩
  · exact ⟨9, nanos, if_neg micros, small, by omega, none, .inr (.inr ⟨rfl, micros⟩)⟩

theorem fraction?_fractionText {nanos : Nat} {rest : List Char} (small : nanos < 10 ^ 9)
    (stop : NoDigit rest) (other : '.' ∉ rest.head?) :
    fraction? (fractionText nanos ++ rest) = some (nanos, rest) := by
  rcases fractionText_cases small with ⟨rfl, text⟩ | ⟨width, n, text, fits, whole, -, widths⟩
  · rw [text, List.nil_append, fraction?]
    intro digits point
    simp [point] at other
  · rw [text, fraction?_padded (by omega) (by omega) fits stop, whole]

/-! ### The fewest digits -/

/-- A fraction of a second without digits or with three, six or nine of them. -/
def FractionRow (row : List Char) : Prop :=
  row = [] ∨ ∃ digits, row = '.' :: digits ∧ Row digits ∧ digits.length ∈ [3, 6, 9]

/-- The shortest fraction of that kind that is read as so many nanoseconds. -/
structure Fewest (nanos : Nat) (row : List Char) : Prop where
  kind : FractionRow row
  read : fraction? (row ++ ['Z']) = some (nanos, ['Z'])
  least : ∀ other, FractionRow other → fraction? (other ++ ['Z']) = some (nanos, ['Z']) →
    row.length ≤ other.length

/-- Fewer digits than nine leave zeros at the end. -/
theorem FractionRow.cases {row : List Char} {nanos : Nat} (kind : FractionRow row)
    (read : fraction? (row ++ ['Z']) = some (nanos, ['Z'])) :
    (row.length = 0 ∧ nanos = 0) ∨ (row.length = 4 ∧ nanos % 1000000 = 0) ∨
      (row.length = 7 ∧ nanos % 1000 = 0) ∨ row.length = 10 := by
  rcases kind with rfl | ⟨digits, rfl, all, length⟩
  · cases read
    exact .inl ⟨rfl, rfl⟩
  · have some_digit : digits ≠ [] := by rintro rfl; simp at length
    simp only [List.mem_cons, List.not_mem_nil, or_false] at length
    rw [fraction?_row some_digit all (by omega) (Text.noDigit_cons (by decide)), Option.some.injEq,
      Prod.mk.injEq] at read
    obtain ⟨value, -⟩ := read
    rw [List.length_cons]
    rcases length with length | length | length <;> rw [length] at value <;> omega

theorem fractionText_kind {nanos : Nat} (small : nanos < 10 ^ 9) :
    FractionRow (fractionText nanos) := by
  rcases fractionText_cases small with ⟨-, text⟩ | ⟨width, n, text, fits, -, -, widths⟩
  · exact .inl text
  · refine .inr ⟨_, text, row_padded width n, ?_⟩
    rw [padded_length (by omega) fits]
    rcases widths with rfl | ⟨rfl, -⟩ | ⟨rfl, -⟩ <;> decide

/-- No fraction with fewer digits shows the same nanoseconds. -/
theorem fewest_fractionText {nanos : Nat} (small : nanos < 10 ^ 9) :
    Fewest nanos (fractionText nanos) where
  kind := fractionText_kind small
  read := fraction?_fractionText small (Text.noDigit_cons (by decide)) (by simp)
  least other kind read := by
    have others := kind.cases read
    rcases fractionText_cases small with ⟨-, text⟩ | ⟨width, n, text, fits, -, some, widths⟩
    · rw [text]
      exact Nat.zero_le _
    · rw [text, List.length_cons, padded_length (by omega) fits]
      omega

/-! ### The whole text -/

section
variable {date : Calendar.Date} {hour minute second nanos : Nat}

/-- A date and a time of day in universal time that the calendar and the clock have. -/
theorem instant?_utc {t : Instant} (valid : date.Valid) (hours : hour < 24) (minutes : minute < 60)
    (seconds : second ≤ 60)
    (secs : Calendar.dayNumber date * day + (hour * 3600 + minute * 60 + min second 59) = t.secs)
    (fraction : (if second = 60 then nanos + Instant.second else nanos) = t.nanos) :
    instant? date hour minute second nanos 0 = some t := by
  have given : date.Valid ∧ hour < 24 ∧ minute < 60 ∧ second ≤ 60
      ∧ (0 : Int).natAbs < day.natAbs := ⟨valid, hours, minutes, seconds, by decide⟩
  have range : Instant.minSecs ≤ t.secs ∧ t.secs ≤ Instant.maxSecs := ⟨t.lower, t.upper⟩
  have parts : Instant.ofParts? t.secs t.nanos = some t := by
    rw [Instant.ofParts?, dif_pos ⟨t.lower, t.upper, t.fraction⟩]
  simp only [instant?, if_pos given, secs, fraction, if_pos range, Int.sub_zero, parts]

end

theorem bind_of_some {α β : Type} {o : Option α} {a : α} {f : α → Option β} (read : o = some a) :
    (o >>= f) = f a := by
  rw [read]
  rfl

/-- The text of a date and a time of day in universal time is read part by part. -/
theorem parseList?_parts (year : Int) {month day hour minute second nanos : Nat}
    (months : month < 100) (days : day < 100) (hours : hour < 100) (minutes : minute < 100)
    (seconds : second < 100) (fraction : nanos < 10 ^ 9) :
    parseList? (yearText year ++ '-' :: padded 2 month ++ '-' :: padded 2 day
      ++ 'T' :: padded 2 hour ++ ':' :: padded 2 minute ++ ':' :: padded 2 second
      ++ fractionText nanos ++ ['Z']) = instant? ⟨year, month, day⟩ hour minute second nanos 0 := by
  have hyphen : Text.isBlank '-' = false := by decide
  have colon : Text.isBlank ':' = false := by decide
  have zulu : skipBlanks ['Z'] = ['Z'] := skipBlanks_cons (by decide)
  simp only [List.append_assoc, List.cons_append]
  refine (bind_of_some (year?_yearText (Text.noDigit_cons (by decide)))).trans ?_
  refine (bind_of_some (mark?_self hyphen)).trans ?_
  refine (bind_of_some (pair?_padded months)).trans ?_
  refine (bind_of_some (mark?_self hyphen)).trans ?_
  refine (bind_of_some (pair?_padded days)).trans ?_
  refine (if_pos (Or.inl rfl)).trans ?_
  refine (bind_of_some (pair?_padded hours)).trans ?_
  refine (bind_of_some (mark?_self colon)).trans ?_
  refine (bind_of_some (pair?_padded minutes)).trans ?_
  refine (bind_of_some (mark?_self colon)).trans ?_
  refine (bind_of_some (pair?_padded seconds)).trans ?_
  refine (bind_of_some (fraction?_fractionText fraction (Text.noDigit_cons (by decide))
    (by simp))).trans ?_
  refine (bind_of_some ((congrArg offset? zulu).trans rfl)).trans ?_
  exact if_pos rfl

/-- The leap second is the one after the last second of a minute. -/
theorem leap_cases (t : Instant) : t.nanos / Instant.second = 0 ∨
    (t.nanos / Instant.second = 1 ∧ (t.secs % day).toNat % 60 = 59) := by
  have fraction := t.fraction
  have clock_nonneg : 0 ≤ t.secs % day := Int.emod_nonneg _ (by decide)
  have of_minute : t.secs % day % 60 = t.secs % 60 := Int.emod_emod_of_dvd _ (by decide)
  unfold Instant.second at *
  omega

/-- The seconds of a day as hours, minutes and seconds, also when a leap second is at the end. -/
theorem clock_parts {clock leap : Nat} (in_day : clock < 86400)
    (leaps : leap = 0 ∨ (leap = 1 ∧ clock % 60 = 59)) :
    clock / 3600 < 24 ∧ clock / 60 % 60 < 60 ∧ clock % 60 + leap ≤ 60 ∧
      (clock % 60 + leap = 60 ↔ leap = 1) ∧
      clock / 3600 * 3600 + clock / 60 % 60 * 60 + min (clock % 60 + leap) 59 = clock := by
  omega

theorem parseList?_renderList (t : Instant) : parseList? (renderList t) = some t := by
  have small : t.nanos % Instant.second < 10 ^ 9 := Nat.mod_lt _ (by decide)
  have valid := Calendar.ofDayNumber_valid (t.secs / day)
  have months : (Calendar.ofDayNumber (t.secs / day)).month ≤ 12 := valid.2.1
  have days := Nat.le_trans valid.2.2.2 (Calendar.daysInMonth_le ..)
  have clock_nonneg : 0 ≤ t.secs % day := Int.emod_nonneg _ (by decide)
  have clock_lt : t.secs % day < 86400 := Int.emod_lt_of_pos _ (by decide)
  have leaps := leap_cases t
  obtain ⟨hours, minutes, seconds, is_leap, clock⟩ :=
    clock_parts (by omega : (t.secs % day).toNat < 86400) leaps
  unfold renderList
  rw [parseList?_parts _ (by omega) (by omega) (by omega) (by omega) (by omega) small]
  refine instant?_utc valid hours minutes seconds ?_ ?_
  · have of_day : t.secs / day * day + t.secs % day = t.secs := Int.ediv_mul_add_emod t.secs day
    rw [Calendar.dayNumber_ofDayNumber]
    omega
  · have whole := Nat.mod_add_div t.nanos Instant.second
    rcases leaps with none | ⟨one, -⟩
    · rw [if_neg (by omega)]
      rwa [none, Nat.mul_zero, Nat.add_zero] at whole
    · rw [if_pos (is_leap.2 one)]
      rwa [one, Nat.mul_one] at whole

theorem no_point_padded (width n : Nat) : '.' ∉ padded width n := fun mem => by
  have digit := row_padded width n _ mem
  simp at digit

theorem no_point_yearText (year : Int) : '.' ∉ yearText year := by
  unfold yearText
  split
  · exact no_point_padded _ _
  · split <;> simp [no_point_padded]

/-- The text of an instant is a date and a time of day in whole seconds, the fraction, and the
mark of universal time. -/
theorem exists_moment (t : Instant) : ∃ moment,
    renderList t = moment ++ fractionText (t.nanos % Instant.second) ++ ['Z'] ∧ '.' ∉ moment := by
  refine ⟨_, rfl, ?_⟩
  simp [no_point_yearText, no_point_padded]

/-- What is written for an instant is read as that instant. -/
theorem parse?_render (t : Instant) : parse? (render t) = some t := by
  rw [parse?, render, String.toList_ofList, parseList?_renderList]

end CommitPipeline.Rfc3339
