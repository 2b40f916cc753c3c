import CommitPipeline.Time.Calendar

/-! The calendar has every day, before 1970 and after: the date found for the number of a day is
one of the calendar, and its number is that one. A day of a cycle of four hundred years is taken
apart into centuries, groups of four years, years and days, which is where leap years show. -/
namespace CommitPipeline.Calendar

/-- The year of a cycle that a day of the cycle lies in. -/
def yearOf (d : Int) : Int :=
  (d - d / 1460 + d / 36524 - d / 146096) / 365

/-- The first day of a year of a cycle. -/
def yearStart (y : Int) : Int :=
  365 * y + y / 4 - y / 100

/-- A day of a cycle as a century, a group of four years of it, a year of that and a day of the
year. Only the last year of a group has a day 365, and that of a century only in the last one. -/
structure Split (d century group year day : Int) : Prop where
  century_four : century = 0 ∨ century = 1 ∨ century = 2 ∨ century = 3
  group_nonneg : 0 ≤ group
  group_le : group ≤ 24
  year_four : year = 0 ∨ year = 1 ∨ year = 2 ∨ year = 3
  day_nonneg : 0 ≤ day
  day_le : day ≤ 364 ∨ (day = 365 ∧ year = 3 ∧ (group ≤ 23 ∨ century = 3))
  sum : d = 36524 * century + 1461 * group + 365 * year + day

section
variable {d century group year day : Int}

theorem exists_split (low : 0 ≤ d) (high : d < cycle) :
    ∃ century group year day, Split d century group year day := by
  unfold cycle at high
  let century := min 3 (d / 36524)
  let ofCentury := d - 36524 * century
  let group := ofCentury / 1461
  let ofGroup := ofCentury - 1461 * group
  let year := min 3 (ofGroup / 365)
  refine ⟨century, group, year, ofGroup - 365 * year, ?_, ?_, ?_, ?_, ?_, ?_, ?_⟩ <;> omega

/-- The quotients of the formula count the leap days. One of them is a day early at the end of a
group of four years, which is where a year is a day longer than the formula's. -/
theorem Split.yearOf_eq (split : Split d century group year day) :
    yearOf d = 100 * century + 4 * group + year := by
  obtain ⟨hc, hg, hg', hy, hd, hd', sum⟩ := split
  by_cases last : d = 146096
  · have : century = 3 ∧ group = 24 ∧ year = 3 := by omega
    obtain ⟨rfl, rfl, rfl⟩ := this
    subst last
    decide
  · have centuries : d / 36524 = century := by omega
    have cycles : d / 146096 = 0 := by omega
    have groups : d / 1460 = 25 * century + group ∨
        (d / 1460 = 25 * century + group + 1 ∧ year = 3 ∧ 1 ≤ day) := by omega
    unfold yearOf
    rw [centuries, cycles]
    rcases groups with groups | ⟨groups, rfl, later⟩ <;> rw [groups] <;> omega

theorem Split.yearStart_eq (split : Split d century group year day) :
    yearStart (yearOf d) = 36524 * century + 1461 * group + 365 * year := by
  have := split.group_nonneg
  have := split.group_le
  rw [split.yearOf_eq, yearStart]
  rcases split.year_four with rfl | rfl | rfl | rfl <;> omega

end

/-- A day of a year of a cycle, counted from the first of March. The year after has the leap day,
which is the last day. -/
structure DayOfYear (y e : Int) : Prop where
  year_nonneg : 0 ≤ y
  year_lt : y < 400
  nonneg : 0 ≤ e
  le : e ≤ 365
  leap : e = 365 → isLeap (y + 1) = true

theorem isLeap_iff {y : Int} : isLeap y = true ↔ y % 4 = 0 ∧ (y % 100 ≠ 0 ∨ y % 400 = 0) := by
  simp [isLeap]

theorem dayOfYear {d : Int} (low : 0 ≤ d) (high : d < cycle) :
    DayOfYear (yearOf d) (d - yearStart (yearOf d)) := by
  obtain ⟨century, group, year, day, split⟩ := exists_split low high
  obtain ⟨hc, hg, hg', hy, hd, hd', sum⟩ := id split
  have rest : d - yearStart (yearOf d) = day := by rw [split.yearStart_eq]; omega
  rw [rest, split.yearOf_eq]
  refine ⟨by omega, by omega, hd, by omega, fun last => ?_⟩
  rw [isLeap_iff]
  omega

/-- The date of a day of a year that starts in March. -/
def marchDate (y e : Int) : Date :=
  let month := (5 * e + 2) / 153
  { year := if month < 10 then y else y + 1
    month := (if month < 10 then month + 3 else month - 9).toNat
    day := (e - (153 * month + 2) / 5 + 1).toNat }

theorem ofDayNumber_eq (n : Int) :
    ofDayNumber n = marchDate (yearOf ((n + epoch) % cycle) + (n + epoch) / cycle * 400)
      ((n + epoch) % cycle - yearStart (yearOf ((n + epoch) % cycle))) := rfl

theorem isLeap_add_cycle (y k : Int) : isLeap (y + k * 400) = isLeap y := by
  rw [Bool.eq_iff_iff, isLeap_iff, isLeap_iff]
  omega

section
variable {y e : Int}

/-- The place of a day in its month, by the number of the month. -/
theorem month_bounds (nonneg : 0 ≤ e) (le : e ≤ 365) :
    0 ≤ (5 * e + 2) / 153 ∧ (5 * e + 2) / 153 ≤ 11 := by
  omega

theorem marchDate_valid (nonneg : 0 ≤ e) (le : e ≤ 365) (leap : e = 365 → isLeap (y + 1) = true) :
    (marchDate y e).Valid := by
  obtain ⟨month_nonneg, month_le⟩ := month_bounds nonneg le
  generalize place : (5 * e + 2) / 153 = month at *
  simp only [Date.Valid, marchDate, place, daysInMonth]
  by_cases before_january : month < 10
  · simp only [before_january, if_true]
    have : (month + 3).toNat ≠ 2 := by omega
    simp only [this, if_false]
    split <;> omega
  · simp only [before_january, if_false]
    by_cases february : month = 11
    · subst february
      have : e ≤ 364 ∨ isLeap (y + 1) = true := by
        by_cases last : e = 365
        · exact .inr (leap last)
        · exact .inl (by omega)
      rcases this with early | leap
      · simp only [Int.reduceSub, Int.reduceToNat, if_true]
        split <;> omega
      · simp only [Int.reduceSub, Int.reduceToNat, if_true, leap]
        omega
    · have : month = 10 := by omega
      subst this
      simp only [Int.reduceSub, Int.reduceToNat, Nat.reduceEqDiff, if_false, or_self]
      omega

theorem dayNumber_marchDate (nonneg : 0 ≤ e) (le : e ≤ 365) :
    dayNumber (marchDate y e)
      = y / 400 * cycle + y % 400 * 365 + y % 400 / 4 - y % 400 / 100 + e - epoch := by
  obtain ⟨month_nonneg, month_le⟩ := month_bounds nonneg le
  generalize place : (5 * e + 2) / 153 = month at *
  have day : ((e - (153 * month + 2) / 5 + 1).toNat : Int) = e - (153 * month + 2) / 5 + 1 := by
    omega
  by_cases before_january : month < 10
  · have later : ¬ (month + 3).toNat ≤ 2 := by omega
    have back : ((month + 3).toNat : Int) - 3 = month := by omega
    simp only [dayNumber, marchDate, place, before_january, if_true, later, if_false, back, day]
    omega
  · have early : (month - 9).toNat ≤ 2 := by omega
    have back : ((month - 9).toNat : Int) + 9 = month := by omega
    simp only [dayNumber, marchDate, place, before_january, if_false, early, if_true, back, day,
      Int.add_sub_cancel]
    omega

end

theorem daysInMonth_le (year : Int) (month : Nat) : daysInMonth year month ≤ 31 := by
  unfold daysInMonth
  repeat' split
  all_goals decide

theorem ofDayNumber_valid (n : Int) : (ofDayNumber n).Valid := by
  have day := dayOfYear (Int.emod_nonneg (n + epoch) (by decide : cycle ≠ 0))
    (Int.emod_lt_of_pos (n + epoch) (by decide : 0 < cycle))
  rw [ofDayNumber_eq]
  refine marchDate_valid day.nonneg day.le fun last => ?_
  rw [Int.add_right_comm, isLeap_add_cycle, day.leap last]

/-- The number of the date found for a day is the number of that day. -/
theorem dayNumber_ofDayNumber (n : Int) : dayNumber (ofDayNumber n) = n := by
  have day := dayOfYear (Int.emod_nonneg (n + epoch) (by decide : cycle ≠ 0))
    (Int.emod_lt_of_pos (n + epoch) (by decide : 0 < cycle))
  rw [ofDayNumber_eq, dayNumber_marchDate day.nonneg day.le]
  have whole := Int.emod_add_mul_ediv (n + epoch) cycle
  generalize yearOf ((n + epoch) % cycle) = y at *
  have year_nonneg := day.year_nonneg
  have year_lt := day.year_lt
  have cycles : (y + (n + epoch) / cycle * 400) / 400 = (n + epoch) / cycle := by omega
  have ofCycle : (y + (n + epoch) / cycle * 400) % 400 = y := by omega
  rw [cycles, ofCycle, yearStart]
  rw [Int.mul_comm] at whole
  omega

end CommitPipeline.Calendar
