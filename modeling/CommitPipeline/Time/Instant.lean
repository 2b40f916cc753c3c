/-! Instants of the universal clock and the delays added to them. The clock has a first and a
last instant; sums past its end stop at the end. -/
namespace CommitPipeline

/-- The first second: -262143-01-01T00:00:00. -/
def Instant.minSecs : Int := -8334601228800

/-- The last second: +262142-12-31T23:59:59. -/
def Instant.maxSecs : Int := 8210266876799

/-- Nanoseconds in a second. -/
def Instant.second : Nat := 1000000000

/-- Seconds since 1970-01-01T00:00:00 and nanoseconds within the second. Within a leap second the
seconds stay on those of `:59` and the nanoseconds run on past one second. -/
structure Instant where
  secs : Int
  nanos : Nat
  lower : Instant.minSecs ≤ secs
  upper : secs ≤ Instant.maxSecs
  fraction : nanos < Instant.second ∨ (nanos < 2 * Instant.second ∧ secs % 60 = 59)
  deriving DecidableEq

/-- A span of time, never negative. -/
structure Delay where
  secs : Nat
  nanos : Nat
  fraction : nanos < Instant.second
  deriving DecidableEq

namespace Delay

def microsecond : Delay := ⟨0, 1000, by decide⟩

def ofMillis (n : Nat) : Delay :=
  ⟨n / 1000, n % 1000 * 1000000, by unfold Instant.second; omega⟩

end Delay

namespace Instant

/-- The place of an instant in their order: by second, then by fraction. -/
def rank (t : Instant) : Int := t.secs * (2 * second) + t.nanos

instance : LT Instant := ⟨fun s t => s.rank < t.rank⟩

instance : LE Instant := ⟨fun s t => s.rank ≤ t.rank⟩

instance (s t : Instant) : Decidable (s < t) := inferInstanceAs (Decidable (s.rank < t.rank))

instance (s t : Instant) : Decidable (s ≤ t) := inferInstanceAs (Decidable (s.rank ≤ t.rank))

instance : Min Instant := ⟨fun s t => if s ≤ t then s else t⟩

theorem lt_iff {s t : Instant} : s < t ↔ s.rank < t.rank := Iff.rfl

theorem le_iff {s t : Instant} : s ≤ t ↔ s.rank ≤ t.rank := Iff.rfl

theorem nanos_lt (t : Instant) : t.nanos < 2 * second := by
  have := t.fraction
  unfold second at *
  omega

/-- Instants of one rank are one instant. -/
theorem eq_of_rank_eq {s t : Instant} (same : s.rank = t.rank) : s = t := by
  have hs := s.nanos_lt
  have ht := t.nanos_lt
  obtain ⟨ss, sn, _, _, _⟩ := s
  obtain ⟨ts, tn, _, _, _⟩ := t
  simp only [rank, second] at same hs ht
  have : ss = ts ∧ sn = tn := by omega
  obtain ⟨rfl, rfl⟩ := this
  rfl

theorem lt_irrefl (t : Instant) : ¬ t < t := by simp [lt_iff]

theorem not_lt {s t : Instant} : ¬ s < t ↔ t ≤ s := by simp only [lt_iff, le_iff]; omega

theorem not_le {s t : Instant} : ¬ s ≤ t ↔ t < s := by simp only [lt_iff, le_iff]; omega

theorem lt_of_lt_of_le {s t u : Instant} (h : s < t) (k : t ≤ u) : s < u := by
  simp only [lt_iff, le_iff] at *; omega

theorem lt_of_le_of_lt {s t u : Instant} (h : s ≤ t) (k : t < u) : s < u := by
  simp only [lt_iff, le_iff] at *; omega

theorem le_refl (t : Instant) : t ≤ t := by simp [le_iff]

theorem le_trans {s t u : Instant} (h : s ≤ t) (k : t ≤ u) : s ≤ u := by
  simp only [le_iff] at *; omega

theorem le_antisymm {s t : Instant} (h : s ≤ t) (k : t ≤ s) : s = t :=
  eq_of_rank_eq (by simp only [le_iff] at *; omega)

theorem le_total (s t : Instant) : s ≤ t ∨ t ≤ s := by simp only [le_iff]; omega

/-- The last instant of the clock. -/
def last : Instant :=
  ⟨maxSecs, 999999999, by decide, by decide, by decide⟩

/-- The first instant of the clock. -/
def first : Instant :=
  ⟨minSecs, 0, by decide, by decide, by decide⟩

/-- The instant with these parts, if the clock has it. -/
def ofParts? (secs : Int) (nanos : Nat) : Option Instant :=
  if h : minSecs ≤ secs ∧ secs ≤ maxSecs ∧
      (nanos < second ∨ (nanos < 2 * second ∧ secs % 60 = 59)) then
    some ⟨secs, nanos, h.1, h.2.1, h.2.2⟩
  else none

/-- The instant with these parts, or the last one if the clock ends before it. -/
def clamp (secs : Int) (nanos : Nat) (lower : minSecs ≤ secs) (fraction : nanos < second) :
    Instant :=
  if upper : secs ≤ maxSecs then ⟨secs, nanos, lower, upper, .inl fraction⟩ else last

/-- The instant a delay later, or the last instant if the clock ends before that. A leap second
counts as one second with the one it follows. -/
def after (t : Instant) (d : Delay) : Instant :=
  if leap : second ≤ t.nanos ∧ d.secs = 0 ∧ t.nanos + d.nanos < 2 * second then
    ⟨t.secs, t.nanos + d.nanos, t.lower, t.upper, by
      have := t.fraction
      omega⟩
  else
    let nanos := t.nanos % second + d.nanos
    clamp (t.secs + (d.secs + nanos / second : Nat)) (nanos % second)
      (Int.le_trans t.lower (Int.le_add_of_nonneg_right (Int.natCast_nonneg _)))
      (Nat.mod_lt _ (by decide))

/-- The least of some instants. -/
def earliest? : List Instant → Option Instant
  | [] => none
  | t :: rest => some (rest.foldl min t)

end Instant
end CommitPipeline
