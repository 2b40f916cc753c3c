import CommitPipeline.Time.Instant

/-! Sums of instants and delays. A sum is exact as long as the clock has the instant, and the last
instant otherwise; doing it in two steps, each of which may saturate, comes to the same. -/
namespace CommitPipeline

/-- The length of a delay. -/
def Delay.nanoseconds (d : Delay) : Nat := d.secs * Instant.second + d.nanos

namespace Instant
variable {start t u : Instant} {span : Nat} {d : Delay}

/-- The nanoseconds from one instant to another. Of the leap seconds in between only the one that the
first instant lies in is counted; the clock does not know of others. -/
def elapsed (start stop : Instant) : Int :=
  (stop.secs - start.secs) * second + (stop.nanos - start.nanos) +
    if second ≤ start.nanos ∧ start.secs < stop.secs then (second : Int) else 0

/-- An instant comes so many nanoseconds after another one, and lies in no leap second but that of
the other. -/
structure IsAfter (t start : Instant) (span : Nat) : Prop where
  elapsed : start.elapsed t = span
  ordinary : t.nanos < second ∨ (second ≤ start.nanos ∧ t.secs = start.secs)

instance : Decidable (IsAfter t start span) :=
  decidable_of_iff
    (start.elapsed t = span ∧ (t.nanos < second ∨ (second ≤ start.nanos ∧ t.secs = start.secs)))
    ⟨fun ⟨elapsed, ordinary⟩ => ⟨elapsed, ordinary⟩, fun isAfter => ⟨isAfter.1, isAfter.2⟩⟩

theorem elapsed_cases (start stop : Instant) :
    (second ≤ start.nanos ∧ start.secs < stop.secs ∧ start.elapsed stop =
      (stop.secs - start.secs) * second + (stop.nanos - start.nanos) + second) ∨
    ((start.nanos < second ∨ stop.secs ≤ start.secs) ∧ start.elapsed stop =
      (stop.secs - start.secs) * second + (stop.nanos - start.nanos)) := by
  by_cases leap : second ≤ start.nanos ∧ start.secs < stop.secs
  · exact .inl ⟨leap.1, leap.2, by rw [elapsed, if_pos leap]⟩
  · refine .inr ⟨by omega, ?_⟩
    rw [elapsed, if_neg leap, Int.add_zero]

/-- There is at most one instant so many nanoseconds after another. -/
theorem IsAfter.unique (one : t.IsAfter start span) (other : u.IsAfter start span) : t = u := by
  obtain ⟨elapsed, ordinary⟩ := one
  obtain ⟨otherElapsed, otherOrdinary⟩ := other
  have bound := t.nanos_lt
  have otherBound := u.nanos_lt
  refine eq_of_rank_eq ?_
  have cases := start.elapsed_cases t
  have otherCases := start.elapsed_cases u
  unfold rank
  unfold second at *
  omega

/-- A delay leads to the instant that comes so much later; or there is none, and it leads to the
last instant, which comes sooner. -/
theorem after_cases (start : Instant) (d : Delay) :
    (start.after d).IsAfter start d.nanoseconds ∨
      (start.after d = last ∧ start.elapsed last < d.nanoseconds ∧
        ∀ t, ¬ IsAfter t start d.nanoseconds) := by
  have bound := start.nanos_lt
  have fraction := d.fraction
  rw [after]
  split
  · rename_i within
    refine .inl ⟨?_, .inr ⟨within.1, rfl⟩⟩
    simp only [elapsed, Delay.nanoseconds, Int.lt_irrefl, and_false, ↓reduceIte]
    unfold second at *
    omega
  · rename_i beyond
    simp only [clamp]
    split
    · refine .inl ⟨?_, .inl (Nat.mod_lt _ (by decide))⟩
      simp only [elapsed, Delay.nanoseconds]
      unfold second at *
      split <;> omega
    · rename_i past
      refine .inr ⟨rfl, ?_, ?_⟩
      · have cases := start.elapsed_cases last
        simp only [last] at cases ⊢
        unfold Delay.nanoseconds
        unfold second at *
        omega
      · rintro t ⟨elapsed, ordinary⟩
        have upper := t.upper
        have tBound := t.nanos_lt
        have cases := start.elapsed_cases t
        unfold Delay.nanoseconds at elapsed
        unfold second at *
        omega

/-- What comes after an instant, if the clock has it, or else the last instant. -/
theorem after_eq (sum : t.IsAfter start d.nanoseconds) : start.after d = t := by
  rcases start.after_cases d with isAfter | ⟨-, -, none⟩
  · exact isAfter.unique sum
  · exact (none t sum).elim

theorem after_eq_last (none : ∀ t, ¬ IsAfter t start d.nanoseconds) : start.after d = last := by
  rcases start.after_cases d with isAfter | ⟨same, -⟩
  · exact (none _ isAfter).elim
  · exact same

/-- The last instant is no sooner than any that follows on one that is not past it. -/
theorem elapsed_le_last (order : start ≤ last) (isAfter : t.IsAfter start span) :
    (span : Int) ≤ start.elapsed last := by
  obtain ⟨elapsed, ordinary⟩ := isAfter
  have upper := t.upper
  have bound := t.nanos_lt
  have cases := start.elapsed_cases t
  have lastCases := start.elapsed_cases last
  rw [le_iff] at order
  simp only [rank, last] at order lastCases ⊢
  unfold second at *
  omega

/-- A delay leads as far as it is long, but no further than to the last instant. -/
theorem elapsed_after (order : start ≤ last) (d : Delay) :
    start.elapsed (start.after d) = min (d.nanoseconds : Int) (start.elapsed last) := by
  rcases start.after_cases d with isAfter | ⟨same, sooner, -⟩
  · rw [isAfter.elapsed, Int.min_eq_left (elapsed_le_last order isAfter)]
  · rw [same, Int.min_eq_right (Int.le_of_lt sooner)]

/-- A delay never leads back, nor past the last instant. -/
theorem after_between (order : start ≤ last) (d : Delay) :
    start ≤ start.after d ∧ start.after d ≤ last := by
  rcases start.after_cases d with isAfter | ⟨same, -⟩
  · obtain ⟨elapsed, ordinary⟩ := isAfter
    have upper := (start.after d).upper
    have bound := (start.after d).nanos_lt
    have startBound := start.nanos_lt
    have cases := start.elapsed_cases (start.after d)
    rw [le_iff] at order ⊢
    rw [le_iff]
    simp only [rank, last] at order ⊢
    unfold second at *
    omega
  · rw [same]
    exact ⟨order, le_refl last⟩

end Instant

/-! ### Sums in two steps -/

/-- The length of the longest span of time that a library knows, which has as many milliseconds as a
signed word of 64 bits can count. -/
def longestSpan : Nat := 9223372036854775807 * 1000000

/-- Arithmetic on spans of time. A delay fails to be one only if it is longer than the longest, and
a span fails to be added to an instant only if the clock has no such instant. -/
structure SpanArithmetic (Span : Type) where
  nanoseconds : Span → Nat
  longest : Span
  ofDelay? : Delay → Option Span
  plus? : Instant → Span → Option Instant
  longest_length : nanoseconds longest = longestSpan
  ofDelay?_some : ∀ {d span}, ofDelay? d = some span → nanoseconds span = d.nanoseconds
  ofDelay?_none : ∀ {d}, ofDelay? d = none → longestSpan < d.nanoseconds
  plus?_some : ∀ {start span t}, plus? start span = some t → t.IsAfter start (nanoseconds span)
  plus?_none : ∀ {start span}, plus? start span = none →
    ∀ t, ¬ Instant.IsAfter t start (nanoseconds span)

/-- Spans that are the delays themselves. -/
def Delay.spans : SpanArithmetic Delay where
  nanoseconds := Delay.nanoseconds
  longest := ⟨9223372036854775, 807000000, by decide⟩
  ofDelay? d := if d.nanoseconds ≤ longestSpan then some d else none
  plus? start d :=
    if (start.after d).IsAfter start d.nanoseconds then some (start.after d) else none
  longest_length := by decide
  ofDelay?_some found := by
    split at found
    · cases found
      rfl
    · cases found
  ofDelay?_none missing := by
    split at missing
    · cases missing
    · rename_i longer
      exact Nat.not_le.mp longer
  plus?_some found := by
    split at found
    · rename_i isAfter
      cases found
      exact isAfter
    · cases found
  plus?_none {start d} missing t sum := by
    rw [Instant.after_eq sum, if_pos sum] at missing
    cases missing

/-- No two instants are as far apart as the longest span. -/
theorem Instant.lt_longestSpan {start t : Instant} {span : Nat} (isAfter : t.IsAfter start span) :
    span < longestSpan := by
  have elapsed := isAfter.elapsed
  have upper := t.upper
  have lower := start.lower
  have bound := t.nanos_lt
  have cases := start.elapsed_cases t
  unfold longestSpan
  unfold second minSecs maxSecs at *
  omega

namespace SpanArithmetic
variable {Span : Type} (clock : SpanArithmetic Span)

/-- A delay is made a span, if need be the longest one, and added, if need be up to the last
instant. -/
def saturatingSum (start : Instant) (d : Delay) : Instant :=
  (clock.plus? start ((clock.ofDelay? d).getD clock.longest)).getD .last

/-- The two steps saturate exactly where the whole sum does. -/
theorem saturatingSum_eq (start : Instant) (d : Delay) :
    clock.saturatingSum start d = start.after d := by
  rw [saturatingSum]
  cases spanned : clock.ofDelay? d with
  | some span =>
    have length := clock.ofDelay?_some spanned
    rw [Option.getD_some]
    cases summed : clock.plus? start span with
    | some t =>
      have sum := clock.plus?_some summed
      rw [length] at sum
      exact (Instant.after_eq sum).symm
    | none =>
      have missing := clock.plus?_none summed
      rw [length] at missing
      exact (Instant.after_eq_last missing).symm
  | none =>
    -- The delay is longer than any two instants are apart, and so is the longest span.
    have tooLong := clock.ofDelay?_none spanned
    have missing : ∀ t, ¬ Instant.IsAfter t start d.nanoseconds := fun t sum =>
      Nat.lt_asymm tooLong (Instant.lt_longestSpan sum)
    rw [Option.getD_none, Instant.after_eq_last missing]
    cases summed : clock.plus? start clock.longest with
    | some t =>
      have sum := Instant.lt_longestSpan (clock.plus?_some summed)
      rw [clock.longest_length] at sum
      exact (Nat.lt_irrefl _ sum).elim
    | none => rfl

end SpanArithmetic

/-- The smaller of an instant plus a delay and the last instant. It is the sum if the clock has that
and else the last instant; it is as far from the instant as the smaller of the two and never before
it; and it is what two saturating steps make of the delay. -/
structure Instant.IsSaturatedSum (sum start : Instant) (d : Delay) : Prop where
  reached : ∀ t, t.IsAfter start d.nanoseconds → sum = t
  saturated : (∀ t, ¬ Instant.IsAfter t start d.nanoseconds) → sum = .last
  least : start ≤ .last → start.elapsed sum = min (d.nanoseconds : Int) (start.elapsed .last)
  between : start ≤ .last → start ≤ sum ∧ sum ≤ .last
  steps : ∀ (Span : Type) (clock : SpanArithmetic Span), clock.saturatingSum start d = sum

theorem Instant.after_isSaturatedSum (start : Instant) (d : Delay) :
    (start.after d).IsSaturatedSum start d where
  reached _ := after_eq
  saturated := after_eq_last
  least order := elapsed_after order d
  between order := after_between order d
  steps _ clock := clock.saturatingSum_eq start d

end CommitPipeline
