/-! A span of time as text: two places in the largest unit that it fills. -/
namespace CommitPipeline

/-- The quotient, rounded to the nearest number; a half goes to the even one. -/
def roundHalfEven (n d : Nat) : Nat :=
  let below := n / d
  let rest := 2 * (n % d)
  if rest < d then below
  else if d < rest then below + 1
  else below + below % 2

/-- The unit in which a span is written, with its length in nanoseconds. -/
def elapsedUnit (nanos : Nat) : Nat × String :=
  if 1000000000 ≤ nanos then (1000000000, "s")
  else if 1000000 ≤ nanos then (1000000, "ms")
  else if 1000 ≤ nanos then (1000, "µs")
  else (1, "ns")

/-- The text of a span in nanoseconds. -/
def elapsedText (nanos : Nat) : String :=
  let (length, name) := elapsedUnit nanos
  let hundredths := roundHalfEven (nanos * 100) length
  toString (hundredths / 100) ++ "." ++ toString (hundredths / 10 % 10)
    ++ toString (hundredths % 10) ++ name

/-- Twice the error of a rounded quotient is at most the divisor. -/
theorem roundHalfEven_near (n d : Nat) (pos : 0 < d) :
    2 * n ≤ 2 * (roundHalfEven n d * d) + d ∧ 2 * (roundHalfEven n d * d) ≤ 2 * n + d := by
  have whole := Nat.div_add_mod n d
  have small := Nat.mod_lt n pos
  rw [Nat.mul_comm] at whole
  have more (k : Nat) : (n / d + k) * d = n / d * d + k * d := Nat.add_mul ..
  unfold roundHalfEven
  simp only
  split
  · omega
  · split
    · have := more 1
      omega
    · rcases Nat.mod_two_eq_zero_or_one (n / d) with even | odd
      · have := more 0
        rw [even]
        omega
      · have := more 1
        rw [odd]
        omega

end CommitPipeline
