import Mathlib.Data.List.Basic
import CommitPipeline.Json.Token

/-! Rows of decimal digits: what a reader takes off the front of a text, and the number a row
stands for. -/
namespace CommitPipeline.Text

/-- Whether a text goes on with something else than a digit, or ends. -/
def NoDigit (rest : List Char) : Prop :=
  ∀ c ∈ rest.head?, c.isDigit = false

theorem noDigit_cons {c : Char} {rest : List Char} (other : c.isDigit = false) :
    NoDigit (c :: rest) := by
  rintro d ⟨⟩
  exact other

theorem takeWhile_noDigit {rest : List Char} (stop : NoDigit rest) :
    rest.takeWhile Char.isDigit = [] := by
  cases rest with
  | nil => rfl
  | cons c rest => simp [stop c rfl]

/-- A row of digits. -/
def Row (digits : List Char) : Prop :=
  ∀ c ∈ digits, c.isDigit = true

theorem row_zeros (n : Nat) : Row (List.replicate n '0') := by
  intro c mem
  rw [List.eq_of_mem_replicate mem]
  decide

theorem row_append {front back : List Char} (hf : Row front) (hb : Row back) :
    Row (front ++ back) :=
  fun c mem => (List.mem_append.1 mem).elim (hf c) (hb c)

theorem row_toDigits (n : Nat) : Row (Nat.toDigits 10 n) :=
  fun _ => Nat.isDigit_of_mem_toDigits (by decide) (by decide)

/-- The values of the digits of a row. -/
def values (digits : List Char) : List Nat :=
  digits.map fun c => c.toNat - '0'.toNat

/-- Only the number zero starts with the digit zero. -/
theorem head?_toDigits {n : Nat} (zero : (Nat.toDigits 10 n).head? = some '0') : n = 0 := by
  induction n using Nat.strongRecOn with
  | ind n ih =>
    rw [Nat.toDigits_eq_if (by decide)] at zero
    split at zero
    · simpa using zero
    · rw [List.head?_append_of_ne_nil _ Nat.toDigits_ne_nil] at zero
      have := ih (n / 10) (by omega) zero
      omega

end CommitPipeline.Text

namespace CommitPipeline.Json
open Text (NoDigit Row values)

/-- A row of digits is read to its end. -/
theorem Token.digits_append {row rest : List Char} (all : Row row) (stop : NoDigit rest) :
    digits (row ++ rest) = (values row, rest) := by
  induction row with
  | nil =>
    cases rest with
    | nil => rfl
    | cons c rest => simp [digits, values, Text.digit?, stop c rfl]
  | cons c row ih =>
    have digit : c.isDigit = true := all c (by simp)
    have read := ih fun d mem => all d (List.mem_cons_of_mem _ mem)
    simp [digits, Text.digit?, digit, read, values]

/-- Digits are all taken in if the number they make is within the bound. -/
theorem Numeral.accumulate_of_le {bound total : Nat} {row : List Char}
    (within : Nat.ofDigitChars 10 row total ≤ bound) :
    accumulate bound total (values row) = (Nat.ofDigitChars 10 row total, []) := by
  induction row generalizing total with
  | nil => rfl
  | cons c row ih =>
    rw [Nat.ofDigitChars_cons] at within ⊢
    have grows := @Nat.ofDigitChars_eq_ofDigitChars_zero row (10 * total + (c.toNat - '0'.toNat))
    have more : total * 10 + (c.toNat - '0'.toNat) ≤ bound := by
      have := Nat.le_mul_of_pos_left (10 * total + (c.toNat - '0'.toNat))
        (Nat.pow_pos (n := row.length) (by decide : 0 < 10))
      omega
    rw [← ih within, Nat.mul_comm 10]
    simp only [values, List.map_cons, accumulate, if_pos more]

end CommitPipeline.Json
