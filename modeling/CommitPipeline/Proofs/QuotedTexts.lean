import CommitPipeline.Json.Render
import CommitPipeline.Json.Token

/-! A text between quotes is read back as that text, whatever characters it has. Every character
is one piece: control characters without a short escape are units, all others stand for
themselves. -/
namespace CommitPipeline.Json

/-- Whether a character is written as a unit. -/
def IsUnit (c : Char) : Prop :=
  c.toNat < 0x20 ∧ c ≠ '\n' ∧ c ≠ '\r' ∧ c ≠ '\t' ∧ c ≠ '\u0008' ∧ c ≠ '\u000c'

instance (c : Char) : Decidable (IsUnit c) := by unfold IsUnit; infer_instance

/-- The piece that a character is read as. -/
def pieceOf (c : Char) : Token.Piece :=
  if IsUnit c then .unit c.toNat else .char c

namespace Token

theorem hexDigit?_digitChar {d : Nat} (small : d < 16) :
    Text.hexDigit? (Nat.digitChar d) = some d := by
  have all : ∀ d : Fin 16, Text.hexDigit? (Nat.digitChar d) = some d.val := by decide
  exact all ⟨d, small⟩

theorem pieces?_plain {c : Char} {cs : List Char} (quote : c ≠ '"') (escape : c ≠ '\\')
    (visible : ¬ c.toNat < 0x20) : pieces? (c :: cs)
      = (pieces? cs).map fun (found, rest) => (.char c :: found, rest) := by
  rw [pieces?, if_neg (by simp [visible, escape])]
  · cases pieces? cs <;> rfl
  · exact quote
  · exact fun _ _ _ _ _ same _ => escape same
  · exact fun _ _ same _ => escape same

theorem pieces?_escaped {e c : Char} {cs : List Char} (short : escaped? e = some c) :
    pieces? ('\\' :: e :: cs)
      = (pieces? cs).map fun (found, rest) => (.char c :: found, rest) := by
  have other : e ≠ 'u' := by rintro rfl; simp [escaped?] at short
  rw [pieces?, short]
  · cases pieces? cs <;> rfl
  · exact fun _ _ _ _ _ same _ => other same

theorem pieces?_unit {n : Nat} {cs : List Char} (low : n < 0x20) :
    pieces? (['\\', 'u', '0', '0', Nat.digitChar (n / 16), Nat.digitChar (n % 16)] ++ cs)
      = (pieces? cs).map fun (found, rest) => (.unit n :: found, rest) := by
  have zero : Text.hexDigit? '0' = some 0 := by decide
  have high := hexDigit?_digitChar (by omega : n / 16 < 16)
  have low := hexDigit?_digitChar (by omega : n % 16 < 16)
  have value : n / 16 * 16 + n % 16 = n := by omega
  simp only [List.cons_append, List.nil_append, pieces?, zero, high, low, Option.bind_eq_bind,
    Option.bind_some, Nat.zero_mul, Nat.zero_add, value]
  cases pieces? cs <;> rfl

/-- A character is written with a short escape, as a unit, or as itself. -/
theorem writtenChar_cases (c : Char) :
    (¬ IsUnit c ∧ ∃ e, writtenChar c = ['\\', e] ∧ escaped? e = some c) ∨
    (IsUnit c ∧ writtenChar c =
      ['\\', 'u', '0', '0', Nat.digitChar (c.toNat / 16), Nat.digitChar (c.toNat % 16)]) ∨
    (¬ c.toNat < 0x20 ∧ c ≠ '"' ∧ c ≠ '\\' ∧ writtenChar c = [c]) := by
  by_cases short : c ∈ ['"', '\\', '\n', '\r', '\t', '\u0008', '\u000c']
  · simp only [List.mem_cons, List.not_mem_nil, or_false] at short
    rcases short with rfl | rfl | rfl | rfl | rfl | rfl | rfl <;>
      exact .inl ⟨by decide, _, rfl, rfl⟩
  · simp only [List.mem_cons, not_or] at short
    obtain ⟨quote, escape, line, back, tab, backspace, feed, -⟩ := short
    have rest : writtenChar c = if c.toNat < 0x20 then
        ['\\', 'u', '0', '0', Nat.digitChar (c.toNat / 16), Nat.digitChar (c.toNat % 16)]
        else [c] := by
      simp [writtenChar, quote, escape, line, back, tab, backspace, feed]
    by_cases low : c.toNat < 0x20
    · exact .inr (.inl ⟨⟨low, line, back, tab, backspace, feed⟩, by rw [rest, if_pos low]⟩)
    · exact .inr (.inr ⟨low, quote, escape, by rw [rest, if_neg low]⟩)

theorem pieces?_writtenChar (c : Char) (cs : List Char) : pieces? (writtenChar c ++ cs)
    = (pieces? cs).map fun (found, rest) => (pieceOf c :: found, rest) := by
  rcases writtenChar_cases c with
    ⟨other, e, text, short⟩ | ⟨isUnit, text⟩ | ⟨visible, quote, escape, text⟩
  · rw [text, pieceOf, if_neg other]
    exact pieces?_escaped short
  · rw [text, pieces?_unit isUnit.1, pieceOf, if_pos isUnit]
  · rw [text, pieceOf, if_neg fun isUnit => visible isUnit.1]
    exact pieces?_plain quote escape visible

theorem join?_pieceOf (c : Char) (found : List Piece) :
    join? (pieceOf c :: found) = (join? found).map (c :: ·) := by
  unfold pieceOf
  split
  · next isUnit =>
    have small := isUnit.1
    have high : isHighSurrogate c.toNat = false := by unfold isHighSurrogate; simp; omega
    have low : isLowSurrogate c.toNat = false := by unfold isLowSurrogate; simp; omega
    rw [join?.eq_def (.unit c.toNat :: found)]
    simp [high, low, Char.ofNat_toNat]
  · rfl

theorem pieces?_written (cs rest : List Char) :
    pieces? (cs.flatMap writtenChar ++ '"' :: rest) = some (cs.map pieceOf, rest) := by
  induction cs with
  | nil => rfl
  | cons c cs ih =>
    rw [List.flatMap_cons, List.append_assoc, pieces?_writtenChar, ih]
    rfl

theorem join?_pieces (cs : List Char) : join? (cs.map pieceOf) = some cs := by
  induction cs with
  | nil => rfl
  | cons c cs ih => rw [List.map_cons, join?_pieceOf, ih]; rfl

/-- A text between quotes is one token with that text. -/
theorem next?_renderText (s : String) (rest : List Char) :
    next? (renderText s ++ rest) = some (.text (some s), rest) := by
  have read := pieces?_written s.toList rest
  simp [renderText, next?, read, join?_pieces]

end Token

end CommitPipeline.Json
