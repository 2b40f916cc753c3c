import Mathlib.Algebra.Group.Int.Defs
import Mathlib.Algebra.Group.Nat.Defs
import CommitPipeline.Json.Render
import CommitPipeline.Proofs.DigitRows

/-! The text of a number is one token. Integers and doubles are written in one shape, a row of
digits with a fraction and an exponent where there is one, and this shape is read to its end. An
integer of 64 bits is read as itself; of a double only what its text denotes is read. -/
namespace CommitPipeline.Json
open Text (NoDigit Row values)

/-- The text of a numeral without its sign in its parts. The first row does not start with a zero
unless it is one, and an exponent has a digit. -/
structure NumeralText where
  whole : List Char
  fraction : List Char
  exponent : Option (Bool × List Char)
  whole_row : Row whole
  whole_ne_nil : whole ≠ []
  whole_zero : whole.head? = some '0' → whole.length = 1
  fraction_row : Row fraction
  exponent_row : ∀ e ∈ exponent, Row e.2
  exponent_ne_nil : ∀ e ∈ exponent, e.2 ≠ []

namespace NumeralText

def fractionText : List Char → List Char
  | [] => []
  | digits => '.' :: digits

def exponentText : Option (Bool × List Char) → List Char
  | none => []
  | some (down, digits) => 'e' :: (if down then '-' else '+') :: digits

def toChars (t : NumeralText) : List Char :=
  t.whole ++ fractionText t.fraction ++ exponentText t.exponent

theorem exists_cons (t : NumeralText) : ∃ c cs, t.toChars = c :: cs ∧ c.isDigit = true := by
  cases whole : t.whole with
  | nil => exact absurd whole t.whole_ne_nil
  | cons c row =>
    refine ⟨c, row ++ fractionText t.fraction ++ exponentText t.exponent, ?_,
      t.whole_row c (by simp [whole])⟩
    simp [toChars, whole]

/-- The numeral that the text stands for. -/
def numeral (negative : Bool) (t : NumeralText) : Numeral :=
  ⟨negative, values t.whole, values t.fraction, t.exponent.map fun e => (e.1, values e.2)⟩

end NumeralText

/-- Whether a numeral cannot go on with a text. -/
def Ends (rest : List Char) : Prop :=
  ∀ c ∈ rest.head?, c.isDigit = false ∧ c ≠ '.' ∧ c ≠ 'e' ∧ c ≠ 'E'

theorem ends_nil : Ends [] := by
  rintro c ⟨⟩

theorem ends_cons {c : Char} {rest : List Char} (digit : c.isDigit = false) (point : c ≠ '.')
    (small : c ≠ 'e') (large : c ≠ 'E') : Ends (c :: rest) := by
  rintro d ⟨⟩
  exact ⟨digit, point, small, large⟩

theorem Ends.noDigit {rest : List Char} (ends : Ends rest) : NoDigit rest :=
  fun c first => (ends c first).1

namespace Token

theorem exponent?_of_ends {rest : List Char} (ends : Ends rest) :
    exponent? rest = some (none, rest) := by
  cases rest with
  | nil => rfl
  | cons c rest =>
    have := ends c rfl
    simp [exponent?, this]

/-- An exponent with its sign is read to its end. -/
theorem exponent?_row {down : Bool} {row rest : List Char} (all : Row row) (some_digit : row ≠ [])
    (stop : NoDigit rest) : exponent? ('e' :: (if down then '-' else '+') :: row ++ rest)
      = some (some (down, values row), rest) := by
  have read := digits_append all stop
  cases row with
  | nil => contradiction
  | cons c row =>
    rw [List.cons_append] at read
    cases down <;> simp [exponent?, read, values]

theorem exponent?_exponentText {exponent : Option (Bool × List Char)} {rest : List Char}
    (all : ∀ e ∈ exponent, Row e.2) (some_digit : ∀ e ∈ exponent, e.2 ≠ []) (ends : Ends rest) :
    exponent? (NumeralText.exponentText exponent ++ rest)
      = some (exponent.map fun e => (e.1, values e.2), rest) := by
  cases exponent with
  | none => exact exponent?_of_ends ends
  | some e => exact exponent?_row (all e rfl) (some_digit e rfl) ends.noDigit

section
variable {t : NumeralText} {rest : List Char}

theorem noDigit_exponentText (exponent : Option (Bool × List Char)) (ends : Ends rest) :
    NoDigit (NumeralText.exponentText exponent ++ rest) := by
  cases exponent with
  | none => exact ends.noDigit
  | some e => exact Text.noDigit_cons (by decide)

theorem no_point (exponent : Option (Bool × List Char)) (ends : Ends rest) :
    '.' ∉ (NumeralText.exponentText exponent ++ rest).head? := by
  cases exponent with
  | none => exact fun point => (ends '.' point).2.1 rfl
  | some e => simp [NumeralText.exponentText]

theorem noDigit_fractionText (fraction : List Char) {after : List Char} (stop : NoDigit after) :
    NoDigit (NumeralText.fractionText fraction ++ after) := by
  cases fraction with
  | nil => exact stop
  | cons c row => exact Text.noDigit_cons (by decide)

theorem values_head? {row : List Char} (all : Row row) (zero : (values row).head? = some 0) :
    row.head? = some '0' := by
  cases row with
  | nil => simp [values] at zero
  | cons c row =>
    have range : 48 ≤ c.toNat ∧ c.toNat ≤ 57 := Char.isDigit_iff_toNat.1 (all c (by simp))
    have value : c.toNat - 48 = 0 := by simpa [values] using zero
    have same : c.toNat = '0'.toNat := by
      have : '0'.toNat = 48 := rfl
      omega
    rw [List.head?_cons, Char.toNat_inj.1 same]

/-- The first row of a numeral is not refused. -/
theorem not_refused (t : NumeralText) : ¬ (values t.whole = [] ∨
    ((values t.whole).head? = some 0 ∧ 1 < (values t.whole).length)) := by
  rintro (none | ⟨zero, long⟩)
  · exact t.whole_ne_nil (by simpa [values] using none)
  · have one := t.whole_zero (values_head? t.whole_row zero)
    rw [values, List.length_map, one] at long
    exact absurd long (Nat.lt_irrefl 1)

/-- The text of a numeral is read to its end. -/
theorem numeral?_toChars (negative : Bool) (ends : Ends rest) :
    numeral? negative (t.toChars ++ rest) = some (t.numeral negative, rest) := by
  have stop := noDigit_exponentText t.exponent ends
  have whole := digits_append t.whole_row (noDigit_fractionText t.fraction stop)
  have exponent := exponent?_exponentText t.exponent_row t.exponent_ne_nil ends
  simp only [NumeralText.toChars, List.append_assoc, numeral?, whole, if_neg (not_refused t)]
  cases fraction : t.fraction with
  | nil =>
    have point := no_point t.exponent ends
    generalize NumeralText.exponentText t.exponent ++ rest = after at *
    cases after with
    | nil => simp [NumeralText.fractionText, NumeralText.numeral, exponent, fraction, values]
    | cons c after =>
      have other : c ≠ '.' := fun same => point (by simp [same])
      simp [NumeralText.fractionText, NumeralText.numeral, exponent, fraction, values, other]
  | cons c row =>
    have read := digits_append t.fraction_row stop
    rw [fraction, List.cons_append] at read
    simp [NumeralText.fractionText, NumeralText.numeral, exponent, fraction, values, read]

theorem next?_digit {c : Char} {cs : List Char} (digit : c.isDigit = true) :
    next? (c :: cs) = (numeral? false (c :: cs)).map fun (n, rest) => (.number n.value?, rest) := by
  unfold next?
  split <;> simp_all

theorem next?_toChars (negative : Bool) (ends : Ends rest) :
    next? ((if negative then '-' :: t.toChars else t.toChars) ++ rest)
      = some (.number (t.numeral negative).value?, rest) := by
  have read := numeral?_toChars (t := t) negative ends
  cases negative with
  | true => simp [next?, read]
  | false =>
    obtain ⟨c, cs, text, digit⟩ := t.exists_cons
    rw [text, List.cons_append] at read
    simp [text, next?_digit digit, read]

end

end Token

/-! ### The texts of integers -/

/-- The text of a natural number. -/
def NumeralText.ofNat (n : Nat) : NumeralText where
  whole := Nat.toDigits 10 n
  fraction := []
  exponent := none
  whole_row := Text.row_toDigits n
  whole_ne_nil := Nat.toDigits_ne_nil
  whole_zero zero := by rw [Text.head?_toDigits zero]; rfl
  fraction_row := by rintro c ⟨⟩
  exponent_row := by rintro e ⟨⟩
  exponent_ne_nil := by rintro e ⟨⟩

@[simp] theorem NumeralText.toChars_ofNat (n : Nat) : (ofNat n).toChars = Nat.toDigits 10 n := by
  simp [toChars, ofNat, fractionText, exponentText]

theorem toList_toString_int (n : Int) :
    (toString n).toList = if n < 0 then '-' :: Nat.toDigits 10 n.natAbs
      else Nat.toDigits 10 n.natAbs := by
  rw [Int.toString_eq_repr, Int.repr_eq_if]
  by_cases negative : n < 0
  · have size : (-n).toNat = n.natAbs := by omega
    rw [if_neg (by omega), if_pos negative, size]
    simp
  · have size : n.toNat = n.natAbs := by omega
    rw [if_pos (by omega), if_neg negative, size]
    simp

end CommitPipeline.Json

/-! ### The texts of doubles -/

namespace CommitPipeline.Binary64

theorem units_pos {magnitude : Nat} (pos : 0 < magnitude) : 0 < units magnitude := by
  have significant : 0 < significand magnitude := by
    unfold significand
    split
    · exact pos
    · exact Nat.add_pos_left (Nat.pow_pos (by decide)) _
  exact Nat.mul_pos significant (Nat.pow_pos (by decide))

/-- Zero is not read back as another number. -/
theorem readsBack_zero {magnitude den : Nat} (pos : 0 < magnitude) (scaled : 0 < den) :
    readsBack magnitude 0 den = false := by
  have low : 0 < (units (magnitude - 1) + units magnitude) * den :=
    Nat.mul_pos (Nat.add_pos_right _ (units_pos pos)) scaled
  unfold readsBack
  split
  · rw [Bool.and_eq_false_iff, decide_eq_false_iff_not]
    exact .inl (by omega)
  · rw [Bool.and_eq_false_iff, decide_eq_false_iff_not]
    exact .inl (by omega)

theorem withDigits?_pos {magnitude places digits : Nat} {scale : Int} (pos : 0 < magnitude)
    (found : withDigits? magnitude places = some (digits, scale)) : 0 < digits := by
  simp only [withDigits?] at found
  split at found
  · next low =>
    obtain ⟨rfl, rfl⟩ := Prod.mk.inj (Option.some.inj found)
    have scaled : ∀ n, 0 < Nat.pow 10 n := fun n => Nat.pow_pos (by decide)
    refine Nat.pos_of_ne_zero fun zero => ?_
    rw [zero, Nat.zero_mul, readsBack_zero pos (scaled _)] at low
    simp at low
  · split at found
    · obtain ⟨rfl, rfl⟩ := Prod.mk.inj (Option.some.inj found)
      exact Nat.succ_pos _
    · contradiction

theorem dropZeros_pos {rounds digits : Nat} {scale : Int} (pos : 0 < digits) :
    0 < (dropZeros rounds digits scale).1 := by
  induction rounds generalizing digits scale with
  | zero => exact pos
  | succ rounds ih =>
    unfold dropZeros
    split
    · exact ih (by omega)
    · exact pos

/-- The digits of a number other than zero are those of a positive one, if there are any. -/
theorem shortest_cases {magnitude : Nat} (pos : 0 < magnitude) :
    0 < (shortest magnitude).1 ∨ (shortest magnitude).2 = 0 := by
  unfold shortest
  split
  · next digits scale found =>
    obtain ⟨places, -, found⟩ := List.exists_of_findSome?_eq_some found
    exact .inl (dropZeros_pos (withDigits?_pos pos found))
  · exact .inr rfl

open Json (NumeralText)
open Text (Row)

section
variable {whole fraction : List Char}

/-- Digits, a point and digits. -/
theorem exists_pointed (whole_row : Row whole) (whole_ne_nil : whole ≠ [])
    (whole_zero : whole.head? = some '0' → whole.length = 1) (fraction_row : Row fraction)
    (fraction_ne_nil : fraction ≠ []) :
    ∃ t : NumeralText, whole ++ '.' :: fraction = t.toChars := by
  refine ⟨⟨whole, fraction, none, whole_row, whole_ne_nil, whole_zero, fraction_row,
    by simp, by simp⟩, ?_⟩
  cases fraction with
  | nil => contradiction
  | cons c row =>
    simp [NumeralText.toChars, NumeralText.fractionText, NumeralText.exponentText]

/-- Digits with zeros behind them, which those of zero do not have. -/
theorem exists_zeros_behind (whole_row : Row whole) (whole_ne_nil : whole ≠ []) {zeros : Nat}
    (whole_zero : whole.head? = some '0' → whole.length = 1 ∧ zeros = 0) :
    ∃ t : NumeralText, whole ++ List.replicate zeros '0' ++ ['.', '0'] = t.toChars := by
  refine exists_pointed (Text.row_append whole_row (Text.row_zeros _)) (by simp [whole_ne_nil])
    (fun zero => ?_) (Text.row_zeros 1) (by simp)
  rw [List.head?_append_of_ne_nil _ whole_ne_nil] at zero
  obtain ⟨single, none⟩ := whole_zero zero
  rw [none, List.replicate_zero, List.append_nil, single]

/-- Digits with a point among them. -/
theorem exists_point_within (whole_row : Row whole)
    (whole_zero : whole.head? = some '0' → whole.length = 1) {places : Nat} (pos : 0 < places)
    (within : places < whole.length) :
    ∃ t : NumeralText, whole.take places ++ '.' :: whole.drop places = t.toChars := by
  refine exists_pointed (fun c mem => whole_row c (List.mem_of_mem_take mem)) ?_ (fun zero => ?_)
    (fun c mem => whole_row c (List.mem_of_mem_drop mem)) ?_
  · rw [← List.length_pos_iff, List.length_take]
    omega
  · rw [List.head?_take, if_neg (by omega)] at zero
    have single := whole_zero zero
    omega
  · rw [← List.length_pos_iff, List.length_drop]
    omega

/-- Zeros in front of digits, behind the point. -/
theorem exists_zeros_in_front (zeros : Nat) (fraction_row : Row fraction)
    (fraction_ne_nil : fraction ≠ []) :
    ∃ t : NumeralText, '0' :: '.' :: (List.replicate zeros '0' ++ fraction) = t.toChars :=
  exists_pointed (Text.row_zeros 1) (by simp) (by simp)
    (Text.row_append (Text.row_zeros _) fraction_row) (by simp [fraction_ne_nil])

theorem row_exponentDigits (size : Nat) : Row (exponentDigits size) := by
  simp only [exponentDigits]
  split
  · exact Text.row_append (Text.row_zeros 1) (Text.row_toDigits size)
  · exact Text.row_toDigits size

theorem exponentDigits_ne_nil (size : Nat) : exponentDigits size ≠ [] := by
  simp only [exponentDigits]
  split
  · exact List.cons_ne_nil _ _
  · exact Nat.toDigits_ne_nil

/-- One digit, a fraction and an exponent. -/
theorem exists_scientific {d : Char} (digit : d.isDigit = true) (fraction_row : Row fraction)
    (exponent : Int) : ∃ t : NumeralText,
      d :: (NumeralText.fractionText fraction ++ exponentText exponent) = t.toChars := by
  refine ⟨⟨[d], fraction, some (exponent < 0, exponentDigits exponent.natAbs),
    by simpa [Row] using digit, by simp, by simp, fraction_row, ?_, ?_⟩, ?_⟩
  · rintro e ⟨⟩
    exact row_exponentDigits _
  · rintro e ⟨⟩
    exact exponentDigits_ne_nil _
  · simp [NumeralText.toChars, NumeralText.exponentText, exponentText]

end

/-- The text of a double without its sign. -/
def bodyText (digits : Nat) (scale : Int) : List Char :=
  let text := Nat.toDigits 10 digits
  let width := (text.length : Int) + scale
  let zeros (n : Int) := List.replicate n.toNat '0'
  if 0 ≤ scale ∧ width ≤ 16 then text ++ zeros scale ++ ['.', '0']
  else if 0 < width ∧ width ≤ 16 then
    text.take width.toNat ++ '.' :: text.drop width.toNat
  else if -4 < width ∧ width ≤ 0 then '0' :: '.' :: (zeros (-width) ++ text)
  else
    let tail := exponentText (width - 1)
    match text with
    | [] => tail
    | [d] => d :: tail
    | d :: fraction => d :: '.' :: (fraction ++ tail)

theorem toText_eq (x : Binary64) :
    x.toText = (if x.negative then "-" else "") ++ (if x.magnitude = 0 then "0.0" else
      String.ofList (bodyText (shortest x.magnitude).1 (shortest x.magnitude).2)) :=
  (apply_ite ((if x.negative then "-" else "") ++ ·) (x.magnitude = 0) "0.0" _).symm

theorem bodyText_shape {digits : Nat} {scale : Int} (plain : 0 < digits ∨ scale = 0) :
    ∃ t : NumeralText, bodyText digits scale = t.toChars := by
  have row := Text.row_toDigits digits
  have some_digit : Nat.toDigits 10 digits ≠ [] := Nat.toDigits_ne_nil
  have leading : (Nat.toDigits 10 digits).head? = some '0' → digits = 0 := Text.head?_toDigits
  have single : digits = 0 → (Nat.toDigits 10 digits).length = 1 := by rintro rfl; rfl
  unfold bodyText
  generalize Nat.toDigits 10 digits = text at *
  dsimp only
  split
  · exact exists_zeros_behind row some_digit fun zero => ⟨single (leading zero), by
      have none := leading zero
      omega⟩
  split
  · exact exists_point_within row (fun zero => single (leading zero)) (by omega) (by omega)
  split
  · exact exists_zeros_in_front _ row some_digit
  · cases text with
    | nil => contradiction
    | cons d fraction =>
      have others : Row fraction := fun c mem => row c (List.mem_cons_of_mem _ mem)
      have shape := exists_scientific (row d (by simp)) others
        (((d :: fraction).length : Int) + scale - 1)
      cases fraction with
      | nil => exact shape
      | cons c fraction => exact shape

/-- The text of a double is that of a numeral with a sign. -/
theorem exists_numeralText (x : Binary64) :
    ∃ t : NumeralText, x.toText.toList = if x.negative then '-' :: t.toChars else t.toChars := by
  have body : ∃ t : NumeralText, (if x.magnitude = 0 then "0.0" else
      String.ofList (bodyText (shortest x.magnitude).1 (shortest x.magnitude).2)).toList
        = t.toChars := by
    split
    · exact exists_pointed (Text.row_zeros 1) (by simp) (by simp) (Text.row_zeros 1) (by simp)
    · next other =>
      rw [String.toList_ofList]
      exact bodyText_shape (shortest_cases (Nat.pos_of_ne_zero other))
  obtain ⟨t, body⟩ := body
  refine ⟨t, ?_⟩
  rw [toText_eq, String.toList_append, body]
  cases x.negative <;> rfl

end CommitPipeline.Binary64

namespace CommitPipeline.Json
open Text (values)

theorem Number.toText_int (n : Int) : (Number.int n).toText.toList =
    if decide (n < 0) then '-' :: (NumeralText.ofNat n.natAbs).toChars
    else (NumeralText.ofNat n.natAbs).toChars := by
  rw [toText, toList_toString_int, NumeralText.toChars_ofNat]
  simp only [decide_eq_true_eq]

theorem Number.exists_numeralText (n : Number) : ∃ (negative : Bool) (t : NumeralText),
    n.toText.toList = if negative then '-' :: t.toChars else t.toChars := by
  cases n with
  | int n => exact ⟨_, _, toText_int n⟩
  | float x => exact ⟨x.negative, x.exists_numeralText⟩

/-- What is read in the text of a number. -/
def Number.reread? (n : Number) : Option Number :=
  match Token.next? n.toText.toList with
  | some (.number found, _) => found
  | _ => none

/-- The text of a number is one token. -/
theorem Token.next?_number {n : Number} {rest : List Char} (ends : Ends rest) :
    next? (n.toText.toList ++ rest) = some (.number n.reread?, rest) := by
  obtain ⟨negative, t, text⟩ := n.exists_numeralText
  have alone := next?_toChars (t := t) negative ends_nil
  rw [List.append_nil] at alone
  rw [Number.reread?, text, alone, next?_toChars negative ends]

theorem Numeral.value?_ofNat {n : Nat} (negative : Bool) (within : n ≤ maxSignificand) :
    ((NumeralText.ofNat n).numeral negative).value? =
      if !negative then some (.int n)
      else if 0 < n && n ≤ Nat.pow 2 63 then some (.int (-n))
      else (toDouble? true n 0).map .float := by
  have digits := @Nat.ofDigitChars_ten_toDigits n
  have taken := accumulate_of_le (digits.symm ▸ within)
  rw [digits] at taken
  have none : values [] = [] := rfl
  simp [value?, NumeralText.numeral, NumeralText.ofNat, taken, none, accumulate]

/-- An integer of 64 bits, with or without sign, is read as itself. -/
theorem Number.reread?_int {n : Int} (low : -2 ^ 63 ≤ n) (high : n < 2 ^ 64) :
    (Number.int n).reread? = some (.int n) := by
  have small : n.natAbs ≤ Numeral.maxSignificand := by
    have : Numeral.maxSignificand = 18446744073709551615 := rfl
    omega
  have read := Token.next?_toChars (t := .ofNat n.natAbs) (n < 0) ends_nil
  rw [List.append_nil, Numeral.value?_ofNat _ small] at read
  rw [reread?, toText_int, read]
  by_cases negative : n < 0
  · have range : 0 < n.natAbs ∧ n.natAbs ≤ Nat.pow 2 63 := by
      have : Nat.pow 2 63 = 9223372036854775808 := rfl
      omega
    have value : -(n.natAbs : Int) = n := by omega
    simp only [negative, decide_true, Bool.not_true, Bool.false_eq_true, if_false, range,
      Bool.and_self, if_true, value]
  · have value : (n.natAbs : Int) = n := by omega
    simp only [negative, decide_false, Bool.not_false, if_true, value]

end CommitPipeline.Json
