import Mathlib.Algebra.Group.Nat.Defs
import CommitPipeline.OperationId

/-! The text of an identifier is read back as that identifier. The five groups are one row of
thirty-two digits with hyphens put in, so the digits are settled once for the whole row. -/
namespace CommitPipeline.OperationId

@[simp] theorem hexDigits_length (count n : Nat) : (hexDigits count n).length = count := by
  induction count generalizing n with
  | zero => rfl
  | succ count ih => simp [hexDigits, ih]

/-- A row of digits can be cut anywhere. -/
theorem hexDigits_add (front back n : Nat) :
    hexDigits (front + back) n = hexDigits front (n / 16 ^ back) ++ hexDigits back n := by
  induction back generalizing n with
  | zero => simp [hexDigits]
  | succ back ih =>
    have cut : n / 16 / 16 ^ back = n / 16 ^ (back + 1) := by
      rw [Nat.div_div_eq_div_mul, Nat.pow_succ']
    rw [← Nat.add_assoc]
    simp only [hexDigits, ih, cut, List.append_assoc]

theorem hexValue?_digitChar {d : Nat} (small : d < 16) : hexValue? (Nat.digitChar d) = some d := by
  have all : ∀ d : Fin 16, hexValue? (Nat.digitChar d) = some d.val := by decide
  exact all ⟨d, small⟩

/-- Reading a row of digits finds the part of the number that the row has room for. -/
theorem hexNumber?_hexDigits (count n : Nat) :
    hexNumber? (hexDigits count n) = some (n % 16 ^ count) := by
  induction count generalizing n with
  | zero => simp [hexDigits, hexNumber?, Nat.mod_one]
  | succ count ih =>
    have digit := hexValue?_digitChar (Nat.mod_lt n (by decide : 16 > 0))
    have split : n / 16 % 16 ^ count * 16 + n % 16 = n % 16 ^ (count + 1) := by
      rw [Nat.pow_succ', Nat.mod_mul]; omega
    unfold hexNumber? at ih ⊢
    simp [hexDigits, List.foldlM_append, ih, digit, split]

theorem ofDigits?_hexDigits (id : OperationId) :
    ofDigits? (hexDigits 32 id.value.val) = some id := by
  have whole : id.value.val % 16 ^ 32 = id.value.val := Nat.mod_eq_of_lt id.value.isLt
  simp only [ofDigits?, hexDigits_length, if_true, hexNumber?_hexDigits, whole, Option.map_some,
    ofNat, Option.some.injEq]
  congr 1
  exact Fin.ext (Nat.mod_eq_of_lt id.value.isLt)

section
variable {a b c d e : List Char}

/-- Groups of the right widths are the digits between the hyphens. -/
theorem ofGroups?_groups (ha : a.length = 8) (hb : b.length = 4) (hc : c.length = 4)
    (hd : d.length = 4) (he : e.length = 12) :
    ofGroups? (a ++ '-' :: b ++ '-' :: c ++ '-' :: d ++ '-' :: e)
      = ofDigits? (a ++ b ++ c ++ d ++ e) := by
  simp [ofGroups?, ha, hb, hc, hd, he, List.drop_append, List.drop_of_length_le]

end

theorem toChars_length (id : OperationId) : id.toChars.length = 36 := by
  simp [toChars]

/-- The groups of an identifier in a row. -/
theorem hexDigits_groups (n : Nat) :
    hexDigits 8 (n / Nat.pow 2 96) ++ hexDigits 4 (n / Nat.pow 2 80)
      ++ hexDigits 4 (n / Nat.pow 2 64) ++ hexDigits 4 (n / Nat.pow 2 48) ++ hexDigits 12 n
      = hexDigits 32 n := by
  have cut24 : 16 ^ 24 = Nat.pow 2 96 := by decide
  have cut20 : 16 ^ 20 = Nat.pow 2 80 := by decide
  have cut16 : 16 ^ 16 = Nat.pow 2 64 := by decide
  have cut12 : 16 ^ 12 = Nat.pow 2 48 := by decide
  rw [hexDigits_add 8 24, hexDigits_add 4 20, hexDigits_add 4 16, hexDigits_add 4 12,
    cut24, cut20, cut16, cut12]
  simp only [List.append_assoc]

theorem ofGroups?_toChars (id : OperationId) : ofGroups? id.toChars = some id := by
  rw [toChars, ofGroups?_groups (hexDigits_length ..) (hexDigits_length ..) (hexDigits_length ..)
    (hexDigits_length ..) (hexDigits_length ..), hexDigits_groups, ofDigits?_hexDigits]

/-- What is written for an identifier is read as that identifier. -/
theorem parse?_toString (id : OperationId) : parse? (toString id) = some id := by
  simp [parse?, parseList?, toString, toChars_length, ofGroups?_toChars]

end CommitPipeline.OperationId
