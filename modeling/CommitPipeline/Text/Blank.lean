import CommitPipeline.Text.Ranges

/-! Blank characters (the property White_Space) and the removal of blanks around a text. -/
namespace CommitPipeline.Text

/-- Code points of the property White_Space. -/
def blankRanges : Ranges := [
  (0x0009, 0x000D), (0x0020, 0x0020), (0x0085, 0x0085), (0x00A0, 0x00A0), (0x1680, 0x1680),
  (0x2000, 0x200A), (0x2028, 0x2029), (0x202F, 0x202F), (0x205F, 0x205F), (0x3000, 0x3000)]

/-- Whether a character is white space. -/
def isBlank (c : Char) : Bool :=
  blankRanges.has c

/-- The characters without the blanks at either end. -/
def trimList (cs : List Char) : List Char :=
  ((cs.dropWhile isBlank).reverse.dropWhile isBlank).reverse

/-- The text without the blanks at either end. -/
def trim (s : String) : String :=
  String.ofList (trimList s.toList)

private theorem dropWhile_blank_eq_nil_iff {cs : List Char} :
    cs.dropWhile isBlank = [] ↔ ∀ c ∈ cs, isBlank c = true := by
  induction cs with
  | nil => simp
  | cons c cs ih => by_cases h : isBlank c = true <;> simp [List.dropWhile, h, ih]

/-- Nothing but blanks is trimmed to the empty text. -/
theorem trimList_eq_nil_iff {cs : List Char} :
    trimList cs = [] ↔ ∀ c ∈ cs, isBlank c = true := by
  simp only [trimList, List.reverse_eq_nil_iff, dropWhile_blank_eq_nil_iff, List.mem_reverse]
  constructor
  · intro h
    rw [← dropWhile_blank_eq_nil_iff]
    cases kept : cs.dropWhile isBlank with
    | nil => rfl
    | cons c rest =>
      have first := List.head?_dropWhile_not isBlank cs
      have blank := h c (by simp [kept])
      simp [kept, blank] at first
  · intro h c hc
    rw [dropWhile_blank_eq_nil_iff.2 h] at hc
    simp at hc

end CommitPipeline.Text
