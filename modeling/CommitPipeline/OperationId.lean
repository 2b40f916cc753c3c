/-! Identifiers of operations: 128-bit numbers, written as hexadecimal digits in five groups. -/
namespace CommitPipeline

/-- An identifier. Identifiers are ordered as their numbers are, which is the order of their
texts. -/
structure OperationId where
  value : Fin (Nat.pow 2 128)
  deriving DecidableEq

namespace OperationId

instance : Ord OperationId := ⟨fun a b => compare a.value.val b.value.val⟩

theorem compare_def (a b : OperationId) : compare a b = compare a.value.val b.value.val := rfl

instance : Std.TransOrd OperationId where
  eq_swap {a b} := by
    change compare a.value.val b.value.val = (compare b.value.val a.value.val).swap
    exact Std.OrientedOrd.eq_swap
  isLE_trans {a b c} := by
    change (compare a.value.val b.value.val).isLE → (compare b.value.val c.value.val).isLE →
      (compare a.value.val c.value.val).isLE
    exact Std.TransOrd.isLE_trans

instance : Std.LawfulEqOrd OperationId where
  eq_of_compare {a b} same := by
    obtain ⟨⟨m, _⟩⟩ := a
    obtain ⟨⟨n, _⟩⟩ := b
    have : m = n := Std.LawfulEqOrd.eq_of_compare same
    subst this
    rfl

/-- The identifier with a number, taken modulo `2 ^ 128`. -/
def ofNat (n : Nat) : OperationId := ⟨Fin.ofNat (Nat.pow 2 128) n⟩

/-- A fresh identifier out of random bits: version 4 of the common variant, which fixes six of
the bits. -/
def ofRandom (bits : Nat) : OperationId :=
  let high := bits / Nat.pow 2 80 % Nat.pow 2 48
  let middle := bits / Nat.pow 2 64 % Nat.pow 2 12
  let low := bits % Nat.pow 2 62
  ofNat (high * Nat.pow 2 80 + (0x4000 + middle) * Nat.pow 2 64 + (Nat.pow 2 63 + low))

/-- The version number within an identifier. -/
def version (id : OperationId) : Nat := id.value.val / Nat.pow 2 76 % 16

/-- Whether the variant bits are those of the common variant. -/
def isCommonVariant (id : OperationId) : Bool := id.value.val / Nat.pow 2 62 % 4 = 2

/-- The lowest `count` hexadecimal digits of a number, the highest first. -/
def hexDigits : Nat → Nat → List Char
  | 0, _ => []
  | count + 1, n => hexDigits count (n / 16) ++ [Nat.digitChar (n % 16)]

/-- The text of an identifier as characters: groups of 8, 4, 4, 4 and 12 digits. -/
def toChars (id : OperationId) : List Char :=
  let n := id.value.val
  hexDigits 8 (n / Nat.pow 2 96) ++ '-' :: hexDigits 4 (n / Nat.pow 2 80)
    ++ '-' :: hexDigits 4 (n / Nat.pow 2 64) ++ '-' :: hexDigits 4 (n / Nat.pow 2 48)
    ++ '-' :: hexDigits 12 n

instance : ToString OperationId := ⟨fun id => String.ofList id.toChars⟩

def hexValue? (c : Char) : Option Nat :=
  if '0' ≤ c ∧ c ≤ '9' then some (c.toNat - '0'.toNat)
  else if 'a' ≤ c ∧ c ≤ 'f' then some (c.toNat - 'a'.toNat + 10)
  else if 'A' ≤ c ∧ c ≤ 'F' then some (c.toNat - 'A'.toNat + 10)
  else none

/-- The number of hexadecimal digits in either case. -/
def hexNumber? (cs : List Char) : Option Nat :=
  cs.foldlM (fun n c => (hexValue? c).map (n * 16 + ·)) 0

/-- Thirty-two digits in a row. -/
def ofDigits? (cs : List Char) : Option OperationId :=
  if cs.length = 32 then (hexNumber? cs).map ofNat else none

/-- Digits in five groups with hyphens between them. -/
def ofGroups? (cs : List Char) : Option OperationId :=
  if cs.length = 36 ∧ cs[8]? = some '-' ∧ cs[13]? = some '-' ∧ cs[18]? = some '-'
      ∧ cs[23]? = some '-' then
    ofDigits? (cs.take 8 ++ (cs.drop 9).take 4 ++ (cs.drop 14).take 4 ++ (cs.drop 19).take 4
      ++ cs.drop 24)
  else none

/-- What follows a text of small letters at the front, which may be in either case. -/
def afterStart? : List Char → List Char → Option (List Char)
  | [], rest => some rest
  | _ :: _, [] => none
  | a :: start, b :: rest => if a = b.toLower then afterStart? start rest else none

/-- Reads an identifier: in groups, as digits in a row, in braces, or behind `urn:uuid:`. -/
def parseList? (cs : List Char) : Option OperationId :=
  if cs.length = 32 then ofDigits? cs
  else if cs.length = 36 then ofGroups? cs
  else if cs.length = 38 then
    if cs.head? = some '\x7b' ∧ cs.getLast? = some '\x7d' then ofGroups? ((cs.drop 1).take 36)
    else none
  else (afterStart? "urn:uuid:".toList cs).bind ofGroups?

def parse? (s : String) : Option OperationId :=
  parseList? s.toList

end OperationId
end CommitPipeline
