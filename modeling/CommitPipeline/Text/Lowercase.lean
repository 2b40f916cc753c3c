import CommitPipeline.Text.CaseTables

/-! The full lower-case form of a text. A capital sigma that ends a word becomes the final small
sigma, and the dotted capital I becomes an i with a combining dot; every other character is
mapped on its own. -/
namespace CommitPipeline.Text

/-- Whether the first character that is not case-ignorable is a cased one. -/
def casedAhead (cs : List Char) : Bool :=
  match cs.dropWhile caseIgnorableRanges.has with
  | [] => false
  | c :: _ => casedRanges.has c

/-- The lower-case form of a character, apart from the sigma at the end of a word. -/
def lowerChar (c : Char) : List Char :=
  if c.toNat < 0x80 then [c.toLower]
  else if c = '\u0130' then ['i', '\u0307']
  else match lowercaseRuns.findSome? (·.lower? c.toNat) with
    | some small => [Char.ofNat small]
    | none => [c]

/-- The lower-case form of `rest` where `before` holds the characters in front of it, the nearest
first. A sigma is final if a cased character stands before it and none after it. -/
def lowerList (before : List Char) : List Char → List Char
  | [] => []
  | c :: rest =>
    let small :=
      if c = '\u03A3' then
        if casedAhead before && !casedAhead rest then ['\u03C2'] else ['\u03C3']
      else lowerChar c
    small ++ lowerList (c :: before) rest

/-- The full lower-case form of a text. -/
def lowercase (s : String) : String :=
  String.ofList (lowerList [] s.toList)

/-- A character without case is left alone, wherever it stands. -/
theorem lowerList_cons_of_lowerChar {before rest : List Char} {c : Char} (notSigma : c ≠ '\u03A3') :
    lowerList before (c :: rest) = lowerChar c ++ lowerList (c :: before) rest := by
  simp [lowerList, notSigma]

end CommitPipeline.Text
