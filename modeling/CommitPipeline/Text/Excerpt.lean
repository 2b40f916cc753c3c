import CommitPipeline.Text.Span

/-! How a text is shown to point at a stretch of it: its line with a mark below. -/
namespace CommitPipeline.Text

/-- A place in a text by line and column, both counted from zero. -/
structure Place where
  line : Nat
  column : Nat
  deriving DecidableEq

/-- Where a walk over a text stands: the byte, the line, where that line starts, and how many of
its characters are passed. -/
structure Place.Walk where
  byte : Nat
  line : Nat
  lineStart : Nat
  passed : Nat

/-- Walks on to the character that holds a byte. Columns count characters; the column of a
character of several bytes counts bytes, unless the byte is its last one. -/
def Place.Walk.find (wanted : Nat) (w : Place.Walk) : List Char → Place
  | [] => ⟨w.line, w.passed⟩
  | c :: rest =>
    let next := w.byte + c.utf8Size
    if wanted < next then
      ⟨w.line, if wanted + 1 = next then w.passed else wanted - w.lineStart⟩
    else if c = '\n' then find wanted ⟨next, w.line + 1, next, 0⟩ rest
    else find wanted { w with byte := next, passed := w.passed + 1 } rest

/-- The place of a byte. The end of a text counts as right behind its last byte, also where that is
a line break. -/
def Place.ofByte (source : String) (byte : Nat) : Place :=
  let last := min byte (source.utf8ByteSize - 1)
  let place := Place.Walk.find last ⟨0, 0, 0, 0⟩ source.toList
  { place with column := place.column + (byte - last) }

/-- What is said of a stretch of a text: the place, the line with a mark below the stretch, and the
message. The mark ends with the line and is never empty. -/
def excerpt (what source : String) (span : Span) (message : String) : String :=
  let place := Place.ofByte source span.start
  let number := toString (place.line + 1)
  let gutter := "".pushn ' ' (number.length + 1) ++ "|"
  let content := ((source.splitOn "\n")[place.line]?).getD ""
  let marked := max 1 (min span.size (content.utf8ByteSize - place.column))
  "\n".intercalate [
    what ++ " at line " ++ number ++ ", column " ++ toString (place.column + 1),
    gutter,
    number ++ " | " ++ content,
    (gutter.pushn ' ' (place.column + 1)).pushn '^' marked,
    message,
    ""]

end CommitPipeline.Text
