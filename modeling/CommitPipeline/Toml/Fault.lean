import CommitPipeline.Text.Span

/-! What can be wrong with a TOML document, where, and how that is said. -/
namespace CommitPipeline.Toml

open Text (Span)

/-- The four kinds of quoted texts: escapes count between double quotes, and three quotes stand
around a text of several lines. -/
structure Quote where
  escapes : Bool
  lines : Bool
  deriving DecidableEq

namespace Quote

def mark (q : Quote) : Char := if q.escapes then '"' else '\''

/-- How many quotes stand on either side. -/
def width (q : Quote) : Nat := if q.lines then 3 else 1

def title (q : Quote) : String :=
  (if q.lines then "multi-line " else "") ++ (if q.escapes then "basic" else "literal") ++ " string"

end Quote

/-- What comes next between the braces of a table. -/
inductive Awaited where
  | key
  | equals
  | value
  | comma
  deriving DecidableEq

/-- The bases of integers that are written with a mark. -/
inductive Base where
  | hexadecimal
  | octal
  | binary
  deriving DecidableEq

namespace Base

def size : Base → Nat
  | .hexadecimal => 16
  | .octal => 8
  | .binary => 2

def title : Base → String
  | .hexadecimal => "hexadecimal"
  | .octal => "octal"
  | .binary => "binary"

def mark : Base → String
  | .hexadecimal => "0x"
  | .octal => "0o"
  | .binary => "0b"

end Base

inductive Problem where
  | commentCharacter
  | loneCarriageReturn
  | noHeaderOpening
  | noKey
  | unclosedHeader (double : Bool) (missing : String)
  | noEquals
  | secondEquals
  | lineGoesOn
  | unclosedList
  | commaInList
  | equalsInList
  | itemsNotSeparated
  | noListOpening
  | noTableOpening
  | unclosedTable
  | commaInTable (awaited : Awaited)
  | equalsInTable (awaited : Awaited)
  | entryWithoutKey (awaited : Awaited)
  | entryWithoutEquals
  | entriesNotSeparated
  | nestedTooDeep
  | emptyKey
  | keyCharacter
  | keyOfLines (quote : Quote)
  | tooManyKeyParts
  | notQuoted
  | noOpeningQuote (quote : Quote)
  | misspeltBoolean (word : String)
  | misspeltFloat (word : String)
  | misplacedUnderscore
  | leadingZero
  | secondSign
  | signBeforeBase
  | upperCaseBase (base : Base)
  | decimalMark
  | baseDigit (base : Base)
  | noDigits (part : String)
  | behindFloat
  | unclosedText (quote : Quote)
  | textCharacter (quote : Quote)
  | unknownEscape
  | tooFewDigits
  | noCharacterCode
  | moment (part : String) (wanted : List String)
  | duplicateKey
  | notExtensible (kind : String)

/-- A piece of notation in a message. -/
def literally (signs : String) : String := "`" ++ signs ++ "`"

def Awaited.title : Awaited → String
  | .key => "key"
  | .equals => literally "="
  | .value => "value"
  | .comma => literally ","

namespace Problem

/-- What was found. -/
def finding : Problem → String
  | .commentCharacter => "invalid comment character"
  | .loneCarriageReturn => "carriage return must be followed by newline"
  | .noHeaderOpening => "missing table open"
  | .noKey => "invalid key"
  | .unclosedHeader double _ => if double then "unclosed array table" else "unclosed table"
  | .noEquals => "key with no value"
  | .secondEquals => "extra `=`"
  | .lineGoesOn => "unexpected key or value"
  | .unclosedList => "unclosed array"
  | .commaInList => "extra comma in array"
  | .equalsInList => "unexpected `=` in array"
  | .itemsNotSeparated => "missing comma between array elements"
  | .noListOpening => "missing array opening"
  | .noTableOpening => "missing inline table opening"
  | .unclosedTable => "unclosed inline table"
  | .commaInTable _ => "extra comma in inline table"
  | .equalsInTable _ => "extra assignment between key-value pairs"
  | .entryWithoutKey _ => "missing key for inline table element"
  | .entryWithoutEquals => "missing assignment between key-value pairs"
  | .entriesNotSeparated => "missing comma between key-value pairs"
  | .nestedTooDeep => "cannot recurse further; max recursion depth met"
  | .emptyKey => "unquoted keys cannot be empty"
  | .keyCharacter => "invalid unquoted key"
  | .keyOfLines quote => "keys cannot be " ++ quote.title ++ "s"
  | .tooManyKeyParts => "recursion limit"
  | .notQuoted => "string values must be quoted"
  | .noOpeningQuote _ => "missing opening quote"
  | .misspeltBoolean _ => "invalid boolean"
  | .misspeltFloat _ => "invalid float"
  | .misplacedUnderscore => "`_` may only go between digits"
  | .leadingZero => "unexpected leading zero"
  | .secondSign => "redundant numeric sign"
  | .signBeforeBase => "integers with a radix cannot be signed"
  | .upperCaseBase _ => "radix must be lowercase"
  | .decimalMark => "redundant integer number prefix"
  | .baseDigit base => "invalid " ++ base.title ++ " number"
  | .noDigits part => "invalid " ++ part
  | .behindFloat => "invalid float"
  | .unclosedText quote | .textCharacter quote => "invalid " ++ quote.title
  | .unknownEscape => "missing escaped value"
  | .tooFewDigits => "too few unicode value digits"
  | .noCharacterCode => "invalid value"
  | .moment part _ => "invalid " ++ part
  | .duplicateKey => "duplicate key"
  | .notExtensible kind => "cannot extend value of type " ++ kind ++ " with a dotted key"

/-- What would have been right in that place, where that is told; it may be nothing at all. -/
def wanted? : Problem → Option (List String)
  | .commentCharacter => some ["printable characters"]
  | .loneCarriageReturn => some ["newline"]
  | .noHeaderOpening | .noListOpening => some [literally "["]
  | .noKey => some ["key"]
  | .unclosedHeader _ missing => some [literally missing]
  | .noEquals => some [literally "="]
  | .lineGoesOn => some ["newline", literally "#"]
  | .unclosedList => some [literally "]"]
  | .commaInList => some ["value"]
  | .equalsInList => some ["value", literally "]"]
  | .itemsNotSeparated | .entriesNotSeparated => some [literally ","]
  | .noTableOpening => some [literally "\x7b"]
  | .unclosedTable => some [literally "\x7d"]
  | .commaInTable awaited | .equalsInTable awaited | .entryWithoutKey awaited =>
    some [awaited.title]
  | .entryWithoutEquals => some [literally "="]
  | .emptyKey | .keyCharacter => some ["letters", "numbers", literally "-", literally "_"]
  | .keyOfLines _ => some ["basic string", "literal string"]
  | .notQuoted => some ["literal string"]
  | .noOpeningQuote quote => some [literally ("".pushn quote.mark quote.width)]
  | .misspeltBoolean word | .misspeltFloat word => some [literally word]
  | .secondEquals | .misplacedUnderscore | .leadingZero | .secondSign | .signBeforeBase
  | .decimalMark | .behindFloat => some []
  | .upperCaseBase base => some [literally base.mark]
  | .noDigits _ => some ["digits"]
  | .unclosedText quote => some [literally (String.singleton quote.mark)]
  | .textCharacter quote =>
    some (if quote.escapes then ["non-double-quote visible characters", literally "\\"]
      else ["non-single-quote visible characters"])
  | .unknownEscape => some (["b", "e", "f", "n", "r", "\\", "\"", "x", "u", "U"].map literally)
  | .tooFewDigits | .noCharacterCode => some ["unicode hexadecimal value"]
  | .moment _ wanted => if wanted.isEmpty then none else some wanted
  | .nestedTooDeep | .tooManyKeyParts | .baseDigit _ | .duplicateKey | .notExtensible _ => none

def message (p : Problem) : String :=
  match p.wanted? with
  | none => p.finding
  | some [] => p.finding ++ ", expected nothing"
  | some wanted => p.finding ++ ", expected " ++ ", ".intercalate wanted

end Problem

/-- The first problem of a document, and where it is. -/
structure Fault where
  problem : Problem
  span : Span

/-- Refuses a document. -/
def refuse {α : Type} (problem : Problem) (span : Span) : Except Fault α :=
  .error ⟨problem, span⟩

end CommitPipeline.Toml
