import CommitPipeline.Toml.Moment
import CommitPipeline.Toml.Numeral
import CommitPipeline.Toml.Quoted

/-! What the keys and scalars of a TOML document say. -/
namespace CommitPipeline.Toml

/-- Characters of keys without quotes. -/
def isBareKey (c : Char) : Bool := c.isAlphanum || c = '_' || c = '-'

/-- One part of a key: bare, or quoted on one line. -/
def Written.keyPart (w : Written) : Except Fault Key := do
  let span := w.piece.span
  match w.quote with
  | some quote =>
    if quote.lines then refuse (.keyOfLines quote) span
    else return ⟨span, ← w.piece.quotedText quote⟩
  | none =>
    if w.piece.chars.isEmpty then refuse .emptyKey span
    else match w.piece.find? fun c => !isBareKey c with
      | some place => refuse .keyCharacter (.point place)
      | none => return ⟨span, String.ofList w.piece.chars⟩

/-- The most parts a key can have. -/
def maxKeyParts : Nat := 80

/-- A key, split into the path to its table and its last part. -/
def keyOf (path : List Written) : Except Fault (List Key × Key) := do
  let parts ← path.mapM Written.keyPart
  match parts.getLast? with
  | none => refuse .noKey ⟨0, 0⟩
  | some last =>
    if maxKeyParts < parts.length then refuse .tooManyKeyParts ((parts.head?.getD last).span)
    else return (parts.dropLast, last)

/-- Refuses a word that stands for nothing. If it ends in quotes, those in front are missing. -/
def Piece.refuseWord (p : Piece) : Except Fault Value :=
  let closing? := [⟨false, true⟩, ⟨true, true⟩, ⟨false, false⟩, ⟨true, false⟩].find?
    fun quote : Quote => List.isSuffixOf (List.replicate quote.width quote.mark) p.chars
  match closing? with
  | some quote => refuse (.noOpeningQuote quote) p.span.before
  | none => refuse .notQuoted p.span

/-- A word that must be spelt as given. One that is so but for its case is told apart. -/
def Piece.spelt (whole p : Piece) (name : String) (misspelt : String → Problem) (value : Value) :
    Except Fault Value :=
  if p.chars = name.toList then .ok value
  else if p.chars.map Char.toLower = name.toList then refuse (misspelt name) whole.span
  else whole.refuseWord

/-- A number or moment, by what follows its sign. It starts with a digit or an underscore. What
stands behind its first digits decides what it is. -/
def Piece.number (whole unsigned : Piece) : Except Fault Value :=
  match unsigned.chars.dropWhile Char.isDigit with
  | [] => Numeral.decimalInteger whole unsigned
  | c :: rest =>
    if c = '-' || c = ':' then
      match Moment.read whole.chars with
      | .ok text => .ok (.moment text)
      | .error problem => refuse problem whole.span
    else if (c :: rest).contains ' ' then whole.refuseWord
    else if (c :: rest).any (fun d => d = '.' || d = 'e' || d = 'E') then
      Numeral.float whole unsigned
    else if c = '_' then Numeral.decimalInteger whole unsigned
    else whole.refuseWord

/-- A word behind its sign, if it has one. -/
def Piece.unsignedWord (whole unsigned : Piece) : Except Fault Value :=
  match unsigned.chars with
  | '0' :: mark :: _ =>
    match mark.toLower with
    | 'x' => Numeral.basedInteger .hexadecimal whole unsigned
    | 'o' => Numeral.basedInteger .octal whole unsigned
    | 'b' => Numeral.basedInteger .binary whole unsigned
    | 'd' => refuse .decimalMark ⟨unsigned.start, unsigned.start + 2⟩
    | _ => whole.number unsigned
  | c :: _ =>
    if c.isDigit || c = '_' then whole.number unsigned
    else if c = '.' then Numeral.float whole unsigned
    else if c = 'i' || c = 'I' then
      let negative := whole.chars.head? = some '-'
      whole.spelt unsigned "inf" .misspeltFloat (.float (some (.infinite negative)))
    else if c = 'n' || c = 'N' then
      whole.spelt unsigned "nan" .misspeltFloat (.float (some .notANumber))
    else if Numeral.isSign c then refuse .secondSign ⟨unsigned.start, unsigned.start + 1⟩
    else whole.refuseWord
  | [] => whole.refuseWord

/-- The value of a word. -/
def Piece.word (p : Piece) : Except Fault Value :=
  match p.chars with
  | c :: _ =>
    if Numeral.isSign c then p.unsignedWord (p.drop 1)
    else if c = 't' || c = 'T' then p.spelt p "true" .misspeltBoolean (.bool true)
    else if c = 'f' || c = 'F' then p.spelt p "false" .misspeltBoolean (.bool false)
    else p.unsignedWord p
  | [] => p.refuseWord

/-- The value of a scalar. -/
def Written.scalar (w : Written) : Except Fault Value :=
  match w.quote with
  | some quote => return .text (← w.piece.quotedText quote)
  | none => w.piece.word

end CommitPipeline.Toml
