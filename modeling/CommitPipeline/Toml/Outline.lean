import CommitPipeline.Toml.Token

/-! The outline of a TOML document: which keys, values and headers stand where. Keys and values are
not looked into here, so the faults found are those of brackets, commas, line ends and comments. -/
namespace CommitPipeline.Toml

open Text (Span)

/-- A key part or a value as it is written: a text in quotes or a word. Where it is missing it is a
word without characters. -/
structure Written where
  quote : Option Quote
  piece : Piece

/-- A value whose texts and words are not read yet. -/
inductive Form where
  | scalar (written : Written)
  | list (span : Span) (items : List Form)
  | table (span : Span) (entries : List (List Written × Form))

/-- What one or more lines say. -/
inductive Statement where
  /-- A header in single or double brackets. -/
  | header (double : Bool) (span : Span) (path : List Written)
  | assign (path : List Written) (form : Form)

/-- How deep brackets and braces may nest. -/
def maxDepth : Nat := 80

/-- Characters that do not stand in comments and texts. -/
def isControl (c : Char) : Bool :=
  (c.toNat < 0x20 && c ≠ '\t') || c.toNat = 0x7F

/-- Checks a comment or a line break. -/
def Token.check (t : Token) : Except Fault Unit :=
  match t.kind with
  | .comment =>
    match t.piece.find? isControl with
    | some place => refuse .commentCharacter ⟨place, place + 1⟩
    | none => .ok ()
  | .lineBreak =>
    if t.piece.chars = ['\r'] then refuse .loneCarriageReturn t.span.after else .ok ()
  | _ => .ok ()

/-- A key and the tokens behind it. It is incomplete if no part stands where one is due. -/
structure KeyLayout where
  path : List Written
  complete : Bool
  rest : List Token

section
variable (size : Nat)

/-- The byte at which tokens start, which is the size of the document if there are none. -/
def frontier : List Token → Nat
  | [] => size
  | t :: _ => t.piece.start

/-- The empty stretch before the next token. -/
def ahead (tokens : List Token) : Span := .point (frontier size tokens)

/-- A word without characters before the next token. -/
def missing (tokens : List Token) : Written := ⟨none, ⟨frontier size tokens, []⟩⟩

/-- Takes the parts of a key, behind those found before, and the dots between them. -/
def keyLayout (due : Bool) (found : List Written) : List Token → KeyLayout
  | [] => if due then ⟨found ++ [missing size []], false, []⟩ else ⟨found, true, []⟩
  | t :: rest =>
    match t.kind with
    | .blanks => keyLayout due found rest
    | .dot => keyLayout true (if due then found ++ [missing size (t :: rest)] else found) rest
    | .word =>
      if due then keyLayout false (found ++ [⟨none, t.piece⟩]) rest else ⟨found, true, t :: rest⟩
    | .text quote =>
      if due then keyLayout false (found ++ [⟨some quote, t.piece⟩]) rest
      else ⟨found, true, t :: rest⟩
    | _ =>
      if due then ⟨found ++ [missing size (t :: rest)], false, t :: rest⟩
      else ⟨found, true, t :: rest⟩

/-- Whether a token is part of a scalar without quotes. -/
def Token.joins (t : Token) : Bool := t.kind = .word || t.kind = .dot

/-- Takes the words and dots that belong to a scalar. Blanks belong to it if more of it follows. -/
def wordLayout (found : Piece) : List Token → Piece × List Token
  | [] => (found, [])
  | [t] => if t.joins then (found.append t.piece, []) else (found, [t])
  | t :: u :: rest =>
    if t.joins then wordLayout (found.append t.piece) (u :: rest)
    else if t.kind = .blanks && u.joins then
      wordLayout ((found.append t.piece).append u.piece) rest
    else (found, t :: u :: rest)

mutual

/-- The value at the front, with room for so many nested brackets, and the tokens behind it. -/
def formLayout : Nat → Nat → List Token → Except Fault (Form × List Token)
  | 0, _, tokens => refuse .nestedTooDeep (ahead size tokens)
  | _ + 1, _, [] => .ok (.scalar (missing size []), [])
  | n + 1, room, t :: rest =>
    match t.kind with
    | .blanks => formLayout n room rest
    | .comment | .lineBreak | .comma => .ok (.scalar (missing size (t :: rest)), t :: rest)
    | .equals => refuse .secondEquals t.span
    | .listClose => refuse .noListOpening t.span.before
    | .tableClose => refuse .noTableOpening t.span.before
    | .text quote => .ok (.scalar ⟨some quote, t.piece⟩, rest)
    | .word | .dot =>
      let (piece, rest) := wordLayout t.piece rest
      .ok (.scalar ⟨none, piece⟩, rest)
    | .listOpen =>
      match room with
      | 0 => refuse .nestedTooDeep t.span
      | room + 1 => listLayout n room t.span false [] rest
    | .tableOpen =>
      match room with
      | 0 => refuse .nestedTooDeep t.span
      | room + 1 => tableLayout n room t.span .key [] [] rest

/-- The items of a list up to its bracket, behind those found before, the latest first. There may
be a comma behind the last one. -/
def listLayout : Nat → Nat → Span → Bool → List Form → List Token → Except Fault (Form × List Token)
  | 0, _, _, _, _, tokens => refuse .nestedTooDeep (ahead size tokens)
  | _ + 1, _, _, _, _, [] => refuse .unclosedList (ahead size [])
  | n + 1, room, opening, commaDue, found, t :: rest =>
    match t.kind with
    | .blanks => listLayout n room opening commaDue found rest
    | .comment | .lineBreak => do
      t.check
      listLayout n room opening commaDue found rest
    | .listClose => .ok (.list (opening.upTo t.span) found.reverse, rest)
    | .equals => refuse .equalsInList t.span
    | .comma =>
      if commaDue then listLayout n room opening false found rest
      else refuse .commaInList t.span
    | _ =>
      if commaDue then refuse .itemsNotSeparated t.span.before
      else do
        let (item, rest) ← formLayout n room (t :: rest)
        listLayout n room opening true (item :: found) rest

/-- The entries of a table up to its brace, behind those found before, the latest first. There may
be a comma behind the last one. -/
def tableLayout : Nat → Nat → Span → Awaited → List Written → List (List Written × Form) →
    List Token → Except Fault (Form × List Token)
  | 0, _, _, _, _, _, tokens => refuse .nestedTooDeep (ahead size tokens)
  | _ + 1, _, _, _, _, _, [] => refuse .unclosedTable (ahead size [])
  | n + 1, room, opening, awaited, path, found, t :: rest =>
    match t.kind, awaited with
    | .blanks, _ => tableLayout n room opening awaited path found rest
    | .comment, _ | .lineBreak, _ => do
      t.check
      tableLayout n room opening awaited path found rest
    | .comma, .comma => tableLayout n room opening .key [] found rest
    | .comma, _ => refuse (.commaInTable awaited) t.span.before
    | .equals, .equals => tableLayout n room opening .value path found rest
    | .equals, .value | .equals, .comma => refuse (.equalsInTable awaited) t.span.before
    | .tableClose, .key | .tableClose, .comma =>
      .ok (.table (opening.upTo t.span) found.reverse, rest)
    | .listOpen, .key | .listOpen, .comma | .tableOpen, .key | .tableOpen, .comma
    | .listClose, .key | .listClose, .comma => refuse (.entryWithoutKey awaited) t.span.before
    | _, .key =>
      let key := keyLayout size true [] (t :: rest)
      tableLayout n room opening .equals key.path found key.rest
    | _, .equals => refuse .entryWithoutEquals t.span.before
    | _, .comma => refuse .entriesNotSeparated t.span.before
    | .tableClose, .value =>
      let entry := (path, .scalar (missing size (t :: rest)))
      .ok (.table (opening.upTo t.span) (entry :: found).reverse, rest)
    | _, .value => do
      let (form, rest) ← formLayout n room (t :: rest)
      tableLayout n room opening .comma [] ((path, form) :: found) rest

end

/-- The tokens from the end of the line on. -/
def toLineEnd (tokens : List Token) : List Token :=
  tokens.dropWhile fun t => t.kind ≠ .comment && t.kind ≠ .lineBreak

/-- Takes the end of a line: nothing but blanks and a comment. -/
def lineEnd : List Token → Except Fault (List Token)
  | [] => .ok []
  | t :: rest =>
    match t.kind with
    | .blanks => lineEnd rest
    | .comment => do
      t.check
      lineEnd rest
    | .lineBreak => do
      t.check
      .ok rest
    | _ => refuse .lineGoesOn t.span.before

/-- Takes a header, behind its opening brackets. The rest of its line is skipped if its key is
incomplete, which is a fault of the key. -/
def headerLayout (double : Bool) (opening : Span) (tokens : List Token) :
    Except Fault (Statement × List Token) :=
  let key := keyLayout size true [] tokens
  let header (closing : Span) := Statement.header double (opening.upTo closing) key.path
  match closing? key.rest with
  | some (closing, rest) =>
    if double then
      match closing? rest with
      | some (closing, rest) => .ok (header closing, rest)
      | none => refuse (.unclosedHeader true "]") closing.after
    else .ok (header closing, rest)
  | none =>
    if key.complete then
      let last := (key.path.getLast?.map (·.piece.span)).getD opening
      refuse (.unclosedHeader double (if double then "]]" else "]")) last.after
    else .ok (header opening, toLineEnd key.rest)
where
  closing? : List Token → Option (Span × List Token)
    | t :: rest => if t.kind = .listClose then some (t.span, rest) else none
    | [] => none

/-- Takes a key and its value. -/
def assignLayout (tokens : List Token) : Except Fault (Statement × List Token) :=
  let key := keyLayout size true [] tokens
  match key.rest with
  | [] => refuse .noEquals (ahead size [])
  | t :: rest =>
    if t.kind = .equals then do
      let (form, rest) ← formLayout size (2 * rest.length + 2) maxDepth rest
      .ok (.assign key.path form, rest)
    else refuse .noEquals t.span.before

/-- Takes the statements, at most as many as the first argument, behind those found before, the
latest first. -/
def statements : Nat → List Statement → List Token → Except Fault (List Statement)
  | 0, found, _ | _ + 1, found, [] => .ok found.reverse
  | n + 1, found, t :: rest =>
    match t.kind with
    | .blanks => statements n found rest
    | .comment | .lineBreak => do
      t.check
      statements n found rest
    | .listClose => refuse .noHeaderOpening t.span.before
    | .comma | .tableOpen | .tableClose => refuse .noKey t.span.before
    | .listOpen => do
      let (statement, rest) ← match rest with
        | u :: more =>
          if u.kind = .listOpen then headerLayout size true (t.span.upTo u.span) more
          else headerLayout size false t.span rest
        | [] => headerLayout size false t.span []
      statements n (statement :: found) (← lineEnd rest)
    | _ => do
      let (statement, rest) ← assignLayout size (t :: rest)
      statements n (statement :: found) (← lineEnd rest)

end

/-- The statements of a document. -/
def outline (source : String) : Except Fault (List Statement) :=
  let tokens := Token.ofDocument source
  statements source.utf8ByteSize (tokens.length + 1) [] tokens

end CommitPipeline.Toml
