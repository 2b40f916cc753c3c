import CommitPipeline.Toml.Fault

/-! The tokens of TOML documents. Every text has tokens, and they cover it without gaps: what is
wrong with one is found where it is read. -/
namespace CommitPipeline.Toml

open Text (Span)

/-- Characters of a document and the byte at which they start. -/
structure Piece where
  start : Nat
  chars : List Char

namespace Piece

/-- The byte behind some characters that start at a byte. -/
def behind (start : Nat) (chars : List Char) : Nat :=
  chars.foldl (fun place c => place + c.utf8Size) start

def stop (p : Piece) : Nat := behind p.start p.chars

def span (p : Piece) : Span := ⟨p.start, p.stop⟩

/-- The piece without so many characters at its front. -/
def drop (n : Nat) (p : Piece) : Piece :=
  ⟨behind p.start (p.chars.take n), p.chars.drop n⟩

/-- Two pieces of which one follows the other. -/
def append (p q : Piece) : Piece := ⟨p.start, p.chars ++ q.chars⟩

/-- The byte at which the first of some characters of a piece stands. -/
def find? (p : Piece) (wanted : Char → Bool) : Option Nat :=
  if p.chars.any wanted then some (behind p.start (p.chars.takeWhile fun c => !wanted c))
  else none

end Piece

inductive TokenKind where
  | dot
  | equals
  | comma
  | listOpen
  | listClose
  | tableOpen
  | tableClose
  | blanks
  | comment
  | lineBreak
  | text (quote : Quote)
  /-- Anything else: keys, numbers, moments, truth values. -/
  | word
  deriving DecidableEq

structure Token where
  kind : TokenKind
  piece : Piece

namespace Token

def span (t : Token) : Span := t.piece.span

def isSpace (c : Char) : Bool := c = ' ' || c = '\t'

def isBreak (c : Char) : Bool := c = '\n' || c = '\r'

/-- Characters that end a word. Quotes do not. -/
def endsWord (c : Char) : Bool :=
  ".=,[]#".contains c || c = '\x7b' || c = '\x7d' || isSpace c || isBreak c

/-- How many characters a text of one line has, the first ones counted already: it ends with its
quote or with the line. -/
def lineTextSize (quote : Quote) : Nat → List Char → Nat
  | n, [] => n
  | n, [c] => if c = '\n' then n else n + 1
  | n, c :: d :: rest =>
    if c = quote.mark then n + 1
    else if c = '\n' then n
    else if quote.escapes && c = '\\' && (d = '\\' || d = '"') then lineTextSize quote (n + 2) rest
    else lineTextSize quote (n + 1) (d :: rest)

/-- How many characters a text of several lines has, the first ones counted already: it ends with
three quotes, and up to two more in front of them belong to it. -/
def linesTextSize (quote : Quote) : Nat → List Char → Nat
  | n, c :: d :: e :: rest =>
    if c = quote.mark && d = c && e = c then n + 3 + ((rest.take 2).takeWhile (· = c)).length
    else if quote.escapes && c = '\\' && (d = '\\' || d = '"') then
      linesTextSize quote (n + 2) (e :: rest)
    else linesTextSize quote (n + 1) (d :: e :: rest)
  | n, rest => n + rest.length

/-- The kind and the number of characters of the text that starts with a quote. -/
def nextText (mark : Char) (rest : List Char) : TokenKind × Nat :=
  let escapes := mark = '"'
  match rest with
  | d :: e :: inner =>
    if d = mark && e = mark then (.text ⟨escapes, true⟩, linesTextSize ⟨escapes, true⟩ 3 inner)
    else (.text ⟨escapes, false⟩, lineTextSize ⟨escapes, false⟩ 1 rest)
  | _ => (.text ⟨escapes, false⟩, lineTextSize ⟨escapes, false⟩ 1 rest)

/-- The kind and the number of characters of the token that starts with a character. -/
def next (c : Char) (rest : List Char) : TokenKind × Nat :=
  match c with
  | '.' => (.dot, 1)
  | '=' => (.equals, 1)
  | ',' => (.comma, 1)
  | '[' => (.listOpen, 1)
  | ']' => (.listClose, 1)
  | '\x7b' => (.tableOpen, 1)
  | '\x7d' => (.tableClose, 1)
  | ' ' | '\t' => (.blanks, 1 + (rest.takeWhile isSpace).length)
  | '#' => (.comment, 1 + (rest.takeWhile fun c => !isBreak c).length)
  | '\n' => (.lineBreak, 1)
  | '\r' => (.lineBreak, if rest.head? = some '\n' then 2 else 1)
  | '"' | '\'' => nextText c rest
  | _ => (.word, 1 + (rest.takeWhile fun c => !endsWord c).length)

/-- The tokens of characters from a byte on, behind those found before, the latest first. -/
def scan : Nat → List Token → Nat → List Char → List Token
  | 0, found, _, _ => found.reverse
  | _ + 1, found, _, [] => found.reverse
  | n + 1, found, start, c :: rest =>
    let (kind, size) := next c rest
    let (chars, rest) := (c :: rest).splitAt size
    let piece : Piece := ⟨start, chars⟩
    scan n (⟨kind, piece⟩ :: found) piece.stop rest

theorem le_lineTextSize (quote : Quote) (n : Nat) (cs : List Char) :
    n ≤ lineTextSize quote n cs := by
  fun_induction lineTextSize quote n cs <;> omega

theorem le_linesTextSize (quote : Quote) (n : Nat) (cs : List Char) :
    n ≤ linesTextSize quote n cs := by
  fun_induction linesTextSize quote n cs <;> omega

theorem nextText_size_pos (mark : Char) (rest : List Char) : 0 < (nextText mark rest).2 := by
  have line := fun quote => le_lineTextSize quote 1 rest
  have lines := fun quote inner => le_linesTextSize quote 3 inner
  unfold nextText
  grind

/-- A token has a character at least. -/
theorem next_size_pos (c : Char) (rest : List Char) : 0 < (next c rest).2 := by
  have text := nextText_size_pos c rest
  unfold next
  grind

/-- Tokens leave nothing out. -/
theorem flatMap_chars_scan (n : Nat) (found : List Token) (start : Nat) (cs : List Char)
    (enough : cs.length ≤ n) :
    (scan n found start cs).flatMap (·.piece.chars)
      = found.reverse.flatMap (·.piece.chars) ++ cs := by
  induction n generalizing found start cs with
  | zero =>
    have empty : cs = [] := List.length_eq_zero_iff.mp (by omega)
    simp [scan, empty]
  | succ n ih =>
    cases cs with
    | nil => simp [scan]
    | cons c rest =>
      have positive := next_size_pos c rest
      simp only [scan, List.splitAt_eq]
      rw [ih]
      · simp
      · simp only [List.length_drop, List.length_cons] at enough ⊢
        omega

/-- All tokens of a document. Each takes a character at least, so the length bounds their number.
A byte order mark in front of them is skipped. -/
def ofDocument (source : String) : List Token :=
  let cs := source.toList
  match cs with
  | '\uFEFF' :: rest => scan rest.length [] ('\uFEFF'.utf8Size) rest
  | cs => scan cs.length [] 0 cs

end Token
end CommitPipeline.Toml
