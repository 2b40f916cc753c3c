import CommitPipeline.Json.Value

/-! The text of a JSON value, without blanks. -/
namespace CommitPipeline.Json

/-- How a character is written between quotes. -/
def writtenChar (c : Char) : List Char :=
  if c = '"' || c = '\\' then ['\\', c]
  else if c = '\n' then ['\\', 'n']
  else if c = '\r' then ['\\', 'r']
  else if c = '\t' then ['\\', 't']
  else if c = '\u0008' then ['\\', 'b']
  else if c = '\u000c' then ['\\', 'f']
  else if c.toNat < 0x20 then
    ['\\', 'u', '0', '0', Nat.digitChar (c.toNat / 16), Nat.digitChar (c.toNat % 16)]
  else [c]

def renderText (s : String) : List Char :=
  '"' :: s.toList.flatMap writtenChar ++ ['"']

def Number.toText : Number → String
  | .int n => toString n
  | .float x => x.toText

/-- Texts with commas between them. -/
def separated : List (List Char) → List Char
  | [] => []
  | [one] => one
  | one :: rest => one ++ ',' :: separated rest

mutual

def renderList : Json → List Char
  | .null => "null".toList
  | .bool b => if b then "true".toList else "false".toList
  | .number n => n.toText.toList
  | .text s => renderText s
  | .list items => '[' :: separated (renderItems items) ++ [']']
  | .object fields => '\x7b' :: separated (renderFields fields) ++ ['\x7d']

def renderItems : List Json → List (List Char)
  | [] => []
  | item :: rest => renderList item :: renderItems rest

def renderFields : List (String × Json) → List (List Char)
  | [] => []
  | (name, value) :: rest => (renderText name ++ ':' :: renderList value) :: renderFields rest

end

/-- The text of a value. -/
def render (value : Json) : String :=
  String.ofList (renderList value)

end CommitPipeline.Json
