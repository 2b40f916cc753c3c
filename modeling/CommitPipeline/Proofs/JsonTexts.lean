import CommitPipeline.Json.Written
import CommitPipeline.Proofs.NumeralTexts
import CommitPipeline.Proofs.QuotedTexts

/-! The text of a JSON value is read back with its shape: every list, object, text and constant
is found as it was written, and in place of a number what its text denotes. -/
namespace CommitPipeline.Json

/-! ### Tokens -/

namespace Token

/-- A text without blanks as its tokens. -/
inductive Scans : List Char → List Token → Prop where
  | nil : Scans [] []
  | cons {cs rest : List Char} {token : Token} {tokens : List Token}
      (next : next? cs = some (token, rest)) (visible : ∀ c ∈ cs.head?, isSpace c = false)
      (shorter : rest.length < cs.length) (later : Scans rest tokens) : Scans cs (token :: tokens)

section
variable {cs rest : List Char} {token : Token} {tokens : List Token} {room : Nat}

theorem Scans.scan?_eq (scans : Scans cs tokens) (enough : cs.length ≤ room) :
    scan? room cs = some tokens := by
  induction scans generalizing room with
  | nil => cases room <;> rfl
  | @cons cs rest token tokens next visible shorter later ih =>
    cases cs with
    | nil => simp at shorter
    | cons c cs =>
      cases room with
      | zero => simp at enough
      | succ room =>
        have within : rest.length ≤ room := by
          simp only [List.length_cons] at enough shorter
          omega
        have read := ih within
        simp [scan?, visible c rfl, next, read]

/-- One token in front of a text. -/
theorem Scans.before {c : Char} (text : List Char) (later : Scans rest tokens)
    (next : next? (c :: text ++ rest) = some (token, rest)) (visible : isSpace c = false) :
    Scans (c :: text ++ rest) (token :: tokens) :=
  .cons next (by rintro d ⟨⟩; exact visible)
    (by simp only [List.cons_append, List.length_cons, List.length_append]; omega) later

end

end Token

/-- Tokens with commas between them. -/
def joined : List (List Token) → List Token
  | [] => []
  | [one] => one
  | one :: rest => one ++ .comma :: joined rest

mutual

/-- The tokens of the text of a value. -/
def tokens : Json → List Token
  | .null => [.null]
  | .bool b => [.bool b]
  | .number n => [.number n.reread?]
  | .text s => [.text (some s)]
  | .list items => .openList :: joined (itemTokens items) ++ [.closeList]
  | .object fields => .openObject :: joined (fieldTokens fields) ++ [.closeObject]

def itemTokens : List Json → List (List Token)
  | [] => []
  | item :: rest => tokens item :: itemTokens rest

def fieldTokens : List (String × Json) → List (List Token)
  | [] => []
  | (name, value) :: rest => (.text (some name) :: .colon :: tokens value) :: fieldTokens rest

end

open Token (Scans)

section
variable {rest : List Char} {later : List Token}

/-- A mark is a token by itself. -/
theorem scans_mark (c : Char) {token : Token} (scans : Scans rest later)
    (next : Token.next? (c :: rest) = some (token, rest)) (visible : Token.isSpace c = false) :
    Scans (c :: rest) (token :: later) :=
  scans.before [] next visible

theorem scans_text (s : String) (scans : Scans rest later) :
    Scans (renderText s ++ rest) (.text (some s) :: later) :=
  scans.before _ (Token.next?_renderText s rest) (by decide)

theorem not_isSpace_of_isDigit {c : Char} (digit : c.isDigit = true) : Token.isSpace c = false := by
  rw [Bool.eq_false_iff]
  intro space
  simp only [Token.isSpace, Bool.or_eq_true, decide_eq_true_eq] at space
  rcases space with ((rfl | rfl) | rfl) | rfl <;> simp at digit

theorem scans_number (n : Number) (scans : Scans rest later) (ends : Ends rest) :
    Scans (n.toText.toList ++ rest) (.number n.reread? :: later) := by
  have next := Token.next?_number (n := n) ends
  obtain ⟨negative, t, text⟩ := n.exists_numeralText
  rw [text] at next ⊢
  cases negative with
  | true => exact scans.before _ next (by decide)
  | false =>
    obtain ⟨c, cs, first, digit⟩ := t.exists_cons
    simp only [first, Bool.false_eq_true, if_false] at next ⊢
    exact scans.before _ next (not_isSpace_of_isDigit digit)

theorem ends_comma : Ends (',' :: rest) :=
  ends_cons (by decide) (by decide) (by decide) (by decide)

theorem ends_closeList : Ends (']' :: rest) :=
  ends_cons (by decide) (by decide) (by decide) (by decide)

theorem ends_closeObject : Ends ('\x7d' :: rest) :=
  ends_cons (by decide) (by decide) (by decide) (by decide)

end

mutual

/-- The text of a value in front of a text that cannot go on with a numeral. -/
theorem scans_value : ∀ (v : Json) {rest : List Char} {later : List Token}, Scans rest later →
    Ends rest → Scans (renderList v ++ rest) (tokens v ++ later)
  | .null, _, _, scans, _ => scans.before "ull".toList rfl (by decide)
  | .bool true, _, _, scans, _ => scans.before "rue".toList rfl (by decide)
  | .bool false, _, _, scans, _ => scans.before "alse".toList rfl (by decide)
  | .number n, _, _, scans, ends => scans_number n scans ends
  | .text s, _, _, scans, _ => scans_text s scans
  | .list items, rest, later, scans, _ => by
    have close : Scans (']' :: rest) (.closeList :: later) := scans_mark _ scans rfl (by decide)
    have whole := scans_mark '[' (scans_items items close ends_closeList) rfl (by decide)
    simpa [renderList, tokens] using whole
  | .object fields, rest, later, scans, _ => by
    have close : Scans ('\x7d' :: rest) (.closeObject :: later) :=
      scans_mark _ scans rfl (by decide)
    have whole := scans_mark '\x7b' (scans_fields fields close ends_closeObject) rfl (by decide)
    simpa [renderList, tokens] using whole

theorem scans_items : ∀ (items : List Json) {rest : List Char} {later : List Token},
    Scans rest later → Ends rest →
    Scans (separated (renderItems items) ++ rest) (joined (itemTokens items) ++ later)
  | [], _, _, scans, _ => scans
  | [item], _, _, scans, ends => scans_value item scans ends
  | item :: other :: items, rest, later, scans, ends => by
    have more := scans_mark ',' (scans_items (other :: items) scans ends) rfl (by decide)
    have front := scans_value item more ends_comma
    simpa [renderItems, itemTokens, separated, joined] using front

theorem scans_fields : ∀ (fields : List (String × Json)) {rest : List Char} {later : List Token},
    Scans rest later → Ends rest →
    Scans (separated (renderFields fields) ++ rest) (joined (fieldTokens fields) ++ later)
  | [], _, _, scans, _ => scans
  | [(name, value)], rest, later, scans, ends => by
    have front := scans_text name (scans_mark ':' (scans_value value scans ends) rfl (by decide))
    simpa [renderFields, fieldTokens, separated, joined] using front
  | (name, value) :: other :: fields, rest, later, scans, ends => by
    have more := scans_mark ',' (scans_fields (other :: fields) scans ends) rfl (by decide)
    have front := scans_text name
      (scans_mark ':' (scans_value value more ends_comma) rfl (by decide))
    simpa [renderFields, fieldTokens, separated, joined] using front

end

/-! ### Values -/

mutual

/-- What is read in the text of a value. -/
def written : Json → Written
  | .null => .null
  | .bool b => .bool b
  | .number n => .number n.reread?
  | .text s => .text (some s)
  | .list items => .list (writtenItems items)
  | .object fields => .object (writtenFields fields)

def writtenItems : List Json → List Written
  | [] => []
  | item :: rest => written item :: writtenItems rest

def writtenFields : List (String × Json) → List (Option String × Written)
  | [] => []
  | (name, value) :: rest => (some name, written value) :: writtenFields rest

end

/-- The first token of a value does not close a list. -/
theorem exists_token (v : Json) : ∃ token more, tokens v = token :: more ∧ token ≠ .closeList := by
  cases v with
  | null | bool | number | text => exact ⟨_, _, rfl, by simp⟩
  | list | object => exact ⟨_, _, rfl, by simp⟩

theorem exists_item (item : Json) (items : List Json) : ∃ token more,
    joined (itemTokens (item :: items)) = token :: more ∧ token ≠ .closeList := by
  obtain ⟨token, more, first, other⟩ := exists_token item
  cases items with
  | nil => exact ⟨token, more, first, other⟩
  | cons next items =>
    refine ⟨token, more ++ .comma :: joined (itemTokens (next :: items)), ?_, other⟩
    simp [itemTokens, joined, first]

theorem exists_field (field : String × Json) (fields : List (String × Json)) :
    ∃ more, joined (fieldTokens (field :: fields)) = .text (some field.1) :: more := by
  cases fields with
  | nil => exact ⟨_, rfl⟩
  | cons => exact ⟨_, rfl⟩

theorem value?_openList {token : Token} {more : List Token} {room : Nat}
    (other : token ≠ .closeList) : Written.value? (room + 1) (.openList :: token :: more)
      = (Written.items? room (token :: more)).map fun (items, rest) => (.list items, rest) := by
  cases token <;> first | contradiction | rfl

mutual

/-- The tokens of a value are read with two calls at most for each. -/
theorem value?_tokens : ∀ (v : Json) (room : Nat) (rest : List Token),
    2 * (tokens v).length ≤ room →
    Written.value? room (tokens v ++ rest) = some (written v, rest)
  | v, 0, _, enough => by
    obtain ⟨token, more, first, -⟩ := exists_token v
    simp [first] at enough
  | .null, _ + 1, _, _ => rfl
  | .bool _, _ + 1, _, _ => rfl
  | .number _, _ + 1, _, _ => rfl
  | .text _, _ + 1, _, _ => rfl
  | .list [], _ + 1, _, _ => rfl
  | .list (item :: items), room + 1, rest, enough => by
    have within : 2 * (joined (itemTokens (item :: items))).length + 1 ≤ room := by
      simp only [tokens, List.length_append, List.length_cons, List.length_nil] at enough
      omega
    have read := items?_tokens item items room rest within
    obtain ⟨token, more, first, other⟩ := exists_item item items
    rw [first, List.cons_append] at read
    simp [tokens, first, value?_openList other, read, written]
  | .object [], _ + 1, _, _ => rfl
  | .object (field :: fields), room + 1, rest, enough => by
    have within : 2 * (joined (fieldTokens (field :: fields))).length + 1 ≤ room := by
      simp only [tokens, List.length_append, List.length_cons, List.length_nil] at enough
      omega
    have read := fields?_tokens field fields room rest within
    obtain ⟨more, first⟩ := exists_field field fields
    rw [first, List.cons_append] at read
    simp [tokens, first, Written.value?, read, written]

theorem items?_tokens : ∀ (item : Json) (items : List Json) (room : Nat) (rest : List Token),
    2 * (joined (itemTokens (item :: items))).length + 1 ≤ room →
    Written.items? room (joined (itemTokens (item :: items)) ++ .closeList :: rest)
      = some (writtenItems (item :: items), rest)
  | _, _, 0, _, enough => by simp at enough
  | item, [], room + 1, rest, enough => by
    have read := value?_tokens item room (.closeList :: rest) (by
      simp only [itemTokens, joined] at enough; omega)
    simp [itemTokens, joined, Written.items?, read, writtenItems]
  | item, other :: items, room + 1, rest, enough => by
    simp only [itemTokens, joined, List.length_append, List.length_cons] at enough
    have front := value?_tokens item room
      (.comma :: (joined (itemTokens (other :: items)) ++ .closeList :: rest)) (by omega)
    have more := items?_tokens other items room rest (by rw [itemTokens]; omega)
    rw [itemTokens] at front more
    simp [itemTokens, joined, Written.items?, front, more, writtenItems]

theorem fields?_tokens : ∀ (field : String × Json) (fields : List (String × Json)) (room : Nat)
    (rest : List Token), 2 * (joined (fieldTokens (field :: fields))).length + 1 ≤ room →
    Written.fields? room (joined (fieldTokens (field :: fields)) ++ .closeObject :: rest)
      = some (writtenFields (field :: fields), rest)
  | _, _, 0, _, enough => by simp at enough
  | (name, value), [], room + 1, rest, enough => by
    simp only [fieldTokens, joined, List.length_cons] at enough
    have read := value?_tokens value room (.closeObject :: rest) (by omega)
    simp [fieldTokens, joined, Written.fields?, read, writtenFields]
  | (name, value), other :: fields, room + 1, rest, enough => by
    simp only [fieldTokens, joined, List.length_append, List.length_cons] at enough
    have front := value?_tokens value room
      (.comma :: (joined (fieldTokens (other :: fields)) ++ .closeObject :: rest)) (by omega)
    have more := fields?_tokens other fields room rest (by rw [fieldTokens]; omega)
    rw [fieldTokens] at front more
    simp [fieldTokens, joined, Written.fields?, front, more, writtenFields]

end

/-- The text of a value is read back with its shape. -/
theorem Written.parse?_render (v : Json) : parse? v.render = some (written v) := by
  have scans := scans_value v .nil ends_nil
  rw [List.append_nil, List.append_nil] at scans
  have read := value?_tokens v (2 * (tokens v).length + 1) [] (by omega)
  rw [List.append_nil] at read
  simp [parse?, Token.ofText?, render, scans.scan?_eq (Nat.le_refl _), read]

end CommitPipeline.Json
