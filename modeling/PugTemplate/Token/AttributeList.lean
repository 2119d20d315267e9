import PugTemplate.Token
import PugTemplate.Token.Name

/-!
# Attribute lists

A list in parentheses holds named entries and bare values, separated by commas or blanks. A named
entry's operator says whether the value is escaped and whether it is guarded.
-/

namespace PugTemplate.Token

abbrev Lexed := Except Diagnostic (List Token × Cursor)

structure Operator where
  text : String
  escaped : Bool
  checked : Bool
  deriving DecidableEq, Repr

/-- The operators of attributes and expressions. None begins with one that stands before it. -/
def operators : List Operator :=
  [⟨"?!=", false, false⟩, ⟨"!?=", false, false⟩, ⟨"!=", false, true⟩, ⟨"?=", true, false⟩,
    ⟨"=", true, true⟩]

/-- The operator of a named entry. An equals sign after it makes a comparison, which is part of
a bare value. -/
def attributeOperator? (cursor : Cursor) : Option Operator :=
  operators.find? fun operator =>
    cursor.startsWith operator.text && (cursor.skip operator.text.length).peek != some '='

def endsLiteral (cursor : Cursor) : Bool :=
  match cursor.peek with
  | none => true
  | some c =>
    c == ',' || c == ')' || Text.isLineEnd c || c.isAlpha || c == '_' || c == '@' || c == ':'

def readBareValue (cursor : Cursor) : Except Diagnostic (List Char × Cursor) := do
  let (text, rest) ← readBalanced cursor [',', ')']
  return (Text.trim text, rest)

/-- Reads the value of a named entry. A quoted string alone is a value of its own. -/
def readValue (cursor : Cursor) : Except Diagnostic (String × Cursor) :=
  let general : Except Diagnostic (String × Cursor) := do
    let (value, rest) ← readBareValue cursor
    if value.isEmpty then
      throw (Cause.missingAttributeValue.diagnose rest.position)
    return (String.ofList value, rest)
  match cursor.readString with
  | .error failure => .error failure.error.diagnose
  | .ok (none, _) => general
  | .ok (some _, rest) =>
    if endsLiteral rest.skipSpacing then
      .ok (String.ofList (cursor.upTo rest), rest)
    else
      general

/-- The values written as one bare entry: several plain names are several values. -/
def bareValues (text : List Char) : List (List Char) :=
  let words := Text.words text
  if words.length > 1 && words.all isPlainName then words else [text]

def lexEntry (cursor : Cursor) : Lexed :=
  let (name, afterName) := cursor.readWhile isAttributeNameChar
  let spaced := afterName.skipSpacing
  match if name.isEmpty then none else attributeOperator? spaced with
  | some operator => do
    let valueStart := ((spaced.skip operator.text.length).readWhile Text.isBlank).2
    let (value, rest) ← readValue valueStart
    let entry : Attribute :=
      ⟨some (String.ofList name), some value, operator.escaped, operator.checked⟩
    return ([⟨.attr entry, cursor.position⟩], rest)
  | none => do
    let (text, rest) ← readBareValue cursor
    let token (value : List Char) : Token :=
      ⟨.attr ⟨none, some (String.ofList value), true, true⟩, cursor.position⟩
    return ((bareValues text).map token, rest)

def lexEntries (start : Position) (cursor : Cursor) : Lexed :=
  let entry := (cursor.readWhile fun c => Text.isBlank c || c == ',').2
  match entry.peek with
  | none => .error (Cause.openAttributeList.diagnose start)
  | some ')' => .ok ([⟨.attributeEnd, entry.position⟩], entry.advance)
  | some _ =>
    match lexEntry entry with
    | .error diagnostic => .error diagnostic
    | .ok (tokens, rest) =>
      if rest.remaining < cursor.remaining then
        match lexEntries start rest with
        | .error diagnostic => .error diagnostic
        | .ok (more, finish) => .ok (tokens ++ more, finish)
      else
        .ok (tokens, rest)
termination_by cursor.remaining

def lexAttributes (cursor : Cursor) : Lexed := do
  let (tokens, rest) ← lexEntries cursor.position cursor.advance
  return (⟨.attributeStart, cursor.position⟩ :: tokens, rest)

def lexAttributes? (cursor : Cursor) : Lexed :=
  if cursor.peek == some '(' then lexAttributes cursor else .ok ([], cursor)

end PugTemplate.Token
