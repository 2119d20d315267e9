import PugTemplate.Cursor.Balanced
import PugTemplate.Diagnostic.Cause

/-!
# Names and subjects

The small pieces that lines are made of: names of tags, mixins and variables, and the balanced
expressions that statements are about.
-/

namespace PugTemplate.Token

def isNameChar (c : Char) : Bool :=
  c.isAlphanum || c == '_' || c == '-'

def isIdentifierChar (c : Char) : Bool :=
  c.isAlphanum || c == '_'

def isIdentifierStart (c : Char) : Bool :=
  c.isAlpha || c == '_'

def isAttributeNameChar (c : Char) : Bool :=
  isNameChar c || c == ':' || c == '@' || c == '.' || c == '$'

def isPlainName (word : List Char) : Bool :=
  word.head?.any isIdentifierStart && word.all fun c => isNameChar c || c == ':'

def variableName? (name : List Char) : Option String :=
  let bare := if name.head? == some '$' then name.drop 1 else name
  if bare.head?.any isIdentifierStart && bare.all isIdentifierChar then
    some (String.ofList ('$' :: bare))
  else
    none

/-- The length of the tag name at the front of a text. A colon belongs to the name when a letter,
a digit or an underscore follows it. -/
def tagNameLength : List Char → Nat
  | [] => 0
  | c :: rest =>
    if isNameChar c || (c == ':' && rest.head?.any isIdentifierChar) then
      tagNameLength rest + 1
    else
      0

def readName (cursor : Cursor) (what : String) : Except Diagnostic (String × Cursor) :=
  let (name, rest) := cursor.readWhile isNameChar
  if name.isEmpty then
    .error ((Cause.missingName what).diagnose rest.position)
  else
    .ok (String.ofList name, rest)

def readBalanced (cursor : Cursor) (breaks : List Char) :
    Except Diagnostic (List Char × Cursor) :=
  match cursor.readExpression breaks with
  | .ok result => .ok result
  | .error failure => .error failure.error.diagnose

/-- Reads the rest of the line as the expression that `keyword` needs. It may go on over line
ends inside brackets and strings. -/
def readSubject (cursor : Cursor) (keyword : String) : Except Diagnostic (String × Cursor) := do
  let start := cursor.skipSpacing
  let (text, rest) ← readBalanced start ['\n', '\r']
  let subject := Text.trim text
  if subject.isEmpty then
    throw ((Cause.missingSubject keyword).diagnose start.position)
  return (String.ofList subject, rest)

def readPath (cursor : Cursor) : Except Diagnostic (String × Cursor) :=
  let start := cursor.skipSpacing
  let (line, rest) := start.readLine
  let raw := Text.trim line
  let path := match Cursor.readString ⟨raw, .start⟩ with
    | .ok (some unquoted, _) => unquoted
    | _ => raw
  if path.isEmpty then
    .error (Cause.missingPath.diagnose start.position)
  else
    .ok (String.ofList path, rest)

end PugTemplate.Token
