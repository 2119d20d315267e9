import PugTemplate.Cursor

/-!
# Quoted strings

A string runs from a quote character to the next one of its kind. Inside it a backslash protects
the character after it, so that neither a protected quote nor a protected backslash ends the
string.
-/

namespace PugTemplate.Cursor

inductive ReadError where
  | unbalanced (bracket : Char) (place : Position)
  | unterminated (place : Position)
  deriving DecidableEq, Repr

structure ReadFailure where
  error : ReadError
  stop : Cursor
  deriving DecidableEq, Repr

def ReadError.position : ReadError → Position
  | unbalanced _ place => place
  | unterminated place => place

def isQuote (c : Char) : Bool :=
  c == '"' || c == '\''

/-- Reads a string whose opening quote has been read: its value and the number of characters up
to and including the closing quote. In the value a protected quote stands for itself, and any
other backslash is kept with the character it protects. -/
def quotedBody (quote : Char) : List Char → Option (List Char × Nat)
  | [] => none
  | ['\\'] => none
  | '\\' :: c :: rest =>
    (quotedBody quote rest).map fun (value, length) =>
      (if c == quote then c :: value else '\\' :: c :: value, length + 2)
  | c :: rest =>
    if c == quote then
      some ([], 1)
    else
      (quotedBody quote rest).map fun (value, length) => (c :: value, length + 1)

/-- Reads the string at the cursor. There is no value where the cursor stands at no quote. -/
def readString (cursor : Cursor) : Except ReadFailure (Option (List Char) × Cursor) :=
  match cursor.rest with
  | quote :: rest =>
    if isQuote quote then
      match quotedBody quote rest with
      | some (value, length) => .ok (some value, cursor.skip (length + 1))
      | none => .error ⟨.unterminated cursor.position, cursor.skip cursor.remaining⟩
    else
      .ok (none, cursor)
  | [] => .ok (none, cursor)

end PugTemplate.Cursor
