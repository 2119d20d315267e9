import PugTemplate.Position
import PugTemplate.Text.Blank

/-!
# Reading position in a text

A cursor is the text still to be read together with the position of its first character. Every
read is `skip` by some number of characters, so a cursor's position depends only on how much has
been read. Going back to an earlier place is using the earlier cursor again.
-/

namespace PugTemplate

structure Cursor where
  rest : List Char
  position : Position
  deriving DecidableEq, Repr, Inhabited

namespace Cursor

def ofText (text : String) : Cursor :=
  ⟨text.toList, .start⟩

def remaining (cursor : Cursor) : Nat :=
  cursor.rest.length

def peek (cursor : Cursor) : Option Char :=
  cursor.rest.head?

/-- The cursor behind the next character; at the end of the text nothing changes. -/
def advance (cursor : Cursor) : Cursor :=
  match cursor.rest with
  | [] => cursor
  | c :: rest => ⟨rest, cursor.position.after c rest⟩

def skip : Nat → Cursor → Cursor
  | 0, cursor => cursor
  | count + 1, cursor => skip count cursor.advance

def read (cursor : Cursor) (count : Nat) : List Char × Cursor :=
  (cursor.rest.take count, cursor.skip count)

/-- What lies between a cursor and a later one on the same text. -/
def upTo (cursor later : Cursor) : List Char :=
  cursor.rest.take (cursor.remaining - later.remaining)

def atEnd (cursor : Cursor) : Bool :=
  cursor.rest.isEmpty

def atNewLine (cursor : Cursor) : Bool :=
  cursor.peek.any Text.isLineEnd

def atLineEnd (cursor : Cursor) : Bool :=
  cursor.atEnd || cursor.atNewLine

def startsWith (cursor : Cursor) (word : String) : Bool :=
  word.toList.isPrefixOf cursor.rest

def consume? (cursor : Cursor) (word : String) : Option Cursor :=
  if cursor.startsWith word then some (cursor.skip word.length) else none

def readWhile (cursor : Cursor) (keep : Char → Bool) : List Char × Cursor :=
  cursor.read (cursor.rest.takeWhile keep).length

def readUntil (cursor : Cursor) (stop : Char → Bool) : List Char × Cursor :=
  cursor.readWhile fun c => !stop c

def readLine (cursor : Cursor) : List Char × Cursor :=
  cursor.readUntil Text.isLineEnd

def skipSpacing (cursor : Cursor) : Cursor :=
  (cursor.readWhile Text.isSpacing).2

def lineEndLength : List Char → Nat
  | '\r' :: '\n' :: _ => 2
  | '\n' :: _ => 1
  | '\r' :: _ => 1
  | _ => 0

def skipLineEnd (cursor : Cursor) : Cursor :=
  cursor.skip (lineEndLength cursor.rest)

end Cursor

end PugTemplate
