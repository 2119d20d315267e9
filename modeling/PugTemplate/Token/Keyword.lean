import PugTemplate.Cursor

/-!
# Keywords

The words that make a line a statement. A keyword counts only when a blank, the end of the line
or one of its own followers comes after it; otherwise the word is the name of a tag.
-/

namespace PugTemplate.Token

inductive Keyword where
  | doctype
  | extending
  | including
  | block
  | append
  | prepend
  | ifTrue
  | ifFalse
  | elseIf
  | otherwise
  | caseOf
  | branch
  | fallback
  | each
  | whileLoop
  | doLoop
  | forLoop
  | mixin
  deriving DecidableEq, Repr

namespace Keyword

def word : Keyword → String
  | doctype => "doctype"
  | extending => "extends"
  | including => "include"
  | block => "block"
  | append => "append"
  | prepend => "prepend"
  | ifTrue => "if"
  | ifFalse => "unless"
  | elseIf => "elseif"
  | otherwise => "else"
  | caseOf => "case"
  | branch => "when"
  | fallback => "default"
  | each => "each"
  | whileLoop => "while"
  | doLoop => "do"
  | forLoop => "for"
  | mixin => "mixin"

def follower? : Keyword → Option Char
  | including | fallback => some ':'
  | ifTrue | ifFalse | elseIf | whileLoop | forLoop => some '('
  | _ => none

def all : List Keyword :=
  [doctype, extending, including, block, append, prepend, ifTrue, ifFalse, elseIf, otherwise,
    caseOf, branch, fallback, each, whileLoop, doLoop, forLoop, mixin]

end Keyword

def atWord (cursor : Cursor) (word : String) (follower : Option Char) : Bool :=
  cursor.startsWith word &&
    match (cursor.rest.drop word.length).head? with
    | none => true
    | some c => Text.isSpacing c || Text.isLineEnd c || some c == follower

def keyword? (cursor : Cursor) : Option (Keyword × Cursor) :=
  (Keyword.all.find? fun keyword => atWord cursor keyword.word keyword.follower?).map fun keyword =>
    (keyword, cursor.skip keyword.word.length)

end PugTemplate.Token
