import PugTemplate.Cursor.Quoted

/-!
# Balanced expressions

An expression is a run of text in which brackets match and quoted strings are closed. It ends
before the first break character outside all brackets and strings, or at the end of the text.
-/

namespace PugTemplate.Cursor

inductive Imbalance where
  | stray (bracket : Char) (index : Nat)
  | unclosed (bracket : Char) (index : Nat)
  | unterminated (index : Nat)
  deriving DecidableEq, Repr

def isOpening (c : Char) : Bool :=
  c == '(' || c == '[' || c == '{'

def opening? : Char → Option Char
  | ')' => some '('
  | ']' => some '['
  | '}' => some '{'
  | _ => none

/-- The length of the expression at the front of a text. `opened` holds the open brackets,
innermost first, `skipping` the number of characters that the last item still covers, and
`index` the number of characters passed. -/
def balancedFrom (breaks : List Char) (opened : List (Char × Nat)) (skipping index : Nat) :
    List Char → Except Imbalance Nat
  | [] =>
    match opened with
    | [] => .ok index
    | (bracket, place) :: _ => .error (.unclosed bracket place)
  | c :: rest =>
    match skipping with
    | skipping + 1 => balancedFrom breaks opened skipping (index + 1) rest
    | 0 =>
      if opened.isEmpty && breaks.contains c then
        .ok index
      else if isQuote c then
        match quotedBody c rest with
        | some (_, length) => balancedFrom breaks opened length (index + 1) rest
        | none => .error (.unterminated index)
      else if c == '\\' then
        balancedFrom breaks opened 1 (index + 1) rest
      else if isOpening c then
        balancedFrom breaks ((c, index) :: opened) 0 (index + 1) rest
      else
        match opening? c with
        | none => balancedFrom breaks opened 0 (index + 1) rest
        | some expected =>
          match opened with
          | (bracket, _) :: outer =>
            if bracket == expected then
              balancedFrom breaks outer 0 (index + 1) rest
            else
              .error (.stray c index)
          | [] => .error (.stray c index)

def balancedLength (breaks : List Char) (text : List Char) : Except Imbalance Nat :=
  balancedFrom breaks [] 0 0 text

/-- Reads the expression at the cursor. A stray bracket stops the cursor in front of it, the
other failures at the end of the text. -/
def readExpression (cursor : Cursor) (breaks : List Char) :
    Except ReadFailure (List Char × Cursor) :=
  match balancedLength breaks cursor.rest with
  | .ok length => .ok (cursor.read length)
  | .error (.stray bracket index) =>
    let stop := cursor.skip index
    .error ⟨.unbalanced bracket stop.position, stop⟩
  | .error (.unclosed bracket index) =>
    .error ⟨.unbalanced bracket (cursor.skip index).position, cursor.skip cursor.remaining⟩
  | .error (.unterminated index) =>
    .error ⟨.unterminated (cursor.skip index).position, cursor.skip cursor.remaining⟩

end PugTemplate.Cursor
