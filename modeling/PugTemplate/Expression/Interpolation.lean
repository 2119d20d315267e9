import PugTemplate.Cursor.Balanced
import PugTemplate.Diagnostic.Cause

/-!
# Interpolated text

Text may hold expressions between braces and inline tags between square brackets. A backslash in
front of such a sequence keeps it as text. The text is first taken apart with places counted in
characters, and a fault gets its position in the template afterwards.
-/

namespace PugTemplate.Interpolation

inductive Segment where
  | text (value : String)
  | echo (value : String) (escaped : Bool)
  | tag (snippet : String)
  deriving DecidableEq, Repr

inductive Fault where
  | unclosed (close : Char) (index : Nat)
  | vacant (index : Nat)
  /-- An imbalance of the text between the delimiters, which begins at `base`. -/
  | imbalance (inner : Cursor.Imbalance) (base : Nat)
  deriving DecidableEq, Repr

def addChar (c : Char) : List Segment → List Segment
  | .text value :: more => .text (String.ofList [c] ++ value) :: more
  | segments => .text (String.ofList [c]) :: segments

def opensBody (c : Char) : Bool :=
  c == '{' || c == '['

def close? (sigil bracket : Char) : Option Char :=
  if (sigil == '#' || sigil == '!') && bracket == '{' then some '}'
  else if sigil == '#' && bracket == '[' then some ']'
  else none

def bodySegment (sigil close : Char) (body : List Char) : Segment :=
  if close == ']' then .tag (String.ofList body) else .echo (String.ofList body) (sigil == '#')

/-- Takes a text apart from the place `index` on, after `skipping` characters that the last
segment covers. -/
def segmentsFrom (skipping index : Nat) : List Char → Except Fault (List Segment)
  | [] => .ok []
  | c :: rest =>
    match skipping with
    | skipping + 1 => segmentsFrom skipping (index + 1) rest
    | 0 =>
      match c, rest with
      | '\\', sigil :: bracket :: _ =>
        if (sigil == '#' || sigil == '!') && opensBody bracket then
          (segmentsFrom 1 (index + 1) rest).map (addChar sigil)
        else
          (segmentsFrom 0 (index + 1) rest).map (addChar c)
      | _, bracket :: body =>
        match close? c bracket with
        | none => (segmentsFrom 0 (index + 1) rest).map (addChar c)
        | some close =>
          match Cursor.balancedLength [close] body with
          | .error inner => .error (.imbalance inner (index + 2))
          | .ok length =>
            if (body.drop length).head? != some close then
              .error (.unclosed close index)
            else
              let inner := Text.trim (body.take length)
              if inner.isEmpty then
                .error (.vacant index)
              else
                (segmentsFrom (length + 2) (index + 1) rest).map (bodySegment c close inner :: ·)
      | _, [] => .ok [.text (String.ofList [c])]

def segments (text : List Char) : Except Fault (List Segment) :=
  segmentsFrom 0 0 text

def Fault.diagnose (cursor : Cursor) : Fault → Diagnostic
  | unclosed close index =>
    (Cause.openInterpolation close).diagnose (cursor.skip index).position
  | vacant index => Cause.emptyInterpolation.diagnose (cursor.skip index).position
  | imbalance inner base =>
    match inner with
    | .stray bracket index | .unclosed bracket index =>
      (Cause.unbalanced bracket).diagnose (cursor.skip (base + index)).position
    | .unterminated index =>
      Cause.unterminatedString.diagnose (cursor.skip (base + index)).position

/-- The segments of a text that stands at `position` of its template. -/
def interpolate (text : String) (position : Position) : Except Diagnostic (List Segment) :=
  match segments text.toList with
  | .ok pieces => .ok pieces
  | .error fault => .error (fault.diagnose ⟨text.toList, position⟩)

end PugTemplate.Interpolation
