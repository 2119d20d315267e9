/-!
# Positions in a template

A position counts lines from one and characters within the line from zero. Lines end at a line
feed, at a carriage return, or at the two together, which count as one line end.
-/

namespace PugTemplate

structure Position where
  line : Nat
  offset : Nat
  deriving DecidableEq, Repr, Inhabited

namespace Position

def start : Position :=
  ⟨1, 0⟩

/-- The position behind `c` when `rest` follows it. The carriage return of a pair is part of
the line end that the line feed completes, so it does not move the position. -/
def after (position : Position) (c : Char) (rest : List Char) : Position :=
  if c == '\n' then
    ⟨position.line + 1, 0⟩
  else if c == '\r' then
    if rest.head? == some '\n' then position else ⟨position.line + 1, 0⟩
  else
    ⟨position.line, position.offset + 1⟩

end Position

end PugTemplate
