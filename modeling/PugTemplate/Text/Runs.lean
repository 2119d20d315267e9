/-!
# Runs of characters

A character class beyond ASCII is told by its runs in the order of the code points. The numbers are in
turn those of the code points before a run and of its own.
-/

namespace PugTemplate.Text

def inRunsFrom (code : Nat) : Nat → List Nat → Bool
  | start, gap :: length :: more =>
    let first := start + gap
    (first ≤ code && code < first + length) || inRunsFrom code (first + length) more
  | _, _ => false

def inRuns (runs : List Nat) (c : Char) : Bool :=
  inRunsFrom c.toNat 0x80 runs

end PugTemplate.Text
