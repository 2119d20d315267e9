import PugTemplate.Cursor

/-!
# Raw blocks

Text, code and comments may go on over the lines that are indented deeper than the line they
begin on. Those lines are taken as they are, without their common indentation.
-/

namespace PugTemplate.Token

/-- A line of the text with the length of the line end before it. -/
structure PhysicalLine where
  lead : Nat
  text : List Char
  deriving DecidableEq, Repr

namespace PhysicalLine

def isBlank (line : PhysicalLine) : Bool :=
  line.text.all Text.isBlank

def indentation (line : PhysicalLine) : Nat :=
  (line.text.takeWhile Text.isSpacing).length

def length (line : PhysicalLine) : Nat :=
  line.lead + line.text.length

end PhysicalLine

def followingLines (text : List Char) : List PhysicalLine :=
  match text with
  | [] => []
  | c :: rest =>
    let lead := Cursor.lineEndLength (c :: rest)
    if lead == 0 then
      []
    else
      let body := rest.drop (lead - 1)
      let line := body.takeWhile fun c => !Text.isLineEnd c
      ⟨lead, line⟩ :: followingLines (body.drop line.length)
termination_by text.length
decreasing_by simp only [List.length_drop, List.length_cons]; omega

/-- The lines of a block below a line of indentation `width`: all up to the first that is
neither blank nor deeper, without the blank ones at the end. -/
def blockLines (width : Nat) (lines : List PhysicalLine) : List PhysicalLine :=
  let deeper := lines.takeWhile fun line => line.isBlank || width < line.indentation
  (deeper.reverse.dropWhile PhysicalLine.isBlank).reverse

/-- The text of a block: blank lines are empty and the others lose the least indentation among
them. -/
def blockText (lines : List PhysicalLine) : List Char :=
  let written := lines.filter fun line => !line.isBlank
  let common := (written.map PhysicalLine.indentation).min?.getD 0
  ['\n'].intercalate
    (lines.map fun line => if line.isBlank then [] else line.text.drop common)

def readBlock (width : Nat) (cursor : Cursor) : Option String × Cursor :=
  match blockLines width (followingLines cursor.rest) with
  | [] => (none, cursor)
  | lines =>
    (some (String.ofList (blockText lines)),
      cursor.skip (lines.foldl (fun total line => total + line.length) 0))

end PugTemplate.Token
