/-!
# Blank characters and lines

Template text is trimmed and split into words by the Unicode property White_Space, and into
lines at line feeds. All functions work on the characters of a text; `trimmed` is the form for
strings.
-/

namespace PugTemplate.Text

/-- The characters with the property White_Space. -/
def isBlank (c : Char) : Bool :=
  let code := c.toNat
  (9 ≤ code && code ≤ 13) || code == 0x20 || code == 0x85 || code == 0xA0 || code == 0x1680 ||
    (0x2000 ≤ code && code ≤ 0x200A) || code == 0x2028 || code == 0x2029 || code == 0x202F ||
    code == 0x205F || code == 0x3000

def isSpacing (c : Char) : Bool :=
  c == ' ' || c == '\t'

def isLineEnd (c : Char) : Bool :=
  c == '\n' || c == '\r'

def trimStart (text : List Char) : List Char :=
  text.dropWhile isBlank

def trimEnd (text : List Char) : List Char :=
  (text.reverse.dropWhile isBlank).reverse

def trim (text : List Char) : List Char :=
  trimEnd (trimStart text)

def trimmed (text : String) : String :=
  String.ofList (trim text.toList)

/-- The pieces between the characters that satisfy `separates`, one more than there are of
those. -/
def fields (separates : Char → Bool) : List Char → List (List Char)
  | [] => [[]]
  | c :: rest =>
    if separates c then
      [] :: fields separates rest
    else
      match fields separates rest with
      | [] => [[c]]
      | first :: more => (c :: first) :: more

def words (text : List Char) : List (List Char) :=
  (fields isBlank text).filter fun word => !word.isEmpty

def dropReturn (piece : List Char) : List Char :=
  if piece.getLast? == some '\r' then piece.dropLast else piece

/-- Lines as line feeds end them. A carriage return before the line feed belongs to the line
end, and an empty piece after the last line feed is not a line. -/
def linesOfFields : List (List Char) → List (List Char)
  | [] => []
  | [last] => if last.isEmpty then [] else [last]
  | piece :: more => dropReturn piece :: linesOfFields more

def lines (text : List Char) : List (List Char) :=
  linesOfFields (fields (· == '\n') text)

def splitOnce (word : List Char) : List Char → Option (List Char × List Char)
  | [] => if word.isEmpty then some ([], []) else none
  | c :: rest =>
    if word.isPrefixOf (c :: rest) then
      some ([], (c :: rest).drop word.length)
    else
      (splitOnce word rest).map fun (before, after) => (c :: before, after)

def padLeft (width : Nat) (text : String) : String :=
  String.ofList (List.replicate (width - text.length) ' ') ++ text

def padRight (width : Nat) (text : String) : String :=
  text ++ String.ofList (List.replicate (width - text.length) ' ')

def lowerAscii (text : String) : String :=
  String.ofList (text.toList.map Char.toLower)

end PugTemplate.Text
