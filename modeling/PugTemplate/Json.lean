/-!
# JSON values

Values of the data format, and the layout they are printed in: two blanks a level, one entry a
line. Numbers keep their written form.

An escape in a string may name half of a surrogate pair. Without the other half beside it no
character is meant, and the string has no value. It is `unpaired`, as is an object with such a
name, so that a reader can still pass over what it does not use.
-/

namespace PugTemplate

inductive Json where
  | null
  | bool (value : Bool)
  | number (written : String)
  | string (value : String)
  | array (items : List Json)
  | object (fields : List (String × Json))
  | unpaired
  deriving Repr

namespace Json

def ofNat (value : Nat) : Json :=
  number (toString value)

def ofOption : Option String → Json
  | some value => string value
  | none => null

def hexDigit (value : Nat) : Char :=
  (Nat.toDigits 16 value).headD '0'

def escapedChar (c : Char) : List Char :=
  if c == '"' || c == '\\' then ['\\', c]
  else if c == '\x08' then ['\\', 'b']
  else if c == '\x0c' then ['\\', 'f']
  else if c == '\n' then ['\\', 'n']
  else if c == '\r' then ['\\', 'r']
  else if c == '\t' then ['\\', 't']
  else if c.toNat < 0x20 then
    ['\\', 'u', '0', '0', hexDigit (c.toNat / 16), hexDigit (c.toNat % 16)]
  else [c]

def quote (text : String) : String :=
  String.ofList ('"' :: text.toList.flatMap escapedChar ++ ['"'])

def newLine (level : Nat) : String :=
  "\n" ++ String.ofList (List.replicate (2 * level) ' ')

def bracketed (opening closing : String) (level : Nat) (entries : List String) : String :=
  if entries.isEmpty then
    opening ++ closing
  else
    opening ++ newLine (level + 1) ++ ("," ++ newLine (level + 1)).intercalate entries ++
      newLine level ++ closing

mutual

/-- The value as text, with the lines inside it indented from `level` on. An unpaired value has
no text of its own and is written like an absent one. -/
def prettyAt (level : Nat) : Json → String
  | null => "null"
  | bool value => if value then "true" else "false"
  | number written => written
  | string value => quote value
  | array items => bracketed "[" "]" level (prettyItems (level + 1) items)
  | object fields => bracketed "\x7b" "\x7d" level (prettyFields (level + 1) fields)
  | unpaired => "null"

def prettyItems (level : Nat) : List Json → List String
  | [] => []
  | item :: more => prettyAt level item :: prettyItems level more

def prettyFields (level : Nat) : List (String × Json) → List String
  | [] => []
  | (name, value) :: more =>
    (quote name ++ ": " ++ prettyAt level value) :: prettyFields level more

end

def pretty (value : Json) : String :=
  prettyAt 0 value

end Json

end PugTemplate
