import PugTemplate.Json

/-!
# Reading JSON

A text is read as one JSON value with nothing but blanks around it. Arrays and objects may be
nested as deep as the text is long.
-/

namespace PugTemplate.Json

abbrev Read (α : Type) := Option (α × List Char)

def skipBlanks (text : List Char) : List Char :=
  text.dropWhile fun c => c == ' ' || c == '\t' || c == '\n' || c == '\r'

def hexValue? (c : Char) : Option Nat :=
  if c.isDigit then some (c.toNat - '0'.toNat)
  else if 'a' ≤ c && c ≤ 'f' then some (c.toNat - 'a'.toNat + 10)
  else if 'A' ≤ c && c ≤ 'F' then some (c.toNat - 'A'.toNat + 10)
  else none

def hexQuad? : List Char → Option Nat
  | first :: second :: third :: fourth :: _ => do
    let high := 16 * (← hexValue? first) + (← hexValue? second)
    let low := 16 * (← hexValue? third) + (← hexValue? fourth)
    return 256 * high + low
  | _ => none

def isHighSurrogate (unit : Nat) : Bool :=
  0xD800 ≤ unit && unit < 0xDC00

def isLowSurrogate (unit : Nat) : Bool :=
  0xDC00 ≤ unit && unit < 0xE000

def lowEscape? : List Char → Option Nat
  | '\\' :: 'u' :: rest => (hexQuad? rest).filter isLowSurrogate
  | _ => none

/-- The character of a numeric escape behind its letter, and the length of the escape from
there. A character beyond the first plane takes two escapes, and one of them alone stands for
none. -/
def unicodeEscape? (text : List Char) : Option (Option Char × Nat) := do
  let unit ← hexQuad? text
  if isHighSurrogate unit then
    match lowEscape? (text.drop 4) with
    | some low =>
      return (some (Char.ofNat (0x10000 + 0x400 * (unit - 0xD800) + (low - 0xDC00))), 10)
    | none => return (none, 4)
  else if isLowSurrogate unit then
    return (none, 4)
  else
    return (some (Char.ofNat unit), 4)

/-- The character that an escape stands for, if there is one, and the length of the escape behind
its backslash. -/
def escape? : List Char → Option (Option Char × Nat)
  | [] => none
  | c :: rest =>
    if c == '"' || c == '\\' || c == '/' then some (some c, 1)
    else if c == 'b' then some (some '\x08', 1)
    else if c == 'f' then some (some '\x0c', 1)
    else if c == 'n' then some (some '\n', 1)
    else if c == 'r' then some (some '\r', 1)
    else if c == 't' then some (some '\t', 1)
    else if c == 'u' then (unicodeEscape? rest).map fun (value, length) => (value, length + 1)
    else none

def joined (first : Option Char) (more : Option (List Char)) : Option (List Char) :=
  first.bind fun c => more.map (c :: ·)

/-- Reads a string behind its opening quote. It has no value if a surrogate in it is unpaired. -/
def stringBody (text : List Char) : Read (Option (List Char)) :=
  match text with
  | [] => none
  | c :: rest =>
    if c == '"' then
      some (some [], rest)
    else if c == '\\' then
      match escape? rest with
      | none => none
      | some (value, length) =>
        (stringBody (rest.drop length)).map fun (more, finish) => (joined value more, finish)
    else if c.toNat < 0x20 then
      none
    else
      (stringBody rest).map fun (more, finish) => (joined (some c) more, finish)
termination_by text.length
decreasing_by all_goals simp only [List.length_drop, List.length_cons]; omega

def digits (text : List Char) : List Char × List Char :=
  (text.takeWhile Char.isDigit, text.dropWhile Char.isDigit)

def fraction? (text : List Char) : Read (List Char) :=
  match text with
  | '.' :: rest =>
    let (figures, finish) := digits rest
    if figures.isEmpty then none else some ('.' :: figures, finish)
  | _ => some ([], text)

def exponent? (text : List Char) : Read (List Char) :=
  match text with
  | c :: rest =>
    if c == 'e' || c == 'E' then
      let sign := rest.takeWhile (fun c => c == '+' || c == '-') |>.take 1
      let (figures, finish) := digits (rest.drop sign.length)
      if figures.isEmpty then none else some (c :: sign ++ figures, finish)
    else
      some ([], text)
  | [] => some ([], text)

/-- Reads a number. Its first digit is zero only if it is the only one before the point. -/
def number? (text : List Char) : Option (Json × List Char) := do
  let sign := if text.head? == some '-' then ['-'] else []
  let (whole, rest) := digits (text.drop sign.length)
  if whole.isEmpty || (whole.head? == some '0' && whole.length > 1) then
    none
  let (fraction, rest) ← fraction? rest
  let (exponent, rest) ← exponent? rest
  return (number (String.ofList (sign ++ whole ++ fraction ++ exponent)), rest)

/-- Reads at most `limit` entries separated by commas up to the closing character. -/
def entries {α : Type} (entry : List Char → Read α) (close : Char) :
    Nat → List Char → Read (List α)
  | 0, _ => none
  | limit + 1, text =>
    match entry text with
    | none => none
    | some (first, rest) =>
      match skipBlanks rest with
      | [] => none
      | c :: next =>
        if c == close then
          some ([first], next)
        else if c == ',' then
          (entries entry close limit next).map fun (more, finish) => (first :: more, finish)
        else
          none

def entriesOrNone {α : Type} (entry : List Char → Read α) (close : Char) (limit : Nat)
    (text : List Char) : Read (List α) :=
  match skipBlanks text with
  | c :: rest => if c == close then some ([], rest) else entries entry close limit text
  | [] => none

def member (value : List Char → Read Json) (text : List Char) :
    Option ((Option String × Json) × List Char) :=
  match skipBlanks text with
  | '"' :: rest => do
    let (name, rest) ← stringBody rest
    match skipBlanks rest with
    | ':' :: rest => do
      let (content, finish) ← value rest
      return ((name.map String.ofList, content), finish)
    | _ => none
  | _ => none

def ofString : Option (List Char) → Json
  | some value => string (String.ofList value)
  | none => unpaired

def ofFields (fields : List (Option String × Json)) : Json :=
  match fields.mapM fun (name, content) => name.map fun name => (name, content) with
  | some fields => object fields
  | none => unpaired

/-- Reads a value of at most `limit` levels. No bound is met where `limit` is above the length of
the text, since every level and every entry takes a character. -/
def value : Nat → List Char → Read Json
  | 0, _ => none
  | limit + 1, text =>
    match skipBlanks text with
    | [] => none
    | c :: rest =>
      if c == '[' then
        (entriesOrNone (value limit) ']' limit rest).map fun (items, finish) =>
          (array items, finish)
      else if c == '{' then
        (entriesOrNone (member (value limit)) '}' limit rest).map fun (fields, finish) =>
          (ofFields fields, finish)
      else if c == '"' then
        (stringBody rest).map fun (text, finish) => (ofString text, finish)
      else if "null".toList.isPrefixOf (c :: rest) then some (null, rest.drop 3)
      else if "true".toList.isPrefixOf (c :: rest) then some (bool true, rest.drop 3)
      else if "false".toList.isPrefixOf (c :: rest) then some (bool false, rest.drop 4)
      else number? (c :: rest)

def parse? (text : String) : Option Json :=
  match value (text.length + 1) text.toList with
  | some (content, rest) => if (skipBlanks rest).isEmpty then some content else none
  | none => none

end PugTemplate.Json
