import PugTemplate.Cursor.Quoted
import PugTemplate.Text.Word

/-!
# Values in code

Expressions of the code that templates compile to are passed on as they are written. What is
asked of one is only whether its text is known when the template is compiled, and whether it is
a plain reference to a variable, which may be undefined when the code runs.
-/

namespace PugTemplate.Expression

inductive Value where
  /-- A quoted string or a bare word; the text is what it stands for. -/
  | literal (text : String)
  | truth (value : Bool)
  | null
  | number (digits : String)
  | reference (code : String)
  | code (code : String)
  deriving DecidableEq, Repr

inductive ReferenceState where
  | start
  | nameStart
  | name
  | index
  | indexed
  | arrow
  deriving DecidableEq, Repr

/-- A reference is a dollar sign and a name, followed by any number of indices in square
brackets and of names after arrows. -/
def ReferenceState.next : ReferenceState → Char → Option ReferenceState
  | start, c => if c == '$' then some nameStart else none
  | nameStart, c => if c.isAlpha || c == '_' then some name else none
  | name, c =>
    if Text.isWordChar c then some name
    else if c == '[' then some index
    else if c == '-' then some arrow
    else none
  | index, c => some (if c == ']' then indexed else index)
  | indexed, c =>
    if c == '[' then some index else if c == '-' then some arrow else none
  | arrow, c => if c == '>' then some nameStart else none

def isReference (text : List Char) : Bool :=
  match text.foldlM ReferenceState.next .start with
  | some .name | some .indexed => true
  | _ => false

def isDigits (text : List Char) : Bool :=
  !text.isEmpty && text.all Text.isDecimalDigit

/-- A number has a sign or none, digits, and perhaps a point with more digits. -/
def isNumber (text : List Char) : Bool :=
  let unsigned := if text.head? == some '-' then text.drop 1 else text
  match Text.fields (· == '.') unsigned with
  | [whole] => isDigits whole
  | [whole, fraction] => isDigits whole && isDigits fraction
  | _ => false

def isBareword (text : List Char) : Bool :=
  !text.isEmpty && text.all fun c => c.isAlphanum || c == '_' || c == '-'

def quoted? (text : List Char) : Option (List Char) :=
  match Cursor.readString ⟨text, .start⟩ with
  | .ok (some value, rest) => if rest.atEnd then some value else none
  | _ => none

def classifyTrimmed (text : List Char) : Value :=
  let written := String.ofList text
  match quoted? text with
  | some value => .literal (String.ofList value)
  | none =>
    let lower := Text.lowerAscii written
    if lower == "true" then .truth true
    else if lower == "false" then .truth false
    else if lower == "null" then .null
    else if isNumber text then .number written
    else if isReference text then .reference written
    else if isBareword text then .literal written
    else .code written

def classify (value : String) : Value :=
  classifyTrimmed (Text.trim value.toList)

def isVariable (value : String) : Bool :=
  isReference (Text.trim value.toList)

/-- A reference is guarded so that an undefined variable gives an empty string. -/
def guarded (value : String) (quote : Char) : String :=
  let code := Text.trimmed value
  if isVariable code then s!"isset({code}) ? {code} : {quote}{quote}" else code

def escapeCodeChar (quote c : Char) : List Char :=
  if c == quote || c == '\\' then ['\\', c] else [c]

def codeString (text : String) (quote : Char) : String :=
  String.ofList (quote :: text.toList.flatMap (escapeCodeChar quote) ++ [quote])

/-- The code for a value: literals are quoted anew, all else is kept. -/
def codeValue (value : String) (quote : Char) : String :=
  match classify value with
  | .literal text => codeString text quote
  | _ => Text.trimmed value

end PugTemplate.Expression
