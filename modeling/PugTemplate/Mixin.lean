import PugTemplate.Expression

/-!
# Parameters and arguments of mixins

A call of a mixin binds the arguments to the parameters: those without a name in order, those
with a name by name, and what is left without a name to the parameter that takes the rest.
Parameters that get nothing take their default, if they have one. Named arguments that match no
open parameter are collected as attributes.
-/

namespace PugTemplate

namespace Mixin

/-- A parameter `$name`, `$name = default` or `...$rest`. -/
structure Parameter where
  name : String
  standard : Option String
  variadic : Bool
  deriving DecidableEq, Repr

structure Arguments where
  positional : List String
  named : List (String × String)
  spreads : List String
  deriving DecidableEq, Repr

def bareName (name : String) : String :=
  String.ofList (name.toList.dropWhile (· == '$'))

namespace Parameter

def ofText (text : String) (standard : Option String) : Parameter :=
  let written := Text.trim text.toList
  let variadic := "...".toList.isPrefixOf written
  let name := if variadic then Text.trim (written.drop 3) else written
  ⟨String.ofList (if name.head? == some '$' then name else '$' :: name), standard, variadic⟩

def isNamed (parameter : Parameter) (name : String) : Bool :=
  !parameter.variadic && bareName parameter.name == bareName name

end Parameter

abbrev Slot := Parameter × Option String

/-- Binds arguments in order up to a parameter that takes the rest, and gives the arguments that
are left. -/
def fillPositional : List Parameter → List String → List Slot × List String
  | [], values => ([], values)
  | parameters, [] => (parameters.map fun parameter => (parameter, none), [])
  | parameter :: more, value :: values =>
    if parameter.variadic then
      ((parameter :: more).map fun parameter => (parameter, none), value :: values)
    else
      let (slots, rest) := fillPositional more values
      ((parameter, some value) :: slots, rest)

/-- Binds a value to the first parameter of a name, if that is still open. -/
def fillNamed (name value : String) : List Slot → Option (List Slot)
  | [] => none
  | (parameter, bound) :: more =>
    if parameter.isNamed name then
      if bound.isNone then some ((parameter, some value) :: more) else none
    else
      (fillNamed name value more).map ((parameter, bound) :: ·)

/-- Binds named arguments in order, and gives those that found no open parameter. -/
def fillAllNamed (quote : Char) (slots : List Slot) :
    List (String × String) → List Slot × List (String × String)
  | [] => (slots, [])
  | (name, value) :: more =>
    match fillNamed name (Expression.codeValue value quote) slots with
    | some filled => fillAllNamed quote filled more
    | none =>
      let (filled, extra) := fillAllNamed quote slots more
      (filled, (name, value) :: extra)

def fillRest (rest : List String) : List Slot → List Slot
  | [] => []
  | (parameter, bound) :: more =>
    if parameter.variadic then
      (parameter, some ("[" ++ ", ".intercalate rest ++ "]")) :: more
    else
      (parameter, bound) :: fillRest rest more

def fillStandard (quote : Char) (slots : List Slot) : List Slot :=
  slots.map fun (parameter, bound) =>
    (parameter, bound <|> parameter.standard.map fun value => Expression.codeValue value quote)

def fill (parameters : List Parameter) (arguments : Arguments) (quote : Char) :
    List Slot × List (String × String) :=
  let values := arguments.positional.map fun value => Expression.codeValue value quote
  let (positional, rest) := fillPositional parameters values
  let (named, extra) := fillAllNamed quote positional arguments.named
  (fillStandard quote (fillRest rest named), extra)

/-- Attributes by name, with all the values that are joined in each. -/
abbrev ValueLists := List (String × List String)

def joinsValues (name : String) : Bool :=
  name == "class" || name == "style"

/-- Adds a value. Where values are not joined, the last one counts. -/
def addValue (name value : String) : ValueLists → ValueLists
  | [] => [(name, [value])]
  | (other, values) :: more =>
    if other == name then
      (other, if joinsValues name then values ++ [value] else [value]) :: more
    else
      (other, values) :: addValue name value more

/-- The text of a value that is known at compile time. -/
def knownText? (value : String) : Option String :=
  match Expression.classify value with
  | .literal text => some text
  | .number digits => some digits
  | _ => none

/-- The code for the values of one attribute: one string if all are known, a concatenation
otherwise. -/
def joinValues (values : List String) (separator : String) (quote : Char) : String :=
  match values.mapM knownText? with
  | some texts => Expression.codeString (separator.intercalate texts) quote
  | none =>
    (" . " ++ Expression.codeString separator quote ++ " . ").intercalate
      (values.map fun value => Expression.codeValue value quote)

def attributesCode (extra : List (String × String)) (spreads : List String) (quote : Char) :
    String :=
  let lists := extra.foldl (fun lists (name, value) => addValue name value lists) []
  let entries := lists.map fun (name, values) =>
    Expression.codeString name quote ++ " => " ++
      joinValues values (if name == "style" then "; " else " ") quote
  let array := "[" ++ ", ".intercalate entries ++ "]"
  if spreads.isEmpty then
    array
  else
    s!"array_merge({array}, " ++ ", ".intercalate (spreads.map fun code => s!"(array) ({code})") ++
      ")"

/-- The variables that a call binds, with the code for their values. The attributes are bound if
there are any or if the mixin asks for them. -/
def bindings (parameters : List Parameter) (arguments : Arguments) (readsAttributes : Bool)
    (quote : Char) : List (String × String) :=
  let (slots, extra) := fill parameters arguments quote
  let bound := slots.filterMap fun (parameter, value) => value.map fun code => (parameter.name, code)
  if !extra.isEmpty || !arguments.spreads.isEmpty || readsAttributes then
    bound ++ [("$attributes", attributesCode extra arguments.spreads quote)]
  else
    bound

def stashName (number : Nat) : String :=
  s!"$__mixin{number}"

def saveCode (names : List String) (stash : String) (quote : Char) : String :=
  let keys := names.map fun name => Expression.codeString (bareName name) quote
  s!"{stash} = array_intersect_key(get_defined_vars(), array_flip([" ++ ", ".intercalate keys ++
    "]));"

/-- Puts the caller's values back; variables that it did not have are removed. -/
def restoreCode (names : List String) (stash : String) : String :=
  "unset(" ++ ", ".intercalate names ++ s!"); extract({stash}); unset({stash});"

end Mixin

end PugTemplate
