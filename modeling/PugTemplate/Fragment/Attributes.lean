import PugTemplate.Document.Tree
import PugTemplate.Filter
import PugTemplate.Format

/-!
# Attributes of elements

The attributes of an element are merged before they are written: the last value of a name
counts, except that the values of `class` and `style` are joined. Arrays of attributes that are
only known when the code runs come after the others.
-/

namespace PugTemplate

structure Target where
  format : Format
  filters : Filters
  dialect : Dialect
  charset : String

namespace Target

def escapeCode (target : Target) (code : String) : String :=
  "htmlspecialchars(" ++ code ++ ", ENT_QUOTES, " ++ target.format.codeString target.charset ++ ")"

def echoCode (target : Target) (echo : Echo) : String :=
  let code :=
    if echo.checked then Expression.guarded echo.value target.format.codeQuoteStyle
    else Text.trimmed echo.value
  if echo.escaped then target.escapeCode code else code

end Target

inductive ValuePart where
  | literal (text : String)
  | code (code : String)
  deriving DecidableEq, Repr

inductive MergedValue where
  | flag
  | flagIf (condition : String)
  | parts (parts : List ValuePart)
  deriving DecidableEq, Repr

structure MergedAttribute where
  name : String
  value : MergedValue
  deriving DecidableEq, Repr

namespace MergedAttribute

/-- What stands between joined values of an attribute, for those that are joined. -/
def separator? (name : String) : Option String :=
  if name == "class" then some " " else if name == "style" then some "; " else none

/-- The code for a dynamic value. The value of a class may be an array. -/
def valueCode (target : Target) (name code : String) (escaped checked : Bool) : String :=
  let guarded :=
    if checked then Expression.guarded code target.format.codeQuoteStyle else code
  let joined :=
    if name == "class" then
      "implode(" ++ target.format.codeString " " ++ ", (array) (" ++ guarded ++ "))"
    else
      guarded
  if escaped then target.escapeCode joined else joined

def flagCondition (code : String) (checked : Bool) : String :=
  if checked && Expression.isVariable code then "!empty(" ++ code ++ ")" else code

/-- What a written value means for an attribute; there is none for `false` and `null`. -/
def value? (target : Target) (name value : String) (escaped checked : Bool) :
    Option MergedValue :=
  match Expression.classify value with
  | .truth false | .null => none
  | .truth true => some .flag
  | .literal text => some (.parts [.literal (if escaped then Markup.escape text else text)])
  | .number digits => some (.parts [.literal digits])
  | .reference code | .code code =>
    if Markup.isBoolean name then
      some (.flagIf (flagCondition code checked))
    else
      some (.parts [.code (valueCode target name code escaped checked)])

def combine (name : String) (old new : MergedValue) : MergedValue :=
  match old, separator? name, new with
  | .parts parts, some separator, .parts more => .parts (parts ++ .literal separator :: more)
  | _, _, _ => new

def set (name : String) (value : MergedValue) : List MergedAttribute → List MergedAttribute
  | [] => [⟨name, value⟩]
  | entry :: more =>
    if entry.name == name then ⟨name, combine name entry.value value⟩ :: more
    else entry :: set name value more

/-- Takes one named value into the attributes. A value that means none removes the attribute,
unless its values are joined. -/
def merge (target : Target) (merged : List MergedAttribute) (name value : String)
    (escaped checked : Bool) : List MergedAttribute :=
  match value? target name value escaped checked with
  | some incoming => set name incoming merged
  | none =>
    if (separator? name).isSome then merged else merged.filter fun entry => entry.name != name

end MergedAttribute

/-- Attributes that are merged, and the code of the arrays to spread behind them. -/
structure AttributeSet where
  merged : List MergedAttribute
  spreads : List String
  deriving DecidableEq, Repr

namespace AttributeSet

def empty : AttributeSet :=
  ⟨[], []⟩

def argumentCodes (arguments : List Tree) : List String :=
  arguments.filterMap fun argument =>
    match argument.kind with
    | .attr entry => entry.value.map Text.trimmed
    | _ => none

def add (target : Target) (attributes : AttributeSet) (tree : Tree) : AttributeSet :=
  let merge (name value : String) (escaped checked : Bool) : AttributeSet :=
    { attributes with
      merged := MergedAttribute.merge target attributes.merged name value escaped checked }
  match tree.kind with
  | .attr ⟨some name, value, escaped, checked⟩ => merge name (value.getD "true") escaped checked
  | .attr ⟨none, some value, _, _⟩ =>
    match Expression.classify value with
    | .literal name => merge name "true" true true
    | _ => { attributes with spreads := attributes.spreads ++ [Text.trimmed value] }
  | .assignment _ =>
    { attributes with spreads := attributes.spreads ++ argumentCodes tree.attributes }
  | _ => attributes

def ofTrees (target : Target) (trees : List Tree) : AttributeSet :=
  trees.foldl (add target) empty

/-- An attribute without a value, which the dialects of XML write as its own name. -/
def flagText (target : Target) (name : String) : String :=
  match target.dialect with
  | .html => " " ++ name
  | .xhtml | .xml => " " ++ name ++ "=" ++ target.format.quote name

def partText : ValuePart → String
  | .literal text => text
  | .code code => "<?=" ++ code ++ "?>"

def mergedText (target : Target) (entry : MergedAttribute) : String :=
  match entry.value with
  | .flag => flagText target entry.name
  | .flagIf condition =>
    s!"<?php if ({condition}) \x7b?>" ++ flagText target entry.name ++ "<?php \x7d?>"
  | .parts parts =>
    " " ++ entry.name ++ "=" ++ target.format.quote (String.join (parts.map partText))

def spreadText (target : Target) (code : String) : String :=
  let quote := String.ofList [target.format.quoteStyle]
  let literal := target.format.codeString
  s!"<?php foreach ((array) ({code}) as $__name => $__value) \x7b echo " ++ literal " " ++
    " . $__name . " ++ literal ("=" ++ quote) ++ " . " ++ target.escapeCode "$__value" ++ " . " ++
    literal quote ++ "; \x7d?>"

def text (target : Target) (attributes : AttributeSet) : String :=
  String.join (attributes.merged.map (mergedText target)) ++
    String.join (attributes.spreads.map (spreadText target))

end AttributeSet

end PugTemplate
