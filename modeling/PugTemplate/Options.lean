import PugTemplate.Filter
import PugTemplate.Format
import PugTemplate.Json

/-!
# Options

The options of the compiler and their form in JSON. Every option has a standard value, and
entries that are not known are passed over. An entry of the wrong type, or one that is given
twice, makes the options invalid. The values may also be listed in the order of the fields.
-/

namespace PugTemplate

structure Options where
  paths : List Path
  extensions : List String
  format : Format
  dialect : Option Dialect
  maxDepth : Nat
  maxMixinDepth : Nat
  charset : String
  filterMap : NameMap
  deriving DecidableEq, Repr

def Options.standard : Options where
  paths := []
  extensions := [".jade", ".pug"]
  format := .standard
  dialect := none
  maxDepth := 16
  maxMixinDepth := 32
  charset := "UTF-8"
  filterMap := NameMap.ofList [("css", "css"), ("js", "js"), ("php", "php"), ("txt", "plain")]

namespace Json

def asString? : Json → Option String
  | string value => some value
  | _ => none

def asBool? : Json → Option Bool
  | bool value => some value
  | _ => none

/-- A choice between names: the name itself, or an object that has it as its only field and holds
nothing there. -/
def asChoice? : Json → Option String
  | string value => some value
  | object [(name, null)] => some name
  | _ => none

def asChar? : Json → Option Char
  | string value =>
    match value.toList with
    | [c] => some c
    | _ => none
  | _ => none

/-- A number without sign, point and exponent that fits 64 bits. -/
def asNat? : Json → Option Nat
  | number written =>
    let figures := written.toList
    if !figures.isEmpty && figures.all Char.isDigit then
      let value := figures.foldl (fun total c => 10 * total + (c.toNat - '0'.toNat)) 0
      if value < UInt64.size then some value else none
    else
      none
  | _ => none

def asStrings? : Json → Option (List String)
  | array items => items.mapM asString?
  | _ => none

def asPaths? (json : Json) : Option (List Path) :=
  json.asStrings?.map fun texts => texts.map Path.mk

def asNameMap? : Json → Option NameMap
  | object fields => do
    let entries ← fields.mapM fun (name, value) => do return (name, ← asString? value)
    return NameMap.ofList entries
  | _ => none

/-- The value of an entry. An object has it at most once under its name, and a list has it at its
place unless the list ends before. -/
def entryOr {α : Type} (json : Json) (place : Nat) (name : String) (standard : α)
    (read : Json → Option α) : Option α :=
  match json with
  | object fields =>
    match fields.filter fun field => field.1 == name with
    | [] => some standard
    | [(_, value)] => read value
    | _ => none
  | array items => items[place]?.elim (some standard) read
  | _ => none

/-- Whether a value can hold `count` entries: an object can, and a list that is not longer. -/
def holdsEntries (count : Nat) : Json → Bool
  | object _ => true
  | array items => items.length ≤ count
  | _ => false

end Json

namespace Dialect

def name : Dialect → String
  | html => "html"
  | xhtml => "xhtml"
  | xml => "xml"

def ofName? (text : String) : Option Dialect :=
  [html, xhtml, xml].find? fun dialect => dialect.name == text

def ofJson? (json : Json) : Option Dialect :=
  json.asChoice?.bind ofName?

end Dialect

namespace IndentStyle

def name : IndentStyle → String
  | space => "space"
  | tab => "tab"

def ofJson? (json : Json) : Option IndentStyle :=
  json.asChoice?.bind fun text => [space, tab].find? fun style => style.name == text

end IndentStyle

namespace Format

def ofJson? (json : Json) : Option Format := do
  let base := standard
  if !json.holdsEntries 6 then
    none
  return {
    indentStyle := ← json.entryOr 0 "indent_style" base.indentStyle IndentStyle.ofJson?
    indentWidth := ← json.entryOr 1 "indent_width" base.indentWidth Json.asNat?
    lineBreak := ← json.entryOr 2 "line_break" base.lineBreak Json.asString?
    quoteStyle := ← json.entryOr 3 "quote_style" base.quoteStyle Json.asChar?
    codeQuoteStyle := ← json.entryOr 4 "code_quote_style" base.codeQuoteStyle Json.asChar?
    pretty := ← json.entryOr 5 "pretty" base.pretty Json.asBool? }

def toJson (format : Format) : Json :=
  .object [("indent_style", .string format.indentStyle.name),
    ("indent_width", .ofNat format.indentWidth),
    ("line_break", .string format.lineBreak),
    ("quote_style", .string (String.ofList [format.quoteStyle])),
    ("code_quote_style", .string (String.ofList [format.codeQuoteStyle])),
    ("pretty", .bool format.pretty)]

end Format

namespace Options

def dialectOfJson? : Json → Option (Option Dialect)
  | .null => some none
  | json => (Dialect.ofJson? json).map some

def ofJson? (json : Json) : Option Options := do
  let base := standard
  if !json.holdsEntries 8 then
    none
  return {
    paths := ← json.entryOr 0 "paths" base.paths Json.asPaths?
    extensions := ← json.entryOr 1 "extensions" base.extensions Json.asStrings?
    format := ← json.entryOr 2 "formatter" base.format Format.ofJson?
    dialect := ← json.entryOr 3 "mode" base.dialect dialectOfJson?
    maxDepth := ← json.entryOr 4 "max_depth" base.maxDepth Json.asNat?
    maxMixinDepth := ← json.entryOr 5 "max_mixin_depth" base.maxMixinDepth Json.asNat?
    charset := ← json.entryOr 6 "escape_charset" base.charset Json.asString?
    filterMap := ← json.entryOr 7 "filter_map" base.filterMap Json.asNameMap? }

def toJson (options : Options) : Json :=
  .object [("paths", .array (options.paths.map fun path => .string path.text)),
    ("extensions", .array (options.extensions.map .string)),
    ("formatter", options.format.toJson),
    ("mode", .ofOption (options.dialect.map Dialect.name)),
    ("max_depth", .ofNat options.maxDepth),
    ("max_mixin_depth", .ofNat options.maxMixinDepth),
    ("escape_charset", .string options.charset),
    ("filter_map", .object (options.filterMap.map fun (name, value) => (name, .string value)))]

end Options

end PugTemplate
