import PugTemplate.Markup
import PugTemplate.NameMap
import PugTemplate.Path

/-!
# Filters

A filter turns the text of a block or of an included file into code that is written as it is.
Filters are known by name, and some take options.
-/

namespace PugTemplate

structure Filter.Context where
  dialect : Dialect
  pretty : Bool
  path : Option Path
  deriving DecidableEq, Repr

abbrev Filter := String → Filter.Context → NameMap → String

namespace Filter

def plain : Filter := fun text _ _ => text

def cdata : Filter := fun text _ _ => s!"<![CDATA[{text}]]>"

def code : Filter := fun text _ _ => "<?php " ++ String.ofList (Text.trimEnd text.toList) ++ "?>"

/-- Puts the text into an element. Outside HTML the element names its type, and the options
become attributes. -/
def element (tag type : String) : Filter := fun text context options =>
  let typed := if context.dialect == .html then "" else s!" type=\"{type}\""
  let attributes := options.map fun (name, value) => s!" {name}=\"" ++ Markup.escape value ++ "\""
  let lineBreak := if context.pretty then "\n" else ""
  s!"<{tag}" ++ typed ++ String.join attributes ++ ">" ++ lineBreak ++ text ++ lineBreak ++
    s!"</{tag}>"

end Filter

abbrev Filters := List (String × Filter)

namespace Filters

def standard : Filters :=
  [("plain", Filter.plain), ("cdata", Filter.cdata), ("css", Filter.element "style" "text/css"),
    ("js", Filter.element "script" "text/javascript"), ("php", Filter.code),
    ("code", Filter.code)]

/-- Adds a filter, in place of one of the same name. -/
def register (filters : Filters) (name : String) (filter : Filter) : Filters :=
  (name, filter) :: List.filter (fun entry => entry.1 != name) filters

def get? (filters : Filters) (name : String) : Option Filter :=
  List.lookup name filters

def names (filters : Filters) : List String :=
  (filters.map Prod.fst).mergeSort fun left right => !(right < left)

end Filters

end PugTemplate
