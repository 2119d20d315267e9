import PugTemplate.Text.Blank

/-!
# Markup

What the compiler knows of the markup language: elements without content, attributes without a
value, elements whose blanks matter, document types and the dialects they select, and the
characters that are written as entities.
-/

namespace PugTemplate

inductive Dialect where
  | html
  | xhtml
  | xml
  deriving DecidableEq, Repr, Inhabited

namespace Markup

def voidElements : List String :=
  ["area", "base", "br", "col", "command", "embed", "hr", "img", "input", "keygen", "link",
    "meta", "param", "source", "track", "wbr"]

def booleanAttributes : List String :=
  ["disabled", "checked", "readonly", "required", "autofocus", "autoplay", "controls", "loop",
    "muted", "selected", "open", "hidden", "async", "defer", "novalidate", "formnovalidate",
    "ismap", "multiple", "reversed", "scoped"]

def preformattedElements : List String :=
  ["pre", "textarea", "script", "style"]

def isVoid (tag : String) : Bool :=
  voidElements.contains (Text.lowerAscii tag)

def isBoolean (name : String) : Bool :=
  booleanAttributes.contains (Text.lowerAscii name)

def isPreformatted (tag : String) : Bool :=
  preformattedElements.contains (Text.lowerAscii tag)

def publicDoctypes : List (String × String × String) :=
  [("transitional", "-//W3C//DTD XHTML 1.0 Transitional//EN",
      "http://www.w3.org/TR/xhtml1/DTD/xhtml1-transitional.dtd"),
    ("strict", "-//W3C//DTD XHTML 1.0 Strict//EN",
      "http://www.w3.org/TR/xhtml1/DTD/xhtml1-strict.dtd"),
    ("frameset", "-//W3C//DTD XHTML 1.0 Frameset//EN",
      "http://www.w3.org/TR/xhtml1/DTD/xhtml1-frameset.dtd"),
    ("1.1", "-//W3C//DTD XHTML 1.1//EN", "http://www.w3.org/TR/xhtml11/DTD/xhtml11.dtd"),
    ("basic", "-//W3C//DTD XHTML Basic 1.1//EN",
      "http://www.w3.org/TR/xhtml-basic/xhtml-basic11.dtd"),
    ("mobile", "-//WAPFORUM//DTD XHTML Mobile 1.2//EN",
      "http://www.openmobilealliance.org/tech/DTD/xhtml-mobile12.dtd")]

/-- The declaration for the name of a document type and the dialect it selects. A name that is
not known is written as it is. -/
def doctype (name : String) : String × Dialect :=
  let lower := Text.lowerAscii name
  if lower == "html" || lower == "5" then
    ("<!DOCTYPE html>", .html)
  else if lower == "xml" then
    ("<?xml version=\"1.0\" encoding=\"utf-8\" ?>", .xml)
  else
    match publicDoctypes.lookup lower with
    | some (publicId, systemId) =>
      (s!"<!DOCTYPE html PUBLIC \"{publicId}\" \"{systemId}\">", .xhtml)
    | none => (s!"<!DOCTYPE {name}>", .html)

def entity (c : Char) : List Char :=
  if c == '&' then "&amp;".toList
  else if c == '<' then "&lt;".toList
  else if c == '>' then "&gt;".toList
  else if c == '"' then "&quot;".toList
  else if c == '\'' then "&#039;".toList
  else [c]

def escape (text : String) : String :=
  String.ofList (text.toList.flatMap entity)

end Markup

end PugTemplate
