import PugTemplate.Json
import PugTemplate.Text.Blank
import PugTemplate.Text.Literal
import PugTemplate.Token

/-!
# Listings of tokens

A token is listed as a record: a label and named fields. Records are shown on one line each, or
as JSON.
-/

namespace PugTemplate

inductive Record.Content where
  | text (value : String)
  | optional (value : Option String)
  | flag (value : Bool)
  | choice (label : String)
  deriving DecidableEq, Repr

structure Record where
  label : String
  fields : List (String × Record.Content)
  deriving DecidableEq, Repr

namespace Record

def Content.listing : Content → String
  | text value => Text.literal value
  | optional (some value) => "Some(" ++ Text.literal value ++ ")"
  | optional none => "None"
  | flag value => if value then "true" else "false"
  | choice label => label

def listing (record : Record) : String :=
  if record.fields.isEmpty then
    record.label
  else
    record.label ++ " \x7b " ++
      ", ".intercalate (record.fields.map fun (name, content) => name ++ ": " ++ content.listing) ++
      " \x7d"

def Content.toJson : Content → Json
  | text value => .string value
  | optional value => .ofOption value
  | flag value => .bool value
  | choice label => .string (Text.lowerAscii label)

def toJson (record : Record) : Json :=
  .object (("type", .string record.label) ::
    record.fields.map fun (name, content) => (name, content.toJson))

end Record

def Attribute.record (entry : Attribute) : Record :=
  ⟨"Attribute", [("name", .optional entry.name), ("value", .optional entry.value),
    ("escaped", .flag entry.escaped), ("checked", .flag entry.checked)]⟩

def Echo.record (echo : Echo) : Record :=
  ⟨"Expression", [("value", .text echo.value), ("escaped", .flag echo.escaped),
    ("checked", .flag echo.checked)]⟩

def Statement.record : Statement → Record
  | .code value nested => ⟨"Code", [("value", .text value), ("block", .flag nested)]⟩
  | .comment content rendered =>
    ⟨"Comment", [("content", .text content), ("rendered", .flag rendered)]⟩
  | .doctype name => ⟨"Doctype", [("name", .text name)]⟩
  | .filter name => ⟨"Filter", [("name", .text name)]⟩
  | .binding name value => ⟨"Variable", [("name", .text name), ("value", .text value)]⟩
  | .importing kind path through =>
    ⟨"Import", [("kind", .choice kind.label), ("path", .text path), ("filter", .optional through)]⟩
  | .block name mode => ⟨"Block", [("name", .optional name), ("mode", .choice mode.label)]⟩
  | .mixin name => ⟨"Mixin", [("name", .text name)]⟩
  | .call name => ⟨"MixinCall", [("name", .text name)]⟩
  | .conditional kind subject =>
    ⟨"Conditional", [("kind", .choice kind.label), ("subject", .optional subject)]⟩
  | .caseOf subject => ⟨"Case", [("subject", .text subject)]⟩
  | .branch subject => ⟨"When", [("subject", .optional subject)]⟩
  | .each item key subject =>
    ⟨"Each", [("item", .text item), ("key", .optional key), ("subject", .text subject)]⟩
  | .whileLoop subject => ⟨"While", [("subject", .text subject)]⟩
  | .doLoop => ⟨"Do", []⟩
  | .forLoop subject => ⟨"For", [("subject", .text subject)]⟩

def TokenKind.record : TokenKind → Record
  | .indent => ⟨"Indent", []⟩
  | .outdent => ⟨"Outdent", []⟩
  | .newLine => ⟨"NewLine", []⟩
  | .tag name => ⟨"Tag", [("name", .text name)]⟩
  | .classShorthand name => ⟨"Class", [("name", .text name)]⟩
  | .idShorthand name => ⟨"Id", [("name", .text name)]⟩
  | .attributeStart => ⟨"AttributeStart", []⟩
  | .attr entry => entry.record
  | .attributeEnd => ⟨"AttributeEnd", []⟩
  | .assignment name => ⟨"Assignment", [("name", .text name)]⟩
  | .selfClosing => ⟨"SelfClosing", []⟩
  | .expansion => ⟨"Expansion", []⟩
  | .text value => ⟨"Text", [("value", .text value)]⟩
  | .expression echo => echo.record
  | .statement line => line.record

namespace Token

def listing (token : Token) : String :=
  Text.padLeft 4 (toString token.position.line) ++ ":" ++
    Text.padRight 3 (toString token.position.offset) ++ " " ++ token.kind.record.listing

def toJson (token : Token) : Json :=
  let position := [("line", Json.ofNat token.position.line),
    ("offset", Json.ofNat token.position.offset)]
  .object [("kind", token.kind.record.toJson), ("position", .object position)]

end Token

end PugTemplate
