import PugTemplate.Position

/-!
# Tokens

The lexical units of a template. A statement is a line that is neither an element nor text;
tokens and the nodes made from them share it.
-/

namespace PugTemplate

/-- How a block combines with the block of the same name in the layout it extends. -/
inductive BlockMode where
  | replace
  | append
  | prepend
  deriving DecidableEq, Repr

inductive ImportKind where
  | extending
  | including
  deriving DecidableEq, Repr

inductive ConditionKind where
  | ifTrue
  | elseIf
  | otherwise
  | ifFalse
  deriving DecidableEq, Repr

/-- An element's attribute, a mixin's parameter or an argument of a call. -/
structure Attribute where
  name : Option String
  value : Option String
  escaped : Bool
  checked : Bool
  deriving DecidableEq, Repr

/-- An expression whose value is written out, escaped for markup and guarded against undefined
variables as the flags say. -/
structure Echo where
  value : String
  escaped : Bool
  checked : Bool
  deriving DecidableEq, Repr

inductive Statement where
  | code (value : String) (block : Bool)
  | comment (content : String) (rendered : Bool)
  | doctype (name : String)
  | filter (name : String)
  | binding (name value : String)
  | importing (kind : ImportKind) (path : String) (filter : Option String)
  /-- A named region, or the slot for a call's content when there is no name. -/
  | block (name : Option String) (mode : BlockMode)
  | mixin (name : String)
  | call (name : String)
  | conditional (kind : ConditionKind) (subject : Option String)
  | caseOf (subject : String)
  /-- One branch of a case; the default branch has no subject. -/
  | branch (subject : Option String)
  | each (item : String) (key : Option String) (subject : String)
  | whileLoop (subject : String)
  | doLoop
  | forLoop (subject : String)
  deriving DecidableEq, Repr

inductive TokenKind where
  | indent
  | outdent
  | newLine
  | tag (name : String)
  | classShorthand (name : String)
  | idShorthand (name : String)
  | attributeStart
  | attr (entry : Attribute)
  | attributeEnd
  | assignment (name : String)
  | selfClosing
  | expansion
  | text (value : String)
  | expression (echo : Echo)
  | statement (line : Statement)
  deriving DecidableEq, Repr

structure Token where
  kind : TokenKind
  position : Position
  deriving DecidableEq, Repr

/-! The labels of choices in listings. -/

def BlockMode.label : BlockMode → String
  | .replace => "Replace"
  | .append => "Append"
  | .prepend => "Prepend"

def ImportKind.label : ImportKind → String
  | .extending => "Extends"
  | .including => "Include"

def ConditionKind.label : ConditionKind → String
  | .ifTrue => "If"
  | .elseIf => "ElseIf"
  | .otherwise => "Else"
  | .ifFalse => "Unless"

def Statement.tokenName : Statement → String
  | code _ _ => "code"
  | comment _ _ => "comment"
  | doctype _ => "doctype"
  | filter _ => "filter"
  | binding _ _ => "variable"
  | importing _ _ _ => "import"
  | block _ _ => "block"
  | mixin _ => "mixin"
  | call _ => "mixin-call"
  | conditional _ _ => "conditional"
  | caseOf _ => "case"
  | branch _ => "when"
  | each _ _ _ => "each"
  | whileLoop _ => "while"
  | doLoop => "do"
  | forLoop _ => "for"

def TokenKind.name : TokenKind → String
  | indent => "indent"
  | outdent => "outdent"
  | newLine => "newline"
  | tag _ => "tag"
  | classShorthand _ => "class"
  | idShorthand _ => "id"
  | attributeStart => "attribute-start"
  | attr _ => "attribute"
  | attributeEnd => "attribute-end"
  | assignment _ => "assignment"
  | selfClosing => "self-closing"
  | expansion => "expansion"
  | text _ => "text"
  | expression _ => "expression"
  | statement line => line.tokenName

end PugTemplate
