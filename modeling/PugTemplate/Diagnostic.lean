import PugTemplate.Path
import PugTemplate.Position

/-!
# Diagnostics

A diagnostic says what is wrong with a template, where, and in which file. Each kind of fault
has a heading, and each diagnostic belongs to the stage of compilation that found it.
-/

namespace PugTemplate

inductive Stage where
  | lex
  | parse
  | compile
  deriving DecidableEq, Repr

inductive FaultKind where
  | mixedIndentation
  | inconsistentIndentation
  | unbalancedBrackets
  | unterminatedString
  | unexpectedCharacter
  | invalidForm
  | unexpectedIndent
  | strayOutdent
  | misplacedAttribute
  | unexpectedToken
  | importNotFound
  | multipleExtends
  | undefinedMixin
  | depthExceeded
  | unknownFilter
  | voidElementWithContent
  | orphanBranch
  | invalidInterpolation
  deriving DecidableEq, Repr

def FaultKind.heading : FaultKind → String
  | mixedIndentation => "Mixed indentation"
  | inconsistentIndentation => "Inconsistent indentation"
  | unbalancedBrackets => "Unbalanced brackets"
  | unterminatedString => "Unterminated string"
  | unexpectedCharacter => "Unexpected character"
  | invalidForm => "Invalid syntax"
  | unexpectedIndent => "Unexpected indentation"
  | strayOutdent => "Stray outdent"
  | misplacedAttribute => "Misplaced attribute"
  | unexpectedToken => "Unexpected token"
  | importNotFound => "Import not found"
  | multipleExtends => "Multiple extends"
  | undefinedMixin => "Undefined mixin"
  | depthExceeded => "Nesting depth exceeded"
  | unknownFilter => "Unknown filter"
  | voidElementWithContent => "Void element with content"
  | orphanBranch => "Orphan branch"
  | invalidInterpolation => "Invalid interpolation"

structure Diagnostic where
  stage : Stage
  kind : FaultKind
  message : String
  position : Position
  path : Option Path
  help : Option String
  deriving DecidableEq, Repr

namespace Diagnostic

def withHelp (diagnostic : Diagnostic) (help : String) : Diagnostic :=
  { diagnostic with help := some help }

/-- Attributes the diagnostic to a file, unless one has claimed it already. -/
def inFile (diagnostic : Diagnostic) (path : Option Path) : Diagnostic :=
  { diagnostic with path := diagnostic.path <|> path }

def stageName : Stage → String
  | .lex => "lex"
  | .parse => "parse"
  | .compile => "compile"

def describe (diagnostic : Diagnostic) : String :=
  let stage := stageName diagnostic.stage
  let heading := diagnostic.kind.heading
  let line := toString diagnostic.position.line
  let offset := toString diagnostic.position.offset
  let place := match diagnostic.path with
    | some path => s!" in {path.text}"
    | none => ""
  s!"{stage} error: {heading}: {diagnostic.message} (line {line}, offset {offset}){place}"

end Diagnostic

inductive Failure where
  | template (diagnostic : Diagnostic)
  | unreadable (path : Path) (reason : String)
  deriving DecidableEq, Repr

namespace Failure

def diagnostic? : Failure → Option Diagnostic
  | template diagnostic => some diagnostic
  | unreadable _ _ => none

def inFile (failure : Failure) (path : Option Path) : Failure :=
  match failure with
  | template diagnostic => template (diagnostic.inFile path)
  | unreadable file reason => unreadable file reason

def withHelp (failure : Failure) (help : String) : Failure :=
  match failure with
  | template diagnostic => template (diagnostic.withHelp help)
  | unreadable file reason => unreadable file reason

def describe : Failure → String
  | template diagnostic => diagnostic.describe
  | unreadable path reason => s!"failed to read {path.text}: {reason}"

end Failure

end PugTemplate
