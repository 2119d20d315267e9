import PugTemplate.Cursor.Quoted
import PugTemplate.Diagnostic

/-!
# Causes of failure

Every fault the compiler finds has one cause here. The cause fixes the stage, the kind, the
wording and the advice of the diagnostic that reports it.
-/

namespace PugTemplate

inductive Cause where
  | mixedIndentation (expected : String)
  | inconsistentIndentation
  | unbalanced (bracket : Char)
  | unterminatedString
  | openAttributeList
  | unexpected (found : String)
  | unexpectedAtLineStart (found : Char)
  | unexpectedAfterDash (found : Char)
  | textAfterBlockDot
  | missingBlockName
  | missingWhenSubject
  | malformedEach (subject : String)
  | missingAssignment
  | missingAssignmentList
  | missingAttributeValue
  | missingName (what : String)
  | missingSubject (keyword : String)
  | missingPath
  | unmatchedOutdent
  | outdentPastRoot
  | indentWithoutParent
  | indentUnderLeaf
  | ownerless (what : String)
  | listNeverOpened
  | selfClosingNonElement
  | nothingToExpand
  | templateNotFound (name : String) (searched : List String)
  | templatesTooDeep (limit : Nat)
  | secondExtends
  | mixinNotDefined (name : String) (known : List String)
  | mixinsTooDeep (name : String) (limit : Nat)
  | callNotExpanded (name : String)
  | importNotResolved (path : String)
  | unknownFilter (name : String) (known : List String)
  | contentInVoid (tag : String)
  | strayInCase
  | elseWithoutIf
  | whenOutsideCase
  | doWithoutWhile
  | openInterpolation (close : Char)
  | emptyInterpolation
  | invalidInlineTag (snippet : String) (reason : String)
  deriving DecidableEq, Repr

namespace Cause

def kind : Cause → FaultKind
  | mixedIndentation _ => .mixedIndentation
  | inconsistentIndentation => .inconsistentIndentation
  | unbalanced _ | openAttributeList => .unbalancedBrackets
  | unterminatedString => .unterminatedString
  | unexpected _ | unexpectedAtLineStart _ | unexpectedAfterDash _ | textAfterBlockDot =>
    .unexpectedCharacter
  | missingBlockName | missingWhenSubject | malformedEach _ | missingAssignment
  | missingAssignmentList | missingAttributeValue | missingName _ | missingSubject _
  | missingPath => .invalidForm
  | unmatchedOutdent | outdentPastRoot => .strayOutdent
  | indentWithoutParent | indentUnderLeaf => .unexpectedIndent
  | ownerless _ => .misplacedAttribute
  | listNeverOpened | selfClosingNonElement | nothingToExpand | strayInCase => .unexpectedToken
  | templateNotFound _ _ | importNotResolved _ => .importNotFound
  | templatesTooDeep _ | mixinsTooDeep _ _ => .depthExceeded
  | secondExtends => .multipleExtends
  | mixinNotDefined _ _ | callNotExpanded _ => .undefinedMixin
  | unknownFilter _ _ => .unknownFilter
  | contentInVoid _ => .voidElementWithContent
  | elseWithoutIf | whenOutsideCase | doWithoutWhile => .orphanBranch
  | openInterpolation _ | emptyInterpolation | invalidInlineTag _ _ => .invalidInterpolation

def stage : Cause → Stage
  | mixedIndentation _ | inconsistentIndentation | unbalanced _ | unterminatedString
  | openAttributeList | unexpected _ | unexpectedAtLineStart _ | unexpectedAfterDash _
  | textAfterBlockDot | missingBlockName | missingWhenSubject | malformedEach _
  | missingAssignment | missingAssignmentList | missingAttributeValue | missingName _
  | missingSubject _ | missingPath => .lex
  | unmatchedOutdent | outdentPastRoot | indentWithoutParent | indentUnderLeaf | ownerless _
  | listNeverOpened | selfClosingNonElement | nothingToExpand => .parse
  | _ => .compile

def message : Cause → String
  | mixedIndentation expected =>
    s!"mixed indentation, this template is indented with {expected}"
  | inconsistentIndentation => "indentation does not match any outer level"
  | unbalanced bracket => s!"unbalanced `{bracket}`"
  | unterminatedString => "string is never closed"
  | openAttributeList => "attribute list is never closed"
  | unexpected found => s!"unexpected `{found}`"
  | unexpectedAtLineStart found => s!"unexpected `{found}` at the start of a line"
  | unexpectedAfterDash found => s!"unexpected `-{found}`"
  | textAfterBlockDot => "a text block `.` must end the line"
  | missingBlockName => "expected a block name"
  | missingWhenSubject => "`when` needs a value to match"
  | malformedEach subject => s!"malformed each `{subject}`"
  | missingAssignment => "expected a variable assignment"
  | missingAssignmentList => "expected `(` after assignment"
  | missingAttributeValue => "attribute value is missing"
  | missingName what => s!"expected a {what}"
  | missingSubject keyword => s!"`{keyword}` needs an expression"
  | missingPath => "expected a template path"
  | unmatchedOutdent => "outdent without a matching indent"
  | outdentPastRoot => "outdent past the document root"
  | indentWithoutParent => "indented line has no parent"
  | indentUnderLeaf => "this line cannot contain nested content"
  | ownerless what => s!"{what} has no element to attach to"
  | listNeverOpened => "attribute list closed without being opened"
  | selfClosingNonElement => "only elements can be self-closing"
  | nothingToExpand => "nothing to expand"
  | templateNotFound name _ => s!"cannot find template `{name}`"
  | templatesTooDeep limit => s!"templates nest deeper than {limit} levels"
  | secondExtends => "a template can only extend one base"
  | mixinNotDefined name _ => s!"mixin `{name}` is not defined"
  | mixinsTooDeep name limit => s!"mixin `{name}` nests deeper than {limit} levels"
  | callNotExpanded name => s!"no mixin named `{name}`"
  | importNotResolved path => s!"`{path}` was never resolved"
  | unknownFilter name _ => s!"no filter named `{name}`"
  | contentInVoid tag => s!"`{tag}` is self-closing and cannot have content"
  | strayInCase => "only `when` and `default` may appear inside `case`"
  | elseWithoutIf => "`else` without a preceding `if`"
  | whenOutsideCase => "`when` outside of `case`"
  | doWithoutWhile => "`do` must be followed by `while`"
  | openInterpolation close => s!"interpolation is missing its closing `{close}`"
  | emptyInterpolation => "empty interpolation"
  | invalidInlineTag snippet reason => s!"inline tag `#[{snippet}]` is invalid: {reason}"

def listed (names : List String) : String :=
  ", ".intercalate names

def help : Cause → Option String
  | mixedIndentation expected => some s!"indent every line with {expected} only"
  | openAttributeList => some "close the list with `)`"
  | unexpectedAfterDash _ => some "code lines start with `- ` followed by a space"
  | malformedEach _ => some "write `each $item in $items` or `each $item, $key in $items`"
  | missingAssignment => some "assign with `$name = value`, or output with `= $name`"
  | templateNotFound _ searched => some s!"searched: {listed searched}"
  | templatesTooDeep _ => some "check for a template that includes or extends itself"
  | mixinNotDefined _ known =>
    if known.isEmpty then none else some s!"defined mixins: {listed known}"
  | mixinsTooDeep _ _ =>
    some "mixins are expanded at compile time, so a mixin cannot call itself without limit"
  | unknownFilter _ known => some s!"available filters: {listed known}"
  | _ => none

def diagnose (cause : Cause) (position : Position) : Diagnostic where
  stage := cause.stage
  kind := cause.kind
  message := cause.message
  position := position
  path := none
  help := cause.help

end Cause

namespace Cursor.ReadError

def cause : ReadError → Cause
  | unbalanced bracket _ => .unbalanced bracket
  | unterminated _ => .unterminatedString

def diagnose (error : ReadError) : Diagnostic :=
  error.cause.diagnose error.position

end Cursor.ReadError

end PugTemplate
