import PugTemplate.Document
import PugTemplate.Token.Line

/-!
# Documents from tokens

A document is built in one pass over its tokens. Lines become nodes under the current node, the
parts of a line after a colon nest inside the part before it, and an indent makes the innermost
node of the line above the current one.
-/

namespace PugTemplate

structure Builder where
  document : Document
  /-- The node that new lines go under. -/
  current : NodeId
  /-- The node of the line, or of its part after the last colon. -/
  lineNode : Option NodeId
  /-- The innermost node of the latest line that made one. -/
  last : Option NodeId
  /-- The number of colons on the line. -/
  expansions : Nat
  /-- How many levels each open indent has to climb when it closes, innermost first. -/
  frames : List Nat
  /-- The owner of the attribute list being read. -/
  listOwner : Option NodeId
  /-- An assignment whose attribute list comes next. -/
  awaiting : Option NodeId
  deriving Repr

namespace Builder

def start : Builder :=
  ⟨.empty, Document.root, none, none, 0, [], none, none⟩

def openLine (builder : Builder) (kind : NodeKind) (position : Position) : Builder :=
  let parent := builder.lineNode.getD builder.current
  let (document, id) := builder.document.append parent kind position
  let document :=
    if builder.expansions > 0 && builder.lineNode.isNone then
      document.modify id fun node => { node with outer := some parent }
    else
      document
  { builder with document := document, lineNode := some id, last := some id }

/-- Text or an expression: part of the line's node, or a line of its own. -/
def addInline (builder : Builder) (kind : NodeKind) (position : Position) : Builder :=
  match builder.lineNode with
  | some owner =>
    { builder with document := (builder.document.append owner kind position).1 }
  | none => builder.openLine kind position

def attributeOwner? (builder : Builder) (candidate : Option NodeId) : Option NodeId :=
  candidate.filter fun id => (builder.document.kind id).acceptsAttributes

def addShorthand (builder : Builder) (name value : String) (position : Position) :
    Except Diagnostic Builder :=
  match builder.attributeOwner? builder.lineNode with
  | none => .error ((Cause.ownerless s!"`{name}` shorthand").diagnose position)
  | some owner =>
    let kind := NodeKind.attr ⟨some name, some value, true, true⟩
    .ok { builder with document := (builder.document.appendAttribute owner kind position).1 }

/-- Nests the lines that follow under the innermost node of the line above. -/
def descend (builder : Builder) (climb : Nat) (position : Position) : Except Diagnostic Builder :=
  match builder.last with
  | none => .error (Cause.indentWithoutParent.diagnose position)
  | some target =>
    if (builder.document.kind target).acceptsChildren then
      .ok { builder with current := target, frames := climb :: builder.frames }
    else
      .error (Cause.indentUnderLeaf.diagnose position)

def ascend (builder : Builder) (levels : Nat) (position : Position) : Except Diagnostic Builder :=
  match levels with
  | 0 => .ok builder
  | levels + 1 =>
    match builder.document.parent builder.current with
    | none => .error (Cause.outdentPastRoot.diagnose position)
    | some parent => { builder with current := parent }.ascend levels position

/-- Ends a line. An indent that follows takes the line's expansions over. -/
def endLine (builder : Builder) (indentFollows : Bool) (position : Position) :
    Except Diagnostic Builder :=
  let ended := { builder with lineNode := none, listOwner := none, awaiting := none }
  if indentFollows then
    .ok ended
  else
    { ended with expansions := 0 }.ascend builder.expansions position

def selfClose (builder : Builder) (position : Position) : Except Diagnostic Builder :=
  match builder.lineNode with
  | none => .error (Cause.selfClosingNonElement.diagnose position)
  | some id =>
    match builder.document.kind id with
    | .element tag _ =>
      let document := builder.document.modify id fun node =>
        { node with kind := .element tag true }
      .ok { builder with document := document }
    | _ => .error (Cause.selfClosingNonElement.diagnose position)

def assignmentOwner? (builder : Builder) : Option NodeId :=
  builder.lineNode.filter fun id =>
    match builder.document.kind id with
    | .element _ _ | .statement (.call _) => true
    | _ => false

/-- Takes one token. `indentFollows` says whether the token after it is an indent. -/
def step (builder : Builder) (token : Token) (indentFollows : Bool) : Except Diagnostic Builder :=
  let position := token.position
  match token.kind with
  | .indent => { builder with expansions := 0 }.descend (1 + builder.expansions) position
  | .outdent =>
    match builder.frames with
    | [] => .error (Cause.unmatchedOutdent.diagnose position)
    | climb :: frames => { builder with frames := frames }.ascend climb position
  | .newLine => builder.endLine indentFollows position
  | .classShorthand name => builder.addShorthand "class" name position
  | .idShorthand name => builder.addShorthand "id" name position
  | .attributeStart =>
    match builder.attributeOwner? (builder.awaiting <|> builder.lineNode) with
    | none => .error ((Cause.ownerless "attribute list").diagnose position)
    | some owner => .ok { builder with listOwner := some owner, awaiting := none }
  | .attr entry =>
    match builder.listOwner with
    | none => .error ((Cause.ownerless "attribute").diagnose position)
    | some owner =>
      let document := (builder.document.appendAttribute owner (.attr entry) position).1
      .ok { builder with document := document }
  | .attributeEnd =>
    match builder.listOwner with
    | none => .error (Cause.listNeverOpened.diagnose position)
    | some _ => .ok { builder with listOwner := none }
  | .assignment name =>
    match builder.assignmentOwner? with
    | none => .error ((Cause.ownerless "assignment").diagnose position)
    | some owner =>
      let (document, id) := builder.document.appendAttribute owner (.assignment name) position
      .ok { builder with document := document, awaiting := some id }
  | .selfClosing => builder.selfClose position
  | .expansion =>
    match builder.lineNode with
    | none => .error (Cause.nothingToExpand.diagnose position)
    | some head =>
      .ok { builder with
        current := head, expansions := builder.expansions + 1, lineNode := none }
  | .text value => .ok (builder.addInline (.text value false) position)
  | .expression echo => .ok (builder.addInline (.expression echo) position)
  | .tag name => .ok (builder.openLine (.element name false) position)
  | .statement line => .ok (builder.openLine (.statement line) position)

def isIndent (token : Token) : Bool :=
  token.kind == .indent

def run (builder : Builder) : List Token → Except Diagnostic Builder
  | [] => .ok builder
  | token :: more =>
    match builder.step token (more.head?.any isIndent) with
    | .error diagnostic => .error diagnostic
    | .ok next => next.run more

end Builder

namespace Document

/-- The document of a stream of tokens. A fault of the structure comes before a fault of a later
line. -/
def ofStream (stream : Token.Stream) : Except Diagnostic Document :=
  match Builder.start.run stream.tokens with
  | .error diagnostic => .error diagnostic
  | .ok builder =>
    match stream.failure with
    | some diagnostic => .error diagnostic
    | none => .ok builder.document

def parse (source : String) : Except Diagnostic Document :=
  ofStream (Token.stream source)

end Document

end PugTemplate
