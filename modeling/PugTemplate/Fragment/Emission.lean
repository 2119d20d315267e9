import PugTemplate.Document.Builder
import PugTemplate.Expression.Interpolation
import PugTemplate.Fragment
import PugTemplate.Fragment.Attributes

/-!
# Emission

The fragments for a tree. Siblings are taken in order, since some belong together: texts that
follow each other, a condition and its further branches, lines of code that continue a block,
and a `do` with its `while`. Hidden comments between such siblings do not part them.
-/

namespace PugTemplate

namespace Emission

def unwrapParens (subject : String) : String :=
  let text := Text.trim subject.toList
  match text with
  | '(' :: rest =>
    if rest.getLast? == some ')' then
      let inner := rest.dropLast
      match Cursor.balancedLength [] inner with
      | .ok _ => String.ofList (Text.trim inner)
      | .error _ => String.ofList text
    else
      String.ofList text
  | _ => String.ofList text

/-- Whether a line of code goes on with the block that the line before it opened. -/
def continuesBlock (code : String) : Bool :=
  let bare := Text.trimStart ((Text.trimStart code.toList).dropWhile (· == '}'))
  let keyword := String.ofList (bare.takeWhile fun c => c.isAlphanum || c == '_')
  ["else", "elseif", "catch", "finally"].contains keyword

/-- The head of a block for a line of code. A line that continues a block closes it first. -/
def codeHead (code : String) (continues : Bool) : String :=
  let value := Text.trim code.toList
  let head := if value.getLast? == some '{' then value else value ++ [' ', '{']
  String.ofList (if continues && head.head? != some '}' then '}' :: ' ' :: head else head)

def conditionHead (kind : ConditionKind) (subject : Option String) : CodeLine :=
  let condition := unwrapParens (subject.getD "")
  match kind with
  | .ifTrue => .ifHead condition
  | .ifFalse => .ifHead ("!(" ++ condition ++ ")")
  | .elseIf => .elseIfHead condition
  | .otherwise => .elseHead

def eachHead (item : String) (key : Option String) (subject : String) : String :=
  match key with
  | some key => s!"foreach ({subject} as {key} => {item})"
  | none => s!"foreach ({subject} as {item})"

/-- What the siblings before a node leave open. -/
inductive Opened where
  | nothing
  | texts
  | condition
  | code
  | doBlock
  deriving DecidableEq, Repr

/-- How a node takes up what its siblings left open. -/
inductive Joint where
  /-- The node is a hidden comment and leaves everything as it is. -/
  | passed
  | elseIf (subject : Option String)
  | otherwise (subject : Option String)
  | moreCode (code : String)
  | doCondition (subject : String)
  | fresh
  deriving DecidableEq, Repr

def joint (opened : Opened) (tree : Tree) : Joint :=
  if tree.isHidden then
    .passed
  else
    match opened, tree.kind with
    | .condition, .statement (.conditional .elseIf subject) => .elseIf subject
    | .condition, .statement (.conditional .otherwise subject) => .otherwise subject
    | .code, .statement (.code value _) => if continuesBlock value then .moreCode value else .fresh
    | .doBlock, .statement (.whileLoop subject) => .doCondition subject
    | _, _ => .fresh

/-- What is still open behind a hidden comment. Texts are parted by anything between them. -/
def Opened.passHidden : Opened → Opened
  | texts => nothing
  | opened => opened

def lineAt (depth : Nat) (inline : Bool) : List Fragment :=
  if inline then [] else [.line depth]

def codeAt (depth : Nat) (inline : Bool) (line : CodeLine) : List Fragment :=
  lineAt depth inline ++ [.code line]

def closing (opened : Opened) (depth : Nat) (inline : Bool) : List Fragment :=
  match opened with
  | .condition | .code => codeAt depth inline .close
  | _ => []

def whileFollows (siblings : List Tree) : Bool :=
  match (siblings.find? fun tree => !tree.isHidden).map Tree.kind with
  | some (.statement (.whileLoop _)) => true
  | _ => false

abbrev InlineTag := String → Position → Except Diagnostic (List Fragment)

def emitSegment (target : Target) (inlineTag : InlineTag) (position : Position) :
    Interpolation.Segment → Except Diagnostic (List Fragment)
  | .text value => .ok [.text value]
  | .echo value escaped => .ok [.echo (target.echoCode ⟨value, escaped, true⟩)]
  | .tag snippet => inlineTag snippet position

def emitSegments (target : Target) (inlineTag : InlineTag) (position : Position) :
    List Interpolation.Segment → Except Diagnostic (List Fragment)
  | [] => .ok []
  | segment :: more => do
    let first ← emitSegment target inlineTag position segment
    let others ← emitSegments target inlineTag position more
    return first ++ others

def emitText (target : Target) (inlineTag : InlineTag) (value : String) (position : Position) :
    Except Diagnostic (List Fragment) := do
  let segments ← Interpolation.interpolate value position
  emitSegments target inlineTag position segments

def emitTextLines (target : Target) (inlineTag : InlineTag) (depth : Nat) (position : Position) :
    List (List Char) → Except Diagnostic (List Fragment)
  | [] => .ok []
  | line :: more => do
    let first ← emitText target inlineTag (String.ofList line) position
    let others ← emitTextLines target inlineTag depth ⟨position.line + 1, position.offset⟩ more
    return .line depth :: first ++ others

/-- A text node. Where lines are laid out, each line of the text is one; elsewhere a text that
follows another begins with a line break. -/
def emitTextNode (target : Target) (inlineTag : InlineTag) (opened : Opened) (depth : Nat)
    (inline : Bool) (value : String) (verbatim : Bool) (position : Position) :
    Except Diagnostic (List Fragment) :=
  if target.format.pretty && !inline then
    if verbatim then
      .ok [.line depth, .raw value]
    else
      emitTextLines target inlineTag depth position (Text.lines value.toList)
  else do
    let content ←
      if verbatim then pure [.raw value] else emitText target inlineTag value position
    return (if opened == .texts then [.textBreak] else []) ++ content

def filterOptions (attributes : List Tree) : NameMap :=
  attributes.foldl (fun options tree =>
    match tree.kind with
    | .attr ⟨some name, value, _, _⟩ =>
      let text := match value.map Expression.classify with
        | some (.literal text) => text
        | _ => value.getD "true"
      NameMap.set name text options
    | .attr ⟨none, some flag, _, _⟩ => NameMap.set flag "true" options
    | _ => options) []

/-- The text that a filter is given: the texts among its children, one a line. -/
def filterText (children : List Tree) : String :=
  "\n".intercalate (children.filterMap fun tree =>
    match tree.kind with
    | .text value _ => some value
    | _ => none)

def emitFilter (target : Target) (name : String) (tree : Tree) (depth : Nat) (inline : Bool) :
    Except Diagnostic (List Fragment) :=
  match target.filters.get? name with
  | none => .error ((Cause.unknownFilter name target.filters.names).diagnose tree.position)
  | some filter =>
    let context : Filter.Context := ⟨target.dialect, target.format.pretty, none⟩
    let result := filter (filterText tree.children) context (filterOptions tree.attributes)
    .ok (lineAt depth inline ++ [.raw result])

/-- The declaration of a document type. One that looks like a code tag is written by code. -/
def doctypeFragment (target : Target) (name : String) : Fragment :=
  let declaration := (Markup.doctype name).1
  if "<?".toList.isPrefixOf declaration.toList then
    .echo (target.format.codeString declaration)
  else
    .raw declaration

inductive Closing where
  | lone (slash : Bool)
  /-- As a lone tag, which its content forbids. -/
  | overfull
  | endTag
  deriving DecidableEq, Repr

def elementClosing (target : Target) (tag : String) (selfClosing hasContent : Bool) : Closing :=
  if selfClosing || (Markup.isVoid tag && target.dialect != .xml) then
    if hasContent then .overfull else .lone (selfClosing || target.dialect != .html)
  else if target.dialect == .xml && !hasContent then
    .lone true
  else
    .endTag

def isInlineContent (tree : Tree) : Bool :=
  tree.isHidden ||
    match tree.kind with
    | .text _ _ | .expression _ => true
    | _ => false

mutual

def emitChildren (target : Target) (inlineTag : InlineTag) (depth : Nat) (inline : Bool) :
    Tree → Except Diagnostic (List Fragment)
  | .node _ _ _ children => emitSiblings target inlineTag .nothing depth inline children

def emitNode (target : Target) (inlineTag : InlineTag) (depth : Nat) (inline : Bool) :
    Tree → Except Diagnostic (List Fragment)
  | .node kind position attributes children =>
    let tree := Tree.node kind position attributes children
    let block (head : String) : Except Diagnostic (List Fragment) := do
      let body ← emitSiblings target inlineTag .nothing (depth + 1) inline children
      return codeAt depth inline (.loopHead head) ++ body ++ codeAt depth inline .close
    match kind with
    | .document | .statement (.block _ _) =>
      emitSiblings target inlineTag .nothing depth inline children
    | .element tag selfClosing =>
      let text := (AttributeSet.ofTrees target attributes).text target
      match elementClosing target tag selfClosing (children.any fun child => !child.isHidden) with
      | .overfull => .error ((Cause.contentInVoid tag).diagnose position)
      | .lone slash => .ok (lineAt depth inline ++ [.loneTag tag text slash])
      | .endTag => do
        let within := inline || Markup.isPreformatted tag || children.all isInlineContent
        let content ← emitSiblings target inlineTag .nothing (depth + 1) within children
        return lineAt depth inline ++ .startTag tag text :: content ++ lineAt depth within ++
          [.endTag tag]
    | .text value verbatim =>
      emitTextNode target inlineTag .nothing depth inline value verbatim position
    | .expression echo => .ok (lineAt depth inline ++ [.echo (target.echoCode echo)])
    | .attr _ | .assignment _ | .statement (.mixin _) => .ok []
    | .statement (.code value _) => .ok (codeAt depth inline (.plain value))
    | .statement (.comment content rendered) =>
      .ok (if rendered then lineAt depth inline ++ [.raw s!"<!-- {content} -->"] else [])
    | .statement (.doctype name) => .ok (lineAt depth inline ++ [doctypeFragment target name])
    | .statement (.filter name) => emitFilter target name tree depth inline
    | .statement (.binding name value) =>
      .ok (codeAt depth inline (.plain s!"{name} = {value};"))
    | .statement (.importing _ path _) => .error ((Cause.importNotResolved path).diagnose position)
    | .statement (.call name) => .error ((Cause.callNotExpanded name).diagnose position)
    | .statement (.conditional _ _) => .error (Cause.elseWithoutIf.diagnose position)
    | .statement (.caseOf subject) => do
      let branches ← emitBranches target inlineTag true false depth inline children
      return lineAt depth inline ++ .switchHead (unwrapParens subject) :: branches
    | .statement (.branch _) => .error (Cause.whenOutsideCase.diagnose position)
    | .statement (.each item key subject) => block (eachHead item key subject)
    | .statement (.whileLoop subject) => block ("while (" ++ unwrapParens subject ++ ")")
    | .statement .doLoop => .error (Cause.doWithoutWhile.diagnose position)
    | .statement (.forLoop subject) => block ("for (" ++ unwrapParens subject ++ ")")

def emitSiblings (target : Target) (inlineTag : InlineTag) (opened : Opened) (depth : Nat)
    (inline : Bool) : List Tree → Except Diagnostic (List Fragment)
  | [] => .ok (closing opened depth inline)
  | tree :: more =>
    match joint opened tree with
    | .passed => emitSiblings target inlineTag opened.passHidden depth inline more
    | .elseIf subject => do
      let body ← emitChildren target inlineTag (depth + 1) inline tree
      let others ← emitSiblings target inlineTag .condition depth inline more
      return codeAt depth inline (conditionHead .elseIf subject) ++ body ++ others
    | .otherwise subject => do
      let body ← emitChildren target inlineTag (depth + 1) inline tree
      let others ← emitSiblings target inlineTag .nothing depth inline more
      return codeAt depth inline (conditionHead .otherwise subject) ++ body ++
        codeAt depth inline .close ++ others
    | .moreCode value => do
      let body ← emitChildren target inlineTag (depth + 1) inline tree
      let others ← emitSiblings target inlineTag .code depth inline more
      return codeAt depth inline (.codeHead (codeHead value true)) ++ body ++ others
    | .doCondition subject => do
      let others ← emitSiblings target inlineTag .nothing depth inline more
      return codeAt depth inline (.doTail (unwrapParens subject)) ++ others
    | .fresh => do
      let (first, next) ←
        match tree.kind with
        | .text value verbatim => do
          let text ←
            emitTextNode target inlineTag opened depth inline value verbatim tree.position
          pure (text, Opened.texts)
        | .statement (.conditional .ifTrue subject) => do
          let body ← emitChildren target inlineTag (depth + 1) inline tree
          pure (codeAt depth inline (conditionHead .ifTrue subject) ++ body, Opened.condition)
        | .statement (.conditional .ifFalse subject) => do
          let body ← emitChildren target inlineTag (depth + 1) inline tree
          pure (codeAt depth inline (conditionHead .ifFalse subject) ++ body, Opened.condition)
        | .statement (.code value _) =>
          if tree.children.isEmpty then do
            let line ← emitNode target inlineTag depth inline tree
            pure (line, Opened.nothing)
          else do
            let body ← emitChildren target inlineTag (depth + 1) inline tree
            pure (codeAt depth inline (.codeHead (codeHead value false)) ++ body, Opened.code)
        | .statement .doLoop =>
          if whileFollows more then do
            let body ← emitChildren target inlineTag (depth + 1) inline tree
            pure (codeAt depth inline .doHead ++ body, Opened.doBlock)
          else
            throw (Cause.doWithoutWhile.diagnose tree.position)
        | _ => do
          let node ← emitNode target inlineTag depth inline tree
          pure (node, Opened.nothing)
      let others ← emitSiblings target inlineTag next depth inline more
      return closing opened depth inline ++ first ++ others

/-- The fragments for the branches of a case, up to the end of the switch. `inTag` says that the
code tag of the switch is still open, and `breaks` that the branch before ends with a break. -/
def emitBranches (target : Target) (inlineTag : InlineTag) (inTag breaks : Bool) (depth : Nat)
    (inline : Bool) : List Tree → Except Diagnostic (List Fragment)
  | [] => .ok ((if inTag then [] else lineAt depth inline ++ [.enter]) ++ [.switchEnd])
  | tree :: more =>
    if tree.isHidden then
      emitBranches target inlineTag inTag breaks depth inline more
    else
      match tree.kind with
      | .statement (.branch subject) => do
        let head := (if inTag then [] else lineAt depth inline ++ [.enter]) ++
          (if breaks then [.breakOut] else []) ++ [.label subject]
        if tree.children.isEmpty then
          let others ← emitBranches target inlineTag true false depth inline more
          return head ++ others
        else
          let body ← emitChildren target inlineTag (depth + 1) inline tree
          let others ← emitBranches target inlineTag false true depth inline more
          return head ++ .leave :: body ++ others
      | _ => .error (Cause.strayInCase.diagnose tree.position)

end

def inlineTagWithin (target : Target) : Nat → InlineTag
  | 0, _, _ => .ok []
  | bound + 1, snippet, position =>
    match Document.parse snippet with
    | .error diagnostic =>
      .error ((Cause.invalidInlineTag snippet diagnostic.message).diagnose position)
    | .ok document =>
      emitChildren target (inlineTagWithin target bound) 0 true document.tree

/-- Renders an inline tag. A tag inside it is shorter, so its length bounds the nesting. -/
def inlineTag (target : Target) : InlineTag := fun snippet position =>
  inlineTagWithin target (snippet.length + 1) snippet position

def emit (target : Target) (tree : Tree) : Except Diagnostic (List Fragment) :=
  emitChildren target (inlineTag target) 0 false tree

end Emission

structure EmissionOptions where
  format : Format
  /-- The dialect; the first document type selects it if it is not given. -/
  dialect : Option Dialect
  charset : String
  deriving DecidableEq, Repr

def EmissionOptions.standard : EmissionOptions :=
  ⟨.standard, none, "UTF-8"⟩

namespace Document

def dialect? (document : Document) : Option Dialect :=
  (document.descendants root).findSome? fun id =>
    match document.kind id with
    | .statement (.doctype name) => some (Markup.doctype name).2
    | _ => none

def generate (document : Document) (filters : Filters) (options : EmissionOptions) :
    Except Diagnostic String := do
  let dialect := (options.dialect <|> document.dialect?).getD .html
  let target : Target := ⟨options.format, filters, dialect, options.charset⟩
  let fragments ← Emission.emit target document.tree
  return Fragment.render options.format fragments

end Document

end PugTemplate
