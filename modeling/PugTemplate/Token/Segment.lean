import PugTemplate.Token.AttributeList
import PugTemplate.Token.Keyword
import PugTemplate.Token.RawBlock

/-!
# Segments of a line

A line is a chain of segments joined by colons: `li: a` is an element inside another. A segment
is an element with its shorthands, attributes and content, a statement, or text.
-/

namespace PugTemplate.Token

/-- A segment's tokens and the cursor behind them. `expands` says that a colon at the cursor
begins another segment. -/
structure Segment where
  tokens : List Token
  rest : Cursor
  expands : Bool
  deriving Repr

abbrev LexedSegment := Except Diagnostic Segment

def statementOnly (line : Statement) (start rest : Cursor) : Segment :=
  ⟨[⟨.statement line, start.position⟩], rest, false⟩

def lexDoctype (start cursor : Cursor) : LexedSegment :=
  let (line, rest) := cursor.skipSpacing.readLine
  let name := Text.trim line
  let name := if name.isEmpty then "html" else String.ofList name
  .ok (statementOnly (.doctype name) start rest)

/-- Reads a block's name, which only a block without a written mode may lack. -/
def lexBlockName (mode : Option BlockMode) (start cursor : Cursor) : LexedSegment :=
  let (line, rest) := cursor.skipSpacing.readLine
  let name := Text.trim line
  if name.isEmpty && mode.isSome then
    .error (Cause.missingBlockName.diagnose rest.position)
  else
    let name := if name.isEmpty then none else some (String.ofList name)
    .ok (statementOnly (.block name (mode.getD .replace)) start rest)

def lexBlock (start cursor : Cursor) : LexedSegment :=
  let spaced := cursor.skipSpacing
  let mode (word : String) (mode : BlockMode) : Option (BlockMode × Cursor) :=
    if atWord spaced word none then some (mode, spaced.skip word.length) else none
  match mode "append" .append <|> mode "prepend" .prepend <|> mode "replace" .replace with
  | some (mode, rest) => lexBlockName (some mode) start rest
  | none => lexBlockName none start spaced

def conditionWord : ConditionKind → String
  | .ifTrue => "if"
  | .elseIf => "else if"
  | .otherwise => "else"
  | .ifFalse => "unless"

def lexConditional (kind : ConditionKind) (start cursor : Cursor) : LexedSegment := do
  let (subject, rest) ← readSubject cursor (conditionWord kind)
  return statementOnly (.conditional kind (some subject)) start rest

def lexElse (start cursor : Cursor) : LexedSegment :=
  let spaced := cursor.skipSpacing
  if atWord spaced "if" (some '(') then
    lexConditional .elseIf start (spaced.skip 2)
  else
    .ok (statementOnly (.conditional .otherwise none) start spaced)

/-- Reads the subject of a branch up to a single colon or the end of the line. Two colons belong
to the subject. -/
def readBranchSubject (cursor : Cursor) : Except Diagnostic (List Char × Cursor) :=
  match readBalanced cursor [':', '\n', '\r'] with
  | .error diagnostic => .error diagnostic
  | .ok (text, rest) =>
    if rest.startsWith "::" then
      let next := rest.skip 2
      if next.remaining < cursor.remaining then
        match readBranchSubject next with
        | .error diagnostic => .error diagnostic
        | .ok (more, finish) => .ok (text ++ ':' :: ':' :: more, finish)
      else
        .ok (text, rest)
    else
      .ok (text, rest)
termination_by cursor.remaining

def lexBranch (start cursor : Cursor) : LexedSegment := do
  let (text, rest) ← readBranchSubject cursor.skipSpacing
  let subject := Text.trim text
  if subject.isEmpty then
    throw (Cause.missingWhenSubject.diagnose rest.position)
  return ⟨[⟨.statement (.branch (some (String.ofList subject))), start.position⟩], rest, true⟩

/-- Takes the head of a loop apart: one or two variables, the word `in` and what is looped
over. -/
def eachStatement? (subject : List Char) : Option Statement := do
  let (names, collection) ← Text.splitOnce " in ".toList subject
  let collection := Text.trim collection
  let names := (Text.fields (· == ',') names).map fun name => variableName? (Text.trim name)
  if collection.isEmpty then
    none
  else
    match names with
    | [some item] => some (.each item none (String.ofList collection))
    | [some item, some key] => some (.each item (some key) (String.ofList collection))
    | _ => none

def lexEach (start cursor : Cursor) : LexedSegment := do
  let (subject, rest) ← readSubject cursor "each"
  match eachStatement? subject.toList with
  | some line => return statementOnly line start rest
  | none => throw ((Cause.malformedEach subject).diagnose start.position)

def lexExtends (start cursor : Cursor) : LexedSegment := do
  let (path, rest) ← readPath cursor
  return statementOnly (.importing .extending path none) start rest

def lexInclude (start cursor : Cursor) : LexedSegment :=
  match cursor.consume? ":" with
  | some filterStart => do
    let (filter, rest) ← readName filterStart "filter name"
    let (path, rest) ← readPath rest
    return statementOnly (.importing .including path (some filter)) start rest
  | none => do
    let (path, rest) ← readPath cursor
    return statementOnly (.importing .including path none) start rest

def lexMixin (start cursor : Cursor) : LexedSegment := do
  let (name, rest) ← readName cursor.skipSpacing "mixin name"
  let (parameters, rest) ← lexAttributes? rest
  return ⟨⟨.statement (.mixin name), start.position⟩ :: parameters, rest, false⟩

def joinBlock (first : List Char) (block : Option String) : String :=
  match block with
  | none => String.ofList first
  | some block =>
    if first.isEmpty then block else String.ofList first ++ "\n" ++ block

def lexComment (width : Nat) (start : Cursor) : LexedSegment :=
  let opened := start.skip 2
  let (rendered, body) := match opened.consume? "-" with
    | some body => (false, body)
    | none => (true, opened)
  let (line, lineEnd) := body.readLine
  let (block, rest) := readBlock width lineEnd
  .ok (statementOnly (.comment (joinBlock (Text.trim line) block) rendered) start rest)

def lexFilter (width : Nat) (start : Cursor) : LexedSegment := do
  let (name, rest) ← readName start.advance "filter name"
  let (options, rest) ← lexAttributes? rest
  let textStart := rest.skipSpacing
  let (line, lineEnd) := textStart.readLine
  let first := Text.trimEnd line
  let (block, rest) := readBlock width lineEnd
  let text : List Token :=
    if first.isEmpty && block.isNone then []
    else [⟨.text (joinBlock first block), textStart.position⟩]
  return ⟨⟨.statement (.filter name), start.position⟩ :: options ++ text, rest, false⟩

def lexCode (width : Nat) (start : Cursor) : LexedSegment :=
  match start.advance.peek with
  | some c =>
    if Text.isSpacing c || Text.isLineEnd c then
      body
    else
      .error ((Cause.unexpectedAfterDash c).diagnose start.position)
  | none => body
where
  body : LexedSegment :=
    let (line, lineEnd) := start.advance.skipSpacing.readLine
    let value := Text.trimEnd line
    if value.isEmpty then
      match readBlock width lineEnd with
      | (some block, rest) => .ok (statementOnly (.code block true) start rest)
      | (none, rest) => .ok ⟨[], rest, false⟩
    else
      .ok (statementOnly (.code (String.ofList value) false) start lineEnd)

def lexBinding (start : Cursor) : LexedSegment := do
  let (name, rest) := start.advance.readWhile isIdentifierChar
  let spaced := rest.skipSpacing
  if name.isEmpty || !spaced.startsWith "=" || spaced.startsWith "==" then
    throw (Cause.missingAssignment.diagnose start.position)
  let (value, rest) ← readSubject spaced.advance "assignment"
  return statementOnly (.binding (String.ofList ('$' :: name)) value) start rest

def lexEcho (start : Cursor) : Lexed :=
  match operators.find? fun operator => start.startsWith operator.text with
  | none =>
    let found := match start.peek with
      | some c => String.ofList [c]
      | none => " "
    .error ((Cause.unexpected found).diagnose start.position)
  | some operator => do
    let (value, rest) ← readSubject (start.skip operator.text.length) "expression"
    return ([⟨.expression ⟨value, operator.escaped, operator.checked⟩, start.position⟩], rest)

def lexTagPart (cursor : Cursor) : Except Diagnostic (Option (List Token × Cursor)) :=
  let nameFollows := cursor.advance.peek.any isNameChar
  match cursor.peek with
  | some '.' =>
    if nameFollows then
      let (name, rest) := cursor.advance.readWhile isNameChar
      .ok (some ([⟨.classShorthand (String.ofList name), cursor.position⟩], rest))
    else
      .ok none
  | some '#' =>
    if nameFollows then
      let (name, rest) := cursor.advance.readWhile isNameChar
      .ok (some ([⟨.idShorthand (String.ofList name), cursor.position⟩], rest))
    else
      .ok none
  | some '(' => (lexAttributes cursor).map some
  | some '&' => do
    let (name, rest) ← readName cursor.advance "assignment name"
    if rest.peek != some '(' then
      throw (Cause.missingAssignmentList.diagnose rest.position)
    let (arguments, rest) ← lexAttributes rest
    return some (⟨.assignment name, cursor.position⟩ :: arguments, rest)
  | _ => .ok none

def lexTagParts (cursor : Cursor) : Lexed :=
  match lexTagPart cursor with
  | .error diagnostic => .error diagnostic
  | .ok none => .ok ([], cursor)
  | .ok (some (tokens, rest)) =>
    if rest.remaining < cursor.remaining then
      match lexTagParts rest with
      | .error diagnostic => .error diagnostic
      | .ok (more, finish) => .ok (tokens ++ more, finish)
    else
      .ok (tokens, rest)
termination_by cursor.remaining

def lexTextBlock (width : Nat) (start : Cursor) : Lexed :=
  let lineEnd := start.advance.skipSpacing
  if lineEnd.atLineEnd then
    match readBlock width lineEnd with
    | (some block, rest) => .ok ([⟨.text block, start.position⟩], rest)
    | (none, rest) => .ok ([], rest)
  else
    .error (Cause.textAfterBlockDot.diagnose lineEnd.position)

def lexTagContent (width : Nat) (cursor : Cursor) : LexedSegment :=
  let ending (lexed : Lexed) : LexedSegment :=
    lexed.map fun (tokens, rest) => ⟨tokens, rest, false⟩
  match cursor.peek with
  | none => .ok ⟨[], cursor, false⟩
  | some c =>
    if Text.isLineEnd c then
      .ok ⟨[], cursor, false⟩
    else if c == '/' then
      .ok ⟨[⟨.selfClosing, cursor.position⟩], cursor.advance, false⟩
    else if c == '.' then
      ending (lexTextBlock width cursor)
    else if c == ':' then
      .ok ⟨[], cursor, true⟩
    else if c == '=' || c == '!' || c == '?' then
      ending (lexEcho cursor)
    else if Text.isSpacing c then
      let textStart := cursor.skipSpacing
      let (line, rest) := textStart.readLine
      let text : List Token :=
        if line.isEmpty then [] else [⟨.text (String.ofList line), textStart.position⟩]
      .ok ⟨text, rest, false⟩
    else
      .error ((Cause.unexpected (String.ofList [c])).diagnose cursor.position)

def lexTagTail (width : Nat) (head : Token) (cursor : Cursor) : LexedSegment := do
  let (parts, rest) ← lexTagParts cursor
  let content ← lexTagContent width rest
  return { content with tokens := head :: parts ++ content.tokens }

def lexCall (width : Nat) (start : Cursor) : LexedSegment := do
  let (name, rest) ← readName start.advance "mixin name"
  lexTagTail width ⟨.statement (.call name), start.position⟩ rest

def lexTag (width : Nat) (start : Cursor) : LexedSegment :=
  let (name, rest) := start.read (tagNameLength start.rest)
  lexTagTail width ⟨.tag (String.ofList name), start.position⟩ rest

def lexText (start textStart : Cursor) : LexedSegment :=
  let (line, rest) := textStart.readLine
  .ok ⟨[⟨.text (String.ofList line), start.position⟩], rest, false⟩

def lexKeyword (keyword : Keyword) (start cursor : Cursor) : LexedSegment :=
  match keyword with
  | .doctype => lexDoctype start cursor
  | .extending => lexExtends start cursor
  | .including => lexInclude start cursor
  | .block => lexBlock start cursor
  | .append => lexBlockName (some .append) start cursor
  | .prepend => lexBlockName (some .prepend) start cursor
  | .ifTrue => lexConditional .ifTrue start cursor
  | .ifFalse => lexConditional .ifFalse start cursor
  | .elseIf => lexConditional .elseIf start cursor
  | .otherwise => lexElse start cursor
  | .caseOf => do
    let (subject, rest) ← readSubject cursor "case"
    return statementOnly (.caseOf subject) start rest
  | .branch => lexBranch start cursor
  | .fallback => .ok ⟨[⟨.statement (.branch none), start.position⟩], cursor, true⟩
  | .each => lexEach start cursor
  | .whileLoop => do
    let (subject, rest) ← readSubject cursor "while"
    return statementOnly (.whileLoop subject) start rest
  | .doLoop => .ok (statementOnly .doLoop start cursor)
  | .forLoop => do
    let (subject, rest) ← readSubject cursor "for"
    return statementOnly (.forLoop subject) start rest
  | .mixin => lexMixin start cursor

inductive Opening where
  | comment
  | doctype
  | pipe
  | text
  | filter
  | call
  | code
  | echo
  | binding
  | shorthand
  | word
  | unknown (found : Char)
  deriving DecidableEq, Repr

def opening (cursor : Cursor) (first : Char) : Opening :=
  if cursor.startsWith "//" then .comment
  else if cursor.startsWith "!!!" then .doctype
  else if first == '|' then .pipe
  else if first == '<' || cursor.startsWith "#\x7b" || cursor.startsWith "#[" ||
      cursor.startsWith "!\x7b" then .text
  else if first == ':' then .filter
  else if first == '+' then .call
  else if first == '-' then .code
  else if first == '=' || first == '!' || first == '?' then .echo
  else if first == '$' then .binding
  else if first == '.' || first == '#' then .shorthand
  else if isIdentifierStart first then .word
  else .unknown first

def lexSegment (width : Nat) (cursor : Cursor) : LexedSegment :=
  match cursor.peek with
  | none => .ok ⟨[], cursor, false⟩
  | some first =>
    match opening cursor first with
    | .comment => lexComment width cursor
    | .doctype => lexDoctype cursor (cursor.skip 3)
    | .pipe =>
      let textStart := cursor.advance
      lexText cursor (if textStart.peek == some ' ' then textStart.advance else textStart)
    | .text => lexText cursor cursor
    | .filter => lexFilter width cursor
    | .call => lexCall width cursor
    | .code => lexCode width cursor
    | .echo => (lexEcho cursor).map fun (tokens, rest) => ⟨tokens, rest, false⟩
    | .binding => lexBinding cursor
    | .shorthand => lexTagTail width ⟨.tag "div", cursor.position⟩ cursor
    | .word =>
      match keyword? cursor with
      | some (keyword, rest) => lexKeyword keyword cursor rest
      | none => lexTag width cursor
    | .unknown found => .error ((Cause.unexpectedAtLineStart found).diagnose cursor.position)

end PugTemplate.Token
