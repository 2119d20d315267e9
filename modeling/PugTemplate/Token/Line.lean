import PugTemplate.Token.Segment

/-!
# Lines and indentation

A template is read line by line. A line's indentation is compared with the widths of the open
levels: a deeper line opens a level, a shallower one closes levels until its width is the
current one. Blank lines count for nothing.
-/

namespace PugTemplate.Token

/-- The open levels of indentation, innermost first, and the character that all of it is made
of, which the first indented line decides. -/
structure Indentation where
  style : Option Char
  levels : List Nat
  deriving DecidableEq, Repr

namespace Indentation

def none : Indentation :=
  ⟨.none, []⟩

def current (indentation : Indentation) : Nat :=
  indentation.levels.headD 0

def styleName (style : Char) : String :=
  if style == '\t' then "tabs" else "spaces"

def measure (indentation : Indentation) (spacing : List Char) : Except Cause Indentation :=
  match spacing with
  | [] => .ok indentation
  | first :: _ =>
    let style := indentation.style.getD first
    if spacing.all (· == style) then
      .ok { indentation with style := some style }
    else
      .error (.mixedIndentation (styleName style))

/-- Moves to the level of width `width`, with the token kinds for the levels opened or closed. -/
def moveTo (indentation : Indentation) (width : Nat) :
    Except Cause (List TokenKind × Indentation) :=
  if indentation.current < width then
    .ok ([.indent], { indentation with levels := width :: indentation.levels })
  else
    let levels := indentation.levels.dropWhile (width < ·)
    let closed := List.replicate (indentation.levels.length - levels.length) TokenKind.outdent
    let moved := { indentation with levels := levels }
    if moved.current == width then .ok (closed, moved) else .error .inconsistentIndentation

end Indentation

/-- The number of characters of the blank lines at the front of a text. `passed` counts those of
whole blank lines and `pending` those of the line being looked at. -/
def blankLength (passed pending : Nat) : List Char → Nat
  | [] => passed + pending
  | c :: rest =>
    if Text.isSpacing c then
      blankLength passed (pending + 1) rest
    else if Text.isLineEnd c then
      blankLength (passed + pending + 1) 0 rest
    else
      passed

def skipBlankLines (cursor : Cursor) : Cursor :=
  cursor.skip (blankLength 0 0 cursor.rest)

def lexSegments (width : Nat) (cursor : Cursor) : Lexed :=
  match lexSegment width cursor with
  | .error diagnostic => .error diagnostic
  | .ok segment =>
    if segment.expands && segment.rest.peek == some ':' then
      let next := segment.rest.advance.skipSpacing
      if next.atLineEnd then
        .ok (segment.tokens, next)
      else if next.remaining < cursor.remaining then
        match lexSegments width next with
        | .error diagnostic => .error diagnostic
        | .ok (more, finish) =>
          .ok (segment.tokens ++ ⟨.expansion, segment.rest.position⟩ :: more, finish)
      else
        .ok (segment.tokens, next)
    else
      .ok (segment.tokens, segment.rest)
termination_by cursor.remaining

def lexLineEnd (cursor : Cursor) : Lexed :=
  let rest := cursor.skipSpacing
  if rest.atLineEnd then
    .ok ([⟨.newLine, rest.position⟩], rest.skipLineEnd)
  else
    let found := rest.peek.getD ' '
    .error ((Cause.unexpected (String.ofList [found])).diagnose rest.position)

def lexLine (indentation : Indentation) (cursor : Cursor) :
    Except Diagnostic (List Token × Indentation × Cursor) := do
  let fail {α : Type} : Except Cause α → Except Diagnostic α :=
    Except.mapError (Cause.diagnose · cursor.position)
  let (spacing, content) := cursor.readWhile Text.isSpacing
  let measured ← fail (indentation.measure spacing)
  let (levels, moved) ← fail (measured.moveTo spacing.length)
  let (tokens, rest) ← lexSegments spacing.length content
  let (ending, rest) ← lexLineEnd rest
  return (levels.map (⟨·, cursor.position⟩) ++ tokens ++ ending, moved, rest)

/-- The tokens of a template up to its first fault, if it has one. The line at fault gives no
tokens. -/
structure Stream where
  tokens : List Token
  failure : Option Diagnostic
  deriving Repr

def lexLines (indentation : Indentation) (cursor : Cursor) : Stream :=
  let line := skipBlankLines cursor
  if line.atEnd then
    ⟨indentation.levels.map fun _ => ⟨.outdent, line.position⟩, none⟩
  else
    match lexLine indentation line with
    | .error diagnostic => ⟨[], some diagnostic⟩
    | .ok (tokens, moved, rest) =>
      if rest.remaining < cursor.remaining then
        let stream := lexLines moved rest
        ⟨tokens ++ stream.tokens, stream.failure⟩
      else
        ⟨tokens, none⟩
termination_by cursor.remaining

def stream (source : String) : Stream :=
  lexLines .none (Cursor.ofText source)

def tokenize (source : String) : Except Diagnostic (List Token) :=
  let result := stream source
  match result.failure with
  | none => .ok result.tokens
  | some diagnostic => .error diagnostic

end PugTemplate.Token
