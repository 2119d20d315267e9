import PugTemplate.Proofs.Lines
import PugTemplate.Proofs.Success

/-!
# Headers of lines

A line is read up to the end of its header, and behind that a raw block may follow. Only how much
the block takes in depends on the indentation of the line. So a line is its header, read without
regard to indentation, filled with its block.
-/

namespace PugTemplate.Token

open Cursor

/-- What the text of a raw block is for. -/
inductive Raw where
  | comment (first : List Char) (rendered : Bool)
  | filtered (first : List Char)
  | code
  | text
  deriving DecidableEq, Repr

/-- The tokens for a block, which may be missing. -/
def Raw.kinds : Raw → Option String → List TokenKind
  | comment first rendered, block => [.statement (.comment (joinBlock first block) rendered)]
  | filtered first, block =>
    if first.isEmpty && block.isNone then [] else [.text (joinBlock first block)]
  | code, block => (block.map fun value => .statement (.code value true)).toList
  | text, block => (block.map .text).toList

/-- What may follow behind a header. -/
inductive Tail where
  /-- A colon begins another segment. -/
  | chain
  | nothing
  | block (raw : Raw) (position : Position)
  deriving DecidableEq, Repr

def Tail.raw? : Tail → Option Raw
  | .block raw _ => some raw
  | _ => none

/-- A line or a segment of it, without its raw block. -/
structure Header where
  tokens : List Token
  tail : Tail
  rest : Cursor
  deriving DecidableEq, Repr

/-- The segment that a header begins, on a line of indentation `width`. -/
def Header.fill (width : Nat) (header : Header) : Segment :=
  match header.tail with
  | .chain => ⟨header.tokens, header.rest, true⟩
  | .nothing => ⟨header.tokens, header.rest, false⟩
  | .block raw position =>
    let (block, rest) := readBlock width header.rest
    ⟨header.tokens ++ (raw.kinds block).map (⟨·, position⟩), rest, false⟩

def Header.ofSegment (segment : Segment) : Header :=
  ⟨segment.tokens, if segment.expands then .chain else .nothing, segment.rest⟩

lemma Header.fill_ofSegment (width segment) : (ofSegment segment).fill width = segment := by
  obtain ⟨tokens, rest, expands⟩ := segment
  cases expands with
  | true | false => rfl

abbrev Headed := Except Diagnostic Header

def headComment (start : Cursor) : Header :=
  let opened := start.skip 2
  let (rendered, body) := match opened.consume? "-" with
    | some body => (false, body)
    | none => (true, opened)
  let (line, lineEnd) := body.readLine
  ⟨[], .block (.comment (Text.trim line) rendered) start.position, lineEnd⟩

def headFilter (start : Cursor) : Headed := do
  let (name, rest) ← readName start.advance "filter name"
  let (options, rest) ← lexAttributes? rest
  let textStart := rest.skipSpacing
  let (line, lineEnd) := textStart.readLine
  return ⟨⟨.statement (.filter name), start.position⟩ :: options,
    .block (.filtered (Text.trimEnd line)) textStart.position, lineEnd⟩

def headCode (start : Cursor) : Headed :=
  match start.advance.peek with
  | some c =>
    if Text.isSpacing c || Text.isLineEnd c then
      .ok body
    else
      .error ((Cause.unexpectedAfterDash c).diagnose start.position)
  | none => .ok body
where
  body : Header :=
    let (line, lineEnd) := start.advance.skipSpacing.readLine
    let value := Text.trimEnd line
    if value.isEmpty then
      ⟨[], .block .code start.position, lineEnd⟩
    else
      ⟨[⟨.statement (.code (String.ofList value) false), start.position⟩], .nothing, lineEnd⟩

def headTextBlock (start : Cursor) : Headed :=
  let lineEnd := start.advance.skipSpacing
  if lineEnd.atLineEnd then
    .ok ⟨[], .block .text start.position, lineEnd⟩
  else
    .error (Cause.textAfterBlockDot.diagnose lineEnd.position)

/-- What a tag contains on its own line. A dot opens a block, and nothing else does. -/
def headTagContent (cursor : Cursor) : Headed :=
  if cursor.peek == some '.' then headTextBlock cursor
  else (lexTagContent 0 cursor).map Header.ofSegment

def headTagTail (head : Token) (cursor : Cursor) : Headed := do
  let (parts, rest) ← lexTagParts cursor
  let content ← headTagContent rest
  return { content with tokens := head :: parts ++ content.tokens }

/-- The header of the segment at the cursor. -/
def headSegment (cursor : Cursor) : Headed :=
  match cursor.peek with
  | none => .ok ⟨[], .nothing, cursor⟩
  | some first =>
    match opening cursor first with
    | .comment => .ok (headComment cursor)
    | .filter => headFilter cursor
    | .code => headCode cursor
    | .call => do
      let (name, rest) ← readName cursor.advance "mixin name"
      headTagTail ⟨.statement (.call name), cursor.position⟩ rest
    | .shorthand => headTagTail ⟨.tag "div", cursor.position⟩ cursor
    | .word =>
      match keyword? cursor with
      | some (keyword, rest) => (lexKeyword keyword cursor rest).map Header.ofSegment
      | none =>
        let (name, rest) := cursor.read (tagNameLength cursor.rest)
        headTagTail ⟨.tag (String.ofList name), cursor.position⟩ rest
    | _ => (lexSegment 0 cursor).map Header.ofSegment

/-- The header of the line at the cursor, behind its indentation. -/
def headSegments (cursor : Cursor) : Headed :=
  match headSegment cursor with
  | .error diagnostic => .error diagnostic
  | .ok header =>
    if header.tail == .chain && header.rest.peek == some ':' then
      let next := header.rest.advance.skipSpacing
      if next.atLineEnd then
        .ok ⟨header.tokens, .nothing, next⟩
      else if next.remaining < cursor.remaining then
        match headSegments next with
        | .error diagnostic => .error diagnostic
        | .ok more =>
          .ok { more with
            tokens := header.tokens ++ ⟨.expansion, header.rest.position⟩ :: more.tokens }
      else
        .ok ⟨header.tokens, .nothing, next⟩
    else
      .ok header
termination_by cursor.remaining

lemma headTagContent_gives (cursor) : Gives (headTagContent cursor) fun header => Reaches cursor header.rest := by
  unfold headTagContent
  split
  · unfold headTextBlock
    dsimp only
    split
    · exact cursor.reaches_advance.trans (reaches_skipSpacing _)
    · exact .fault rfl _
  · have given := @lexTagContent_gives 0 cursor (.tag "") rfl
    exact given.map fun segment found => found.2.reaches

lemma headTagTail_gives (head cursor) : Gives (headTagTail head cursor) fun header => Reaches cursor header.rest :=
  (lexTagParts_gives cursor).bind fun _ found =>
    (headTagContent_gives _).bind fun _ reaches => found.2.reaches.trans reaches

lemma headCode_gives (cursor) : Gives (headCode cursor) fun header => Reaches cursor header.rest := by
  have body : Reaches cursor (headCode.body cursor).rest := by
    have line := cursor.reaches_advance.trans ((reaches_skipSpacing _).trans (reaches_readLine _))
    unfold headCode.body
    dsimp only
    split
    · exact line
    · exact line
  unfold headCode
  split
  · split
    · exact body
    · exact .fault rfl _
  · exact body

variable {cursor : Cursor}

lemma headSegment_gives (going : cursor.atLineEnd = false) :
    Gives (headSegment cursor) fun header => Reaches cursor header.rest := by
  unfold headSegment
  split
  · exact .refl cursor
  · split
    · unfold headComment
      dsimp only
      have opened := cursor.reaches_skip 2
      split
      · rename_i body consumed
        exact opened.trans ((consume_reaches consumed).trans body.reaches_readLine)
      · exact opened.trans (reaches_readLine _)
    · apply (readName_gives cursor.advance "filter name").bind
      rintro ⟨name, rest⟩ named
      apply (optional_list_gives rest).bind
      rintro ⟨options, finish⟩ ⟨-, listed⟩
      exact (cursor.reaches_advance.trans (named.trans listed.reaches)).trans
        ((reaches_skipSpacing _).trans (reaches_readLine _))
    · exact headCode_gives cursor
    · apply (readName_gives cursor.advance "mixin name").bind
      rintro ⟨name, rest⟩ named
      exact (headTagTail_gives _ rest).imp fun header reaches =>
        cursor.reaches_advance.trans (named.trans reaches)
    · exact headTagTail_gives _ cursor
    · split
      · rename_i keyword rest found
        obtain ⟨_, _, same⟩ := Option.map_eq_some_iff.1 found
        cases same
        have fits := @lexKeyword_fits 0 cursor keyword _ (cursor.reaches_skip keyword.word.length)
        exact fits.map fun segment fits => fits.reaches
      · exact (headTagTail_gives _ _).imp fun header reaches => (cursor.reaches_skip _).trans reaches
    · exact (lexSegment_fits 0 cursor going).map fun segment fits => fits.reaches

lemma headSegments_step : headSegments cursor = headSegment cursor >>= fun header =>
      if header.tail == .chain && header.rest.peek == some ':' then
        if header.rest.advance.skipSpacing.atLineEnd then
          .ok ⟨header.tokens, .nothing, header.rest.advance.skipSpacing⟩
        else if header.rest.advance.skipSpacing.remaining < cursor.remaining then
          (headSegments header.rest.advance.skipSpacing).map fun more =>
            { more with tokens := header.tokens ++ ⟨.expansion, header.rest.position⟩ :: more.tokens }
        else .ok ⟨header.tokens, .nothing, header.rest.advance.skipSpacing⟩
      else .ok header := by
  rw [headSegments]
  cases headSegment cursor with
  | error diag => rfl
  | ok header =>
    change _ = if header.tail == .chain && header.rest.peek == some ':' then _ else _
    dsimp only
    cases headSegments header.rest.advance.skipSpacing <;> rfl

lemma headSegments_gives (going : cursor.atLineEnd = false) :
    Gives (headSegments cursor) fun header => Reaches cursor header.rest := by
  induction cursor using remaining_induction with
  | step cursor ih =>
    rw [headSegments_step]
    refine (headSegment_gives going).bind fun header reaches => ?_
    have next := reaches.trans (header.rest.reaches_advance.trans (reaches_skipSpacing _))
    split
    · split
      · exact next
      · rename_i continues
        split
        · rename_i shorter
          exact (ih _ shorter (Bool.eq_false_iff.2 continues)).map fun more further =>
            next.trans further
        · exact next
    · exact reaches

variable {header : Header}

lemma headSegments_reaches (going : cursor.atLineEnd = false)
    (ok : headSegments cursor = .ok header) : Reaches cursor header.rest :=
  (headSegments_gives going).of_ok ok

/-- A header that a block may follow ends at the end of its line. -/
def Header.Ended (header : Header) : Prop :=
  header.tail.raw? ≠ none → header.rest.atLineEnd = true

lemma Header.ofSegment_ended (segment) : (Header.ofSegment segment).Ended := by
  obtain ⟨tokens, rest, expands⟩ := segment
  intro isBlock
  cases expands with
  | true | false => exact absurd rfl isBlock

lemma headTagTail_ended (ok : headTagTail head cursor = .ok header) : header.Ended := by
  obtain ⟨⟨parts, rest⟩, -, ok⟩ := ok_of_bind ok
  obtain ⟨content, read, ⟨⟩⟩ := ok_of_pure ok
  unfold headTagContent at read
  split at read
  · unfold headTextBlock at read
    dsimp only at read
    split at read
    · rename_i ended
      cases read
      exact fun _ => ended
    · cases read
  · obtain ⟨segment, -, rfl⟩ := ok_of_map read
    exact Header.ofSegment_ended segment

lemma headCode_ended (ok : headCode cursor = .ok header) : header.Ended := by
  have body : (headCode.body cursor).Ended := by
    unfold headCode.body
    dsimp only
    split
    · exact fun _ => readLine_ended _
    · exact fun isBlock => absurd rfl isBlock
  unfold headCode at ok
  split at ok
  · split at ok
    · cases ok
      exact body
    · cases ok
  · cases ok
    exact body

lemma headSegment_ended (ok : headSegment cursor = .ok header) : header.Ended := by
  unfold headSegment at ok
  split at ok
  · cases ok
    exact fun isBlock => absurd rfl isBlock
  · split at ok
    · cases ok
      exact fun _ => readLine_ended _
    · obtain ⟨⟨name, rest⟩, -, ok⟩ := ok_of_bind ok
      obtain ⟨⟨options, listEnd⟩, -, same⟩ := ok_of_bind ok
      cases same
      exact fun _ => readLine_ended _
    · exact headCode_ended ok
    · obtain ⟨⟨name, rest⟩, -, ok⟩ := ok_of_bind ok
      exact headTagTail_ended ok
    · exact headTagTail_ended ok
    · split at ok
      · obtain ⟨segment, -, rfl⟩ := ok_of_map ok
        exact Header.ofSegment_ended segment
      · exact headTagTail_ended ok
    · obtain ⟨segment, -, rfl⟩ := ok_of_map ok
      exact Header.ofSegment_ended segment

lemma headSegments_ended (ok : headSegments cursor = .ok header) : header.Ended := by
  induction cursor using remaining_induction generalizing header with
  | step cursor ih =>
    rw [headSegments_step] at ok
    obtain ⟨first, read, ok⟩ := ok_of_bind ok
    split at ok
    · split at ok
      · cases ok
        exact fun isBlock => absurd rfl isBlock
      · split at ok
        · rename_i shorter
          obtain ⟨more, again, rfl⟩ := ok_of_map ok
          have later : more.Ended := ih _ shorter again
          exact later
        · cases ok
          exact fun isBlock => absurd rfl isBlock
    · cases ok
      exact headSegment_ended read

section Filled

variable (width : Nat) (start : Cursor)

lemma lexFilter_eq : lexFilter width start = (headFilter start).map (Header.fill width) := by
  unfold lexFilter headFilter
  cases readName start.advance "filter name" with
  | error diag => rfl
  | ok found =>
    cases listed : lexAttributes? found.2 with
    | error diag => simp only [bind, Except.bind, listed]; rfl
    | ok options =>
      simp only [bind, Except.bind, listed, Except.map, pure, Except.pure, Header.fill, Raw.kinds]
      split
      · rfl
      · rfl

lemma lexCode_body_eq : lexCode.body width start = .ok ((headCode.body start).fill width) := by
  unfold lexCode.body headCode.body
  dsimp only
  split
  · simp only [Header.fill]
    split
    · rename_i block rest read
      rw [read]
      rfl
    · rename_i rest read
      rw [read]
      rfl
  · rfl

lemma lexCode_eq : lexCode width start = (headCode start).map (Header.fill width) := by
  have body := lexCode_body_eq width start
  unfold lexCode headCode
  cases start.advance.peek with
  | none => exact body
  | some c =>
    dsimp only
    split
    · exact body
    · rfl

lemma lexTextBlock_eq : (lexTextBlock width start).map (fun (tokens, rest) => (⟨tokens, rest, false⟩ : Segment)) =
      (headTextBlock start).map (Header.fill width) := by
  unfold lexTextBlock headTextBlock
  dsimp only
  split
  · cases read : readBlock width start.advance.skipSpacing with
    | mk block rest =>
      simp only [Except.map, Header.fill, read]
      cases block with
      | none | some => rfl
  · rfl

lemma lexTagContent_eq : lexTagContent width start = (headTagContent start).map (Header.fill width) := by
  unfold headTagContent
  by_cases isDot : start.peek = some '.'
  · rw [if_pos (by simp [isDot]), ← lexTextBlock_eq]
    unfold lexTagContent
    rw [isDot]
    rfl
  · have same : lexTagContent width start = lexTagContent 0 start := by
      unfold lexTagContent
      split
      · rfl
      · rename_i c first
        have noDot : ¬ (c == '.') := by
          intro dot
          rw [beq_iff_eq.1 dot] at first
          exact isDot first
        simp only [if_neg noDot]
    rw [if_neg (by simpa using isDot), same]
    cases lexTagContent 0 start with
    | error diag => rfl
    | ok segment => exact congrArg Except.ok (Header.fill_ofSegment width segment).symm

lemma lexTagTail_eq (head) : lexTagTail width head start = (headTagTail head start).map (Header.fill width) := by
  unfold lexTagTail headTagTail
  cases lexTagParts start with
  | error diag => rfl
  | ok parts =>
    simp only [bind, Except.bind, lexTagContent_eq width]
    cases headTagContent parts.2 with
    | error diag => rfl
    | ok content =>
      obtain ⟨tokens, tail, rest⟩ := content
      cases tail with
      | chain | nothing => rfl
      | block raw pos =>
        simp [Except.map, pure, Except.pure, Header.fill]

lemma lexSegment_eq : lexSegment width start = (headSegment start).map (Header.fill width) := by
  have plain : ∀ segment : LexedSegment, segment = (segment.map Header.ofSegment).map (Header.fill width) := by
    intro segment
    cases segment with
    | error diag => rfl
    | ok segment => exact congrArg Except.ok (Header.fill_ofSegment width segment).symm
  unfold headSegment
  cases first : start.peek with
  | none =>
    unfold lexSegment
    rw [first]
    rfl
  | some c =>
    rw [lexSegment, first]
    dsimp only
    cases opens : opening start c with
    | comment => rfl
    | filter => exact lexFilter_eq width start
    | code => exact lexCode_eq width start
    | call =>
      unfold lexCall
      cases readName start.advance "mixin name" with
      | error diag => rfl
      | ok found => exact lexTagTail_eq width found.2 _
    | shorthand => exact lexTagTail_eq width start _
    | word =>
      cases keyword? start with
      | none => exact lexTagTail_eq width _ _
      | some found => exact plain _
    | _ =>
      rw [lexSegment, first]
      dsimp only
      rw [opens]
      exact plain _

lemma lexSegments_eq : lexSegments width start =
    (headSegments start).map fun header => ((header.fill width).tokens, (header.fill width).rest) := by
  induction start using remaining_induction with
  | step start ih =>
    unfold lexSegments headSegments
    rw [lexSegment_eq]
    cases headSegment start with
    | error diag => rfl
    | ok header =>
      obtain ⟨tokens, tail, rest⟩ := header
      cases tail with
      | chain =>
        simp only [Except.map, Header.fill, beq_self_eq_true]
        split
        · split
          · rfl
          · split
            · rename_i shorter
              rw [ih _ shorter]
              cases headSegments rest.advance.skipSpacing with
              | error diag => rfl
              | ok more =>
                obtain ⟨others, tail, finish⟩ := more
                cases tail with
                | chain | nothing => rfl
                | block raw pos => simp [Except.map, Header.fill]
            · rfl
        · rfl
      | nothing | block => rfl

end Filled

end PugTemplate.Token
