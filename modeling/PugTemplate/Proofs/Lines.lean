import PugTemplate.Proofs.PhysicalLines

/-!
# Lines of tokens

The lexer reads a template as a list of lines. Each line comes with the levels that it opens or
closes. A line that ends in an empty segment or in a filter is never followed by a deeper one, since
deeper lines would have been its block.
-/

namespace PugTemplate

namespace Token

open Cursor Text List

inductive Moves (levels : List Nat) (width : Nat) : List TokenKind → List Nat → Prop
  | opens (deeper : levels.headD 0 < width) : Moves levels width [.indent] (width :: levels)
  | closes {closed after} (split : levels = closed ++ after)
      (deeper : ∀ level ∈ closed, width < level) (reached : after.headD 0 = width) :
      Moves levels width (List.replicate closed.length .outdent) after

variable {indentation : Indentation} {width : Nat}

lemma Moves.no_text {later kinds} (moves : Moves levels width kinds later) :
    ∀ kind ∈ kinds, textLength kind = 0 := by
  intro kind mem
  cases moves with
  | opens deeper =>
    rw [mem_singleton.1 mem]
    rfl
  | closes split deeper reached =>
    rw [eq_of_mem_replicate mem]
    rfl

lemma measure_levels
    (ok : indentation.measure spacing = .ok measured) : measured.levels = indentation.levels := by
  unfold Indentation.measure at ok
  split at ok
  · cases ok
    rfl
  · dsimp only at ok
    split at ok
    · cases ok
      rfl
    · cases ok

lemma moveTo_moves (ok : indentation.moveTo width = .ok (kinds, moved)) :
    Moves indentation.levels width kinds moved.levels := by
  unfold Indentation.moveTo at ok
  split at ok
  · rename_i deeper
    cases ok
    exact .opens deeper
  · dsimp only at ok
    split at ok
    · rename_i reached
      cases ok
      have parts := @takeWhile_append_dropWhile _ (fun level => decide (width < level))
        indentation.levels
      have count : indentation.levels.length -
          (indentation.levels.dropWhile fun level => decide (width < level)).length =
            (indentation.levels.takeWhile fun level => decide (width < level)).length := by
        have total := congrArg List.length parts
        rw [length_append] at total
        omega
      rw [count]
      apply Moves.closes parts.symm
      · intro level mem
        simpa using all_eq_true.1 all_takeWhile level mem
      · exact beq_iff_eq.1 reached
    · cases ok

lemma Moves.current {after kinds}
    (moves : Moves levels width kinds after) : after.headD 0 = width := by
  cases moves with
  | opens deeper => rfl
  | closes split deeper reached => exact reached

/-- A line of tokens: the levels it opens or closes, its content and its end. -/
structure Line where
  start : Position
  width : Nat
  moves : List TokenKind
  content : List Token
  sealed : Bool
  finish : Position

namespace Line

def tokens (line : Line) : List Token :=
  line.moves.map (⟨·, line.start⟩) ++ line.content ++ [⟨.newLine, line.finish⟩]

/-- A line stands where its tokens say, and is as wide as the physical line there. -/
structure Placed (text : List Char) (line : Line) : Prop where
  width : physicalWidth text line.start.line = line.width
  head : ∀ token ∈ line.tokens.head?, token.position.line = line.start.line

/-- What is asked of a line that was read between two cursors. -/
structure Read (cursor : Cursor) (levels after : List Nat) (lineEnd : Cursor) (line : Line) :
    Prop where
  start : line.start = cursor.position
  width : line.width = (cursor.rest.takeWhile isSpacing).length
  moves : Moves levels line.width line.moves after
  joined : Joined line.content line.sealed
  head : ∀ token ∈ line.tokens.head?, token.position.line = cursor.position.line
  trail : Trail cursor line.tokens lineEnd
  progress : lineEnd.remaining < cursor.remaining
  ended : lineEnd.atLineEnd = true
  block : line.sealed → NoBlock line.width lineEnd
  first : ∀ c ∈ (cursor.rest.dropWhile isSpacing).head?, isBlank c = false

lemma Read.reaches {cursor lineEnd levels after} {line : Line}
    (read : line.Read cursor levels after lineEnd) : Reaches cursor lineEnd :=
  read.trail.reaches

end Line

lemma Gives.located {α : Type} {result : Except Cause α} {prop} (pos)
    (given : ∀ value, result = .ok value → prop value)
    (lexical : ∀ cause, result = .error cause → cause.stage = .lex) :
    Gives (result.mapError (Cause.diagnose · pos)) prop := by
  cases result with
  | error cause => exact .fault (lexical cause rfl) pos
  | ok value => exact given value rfl

lemma lexLineEnd_gives (cursor) : Gives (lexLineEnd cursor) fun ok => cursor.skipSpacing.atLineEnd = true ∧
    ok = ([⟨.newLine, cursor.skipSpacing.position⟩], cursor.skipSpacing.skipLineEnd) := by
  unfold lexLineEnd
  dsimp only
  split
  · rename_i ended
    exact ⟨ended, rfl⟩
  · exact .fault rfl _

lemma measure_lexical (ok : indentation.measure spacing = .error cause) : cause.stage = .lex := by
  unfold Indentation.measure at ok
  split at ok
  · cases ok
  · dsimp only at ok
    split at ok
    · cases ok
    · cases ok
      rfl

lemma moveTo_lexical (ok : indentation.moveTo width = .error cause) : cause.stage = .lex := by
  unfold Indentation.moveTo at ok
  split at ok
  · cases ok
  · dsimp only at ok
    split at ok
    · cases ok
    · cases ok
      rfl

lemma Written.content {cursor : Cursor} (written : Written cursor.rest) : cursor.skipSpacing.atLineEnd = false := by
  obtain ⟨spaces, c, more, text, spacing, noSpacing, noEnd⟩ := written
  rw [Bool.eq_false_iff]
  intro ended
  rw [atLineEnd_iff, skipSpacing_rest, text, dropWhile_append_of_pos spacing,
    dropWhile_cons_of_neg (by simp [noSpacing])] at ended
  have isEnd := ended c rfl
  rw [noEnd] at isEnd
  cases isEnd

lemma lexLine_gives (indentation cursor) (written : Written cursor.rest) :
    Gives (lexLine indentation cursor) fun ok => ∃ (line : Line) (lineEnd : Cursor),
      ok.1 = line.tokens ∧ ok.2.2 = lineEnd.skipLineEnd ∧
        line.Read cursor indentation.levels ok.2.1.levels lineEnd := by
  have going := written.content
  have onLine := SameLine.of_skipSpacing cursor
  have width : (cursor.readWhile isSpacing).1.length = (cursor.rest.takeWhile isSpacing).length := by
    rw [readWhile_value]
  apply (Gives.located cursor.position (fun _ => measure_levels) fun _ => measure_lexical).bind
  intro measured measuredLevels
  apply (Gives.located cursor.position (fun _ found => found) fun _ => moveTo_lexical).bind
  rintro ⟨moves, moved⟩ moving
  have movesLevels := moveTo_moves moving
  rw [measuredLevels] at movesLevels
  have segments := lexSegments_gives (cursor.readWhile isSpacing).1.length cursor.skipSpacing going
  apply segments.with_result.bind
  rintro ⟨content, rest⟩ ⟨read, sealed, chained⟩
  apply (lexLineEnd_gives rest).bind
  rintro ⟨ending, finish⟩ ⟨ended, same⟩
  cases same
  have further := chained.trail.reaches.trans rest.reaches_skipSpacing
  have moved : Trail cursor (moves.map (⟨·, cursor.position⟩)) cursor.skipSpacing :=
    .repeated (by simpa using movesLevels.no_text) (.refl cursor) onLine.reaches
  have ending : Trail rest [⟨.newLine, rest.skipSpacing.position⟩] rest.skipSpacing :=
    .cons rest.reaches_skipSpacing (Nat.zero_le _) (.nil (.refl _))
  refine ⟨⟨cursor.position, _, moves, content, sealed, rest.skipSpacing.position⟩, rest.skipSpacing,
    rfl, rfl, ⟨rfl, width, movesLevels, chained.joined, ?_,
      (moved.append chained.trail).append ending, ?_, ended, ?_, ?_⟩⟩
  · intro token first
    rcases moves with _ | ⟨kind, more⟩
    · rcases content with _ | ⟨head, others⟩
      · cases first
        exact (((chained.line rfl).trans (.of_skipSpacing rest)).line_eq).trans onLine.line_eq
      · cases first
        rw [chained.place token rfl]
        exact onLine.line_eq
    · cases first
      rfl
  · apply Nat.lt_of_lt_of_le _ onLine.reaches.remaining_le
    apply Nat.lt_of_not_le
    intro same
    rw [further.eq_of_remaining same, going] at ended
    cases ended
  · intro isSealed
    have noBlock := chained.block isSealed
    rw [skipSpacing_ended noBlock.ended]
    exact noBlock
  · intro c first
    apply lexSegments_not_blank read
    rw [peek, skipSpacing_rest]
    exact first

/-- Lines that may follow at open levels. The flag says that the line before is sealed. -/
inductive Outlined : List Nat → Bool → List Line → List Nat → Prop
  | nil {levels sealed} : Outlined levels sealed [] levels
  | cons {levels after final sealed line lines}
      (moves : Moves levels line.width line.moves after)
      (shallow : sealed = true → line.width ≤ levels.headD 0)
      (joined : Joined line.content line.sealed) (rest : Outlined after line.sealed lines final) :
      Outlined levels sealed (line :: lines) final

/-- The tokens behind the last line close all levels, unless the lexer failed. -/
def Closing (failure : Option Diagnostic) (levels : List Nat) (tokens : List Token) : Prop :=
  match failure with
  | none => ∃ position, tokens = levels.map fun _ => ⟨.outdent, position⟩
  | some diagnostic => tokens = [] ∧ diagnostic.Lexical

lemma skipBlankLines_written (going : (skipBlankLines cursor).atEnd = false) :
    Written (skipBlankLines cursor).rest := by
  obtain ⟨blank, rest, split, length, after⟩ := blankLength_split cursor.rest
  have remainder := skipBlankLines_rest split length
  rw [remainder]
  rcases after with nothing | ⟨written, -⟩
  · rw [atEnd, remainder, nothing] at going
    cases going
  · exact written

lemma NoBlock.shallow {lineEnd} (noBlock : NoBlock width lineEnd)
    {levels after} {line : Line} {next : Cursor}
    (read : line.Read (skipBlankLines lineEnd.skipLineEnd) levels after next) : line.width ≤ width := by
  have isLine : (skipBlankLines lineEnd.skipLineEnd).rest = (lineEnd.rest.drop (lineEndLength lineEnd.rest)).drop
        (blankLength 0 0 (lineEnd.rest.drop (lineEndLength lineEnd.rest))) := by
    simp [skipBlankLines, skipLineEnd, rest_skip]
  have progress := read.progress
  rcases no_deeper_line ((atLineEnd_iff lineEnd).1 noBlock.ended) noBlock.block isLine with
    nothing | shallow | ⟨c, first, isBlank⟩
  · rw [remaining, remaining, nothing] at progress
    cases progress
  · rw [read.width]
    exact shallow
  · rw [read.first c first] at isBlank
    cases isBlank

/-- How the lexer goes through the lines of a text: to the end, where it closes all levels, or to a line that
it cannot read. -/
inductive Lexes : Indentation → Cursor → Stream → Prop
  | ended {indentation cursor} (atEnd : (skipBlankLines cursor).atEnd) : Lexes indentation cursor
      ⟨indentation.levels.map fun _ => ⟨.outdent, (skipBlankLines cursor).position⟩, none⟩
  | failed {indentation cursor diagnostic} (going : (skipBlankLines cursor).atEnd = false)
      (fails : lexLine indentation (skipBlankLines cursor) = .error diagnostic) :
      Lexes indentation cursor ⟨[], some diagnostic⟩
  | line {indentation moved cursor stream} {line : Line} {lineEnd}
      (going : (skipBlankLines cursor).atEnd = false)
      (reads : lexLine indentation (skipBlankLines cursor) = .ok (line.tokens, moved, lineEnd.skipLineEnd))
      (read : line.Read (skipBlankLines cursor) indentation.levels moved.levels lineEnd)
      (shorter : lineEnd.skipLineEnd.remaining < cursor.remaining)
      (rest : Lexes moved lineEnd.skipLineEnd stream) :
      Lexes indentation cursor ⟨line.tokens ++ stream.tokens, stream.failure⟩

lemma lexLines_lexes (indentation cursor) : Lexes indentation cursor (lexLines indentation cursor) := by
  -- on what is left to read, which every line shortens
  induction cursor using remaining_induction generalizing indentation with
  | step cursor ih =>
    unfold lexLines
    dsimp only
    cases atEnd : (skipBlankLines cursor).atEnd with
    | true => exact .ended atEnd
    | false =>
      rw [if_neg (by simp)]
      split
      · rename_i diag failed
        exact .failed atEnd failed
      · rename_i tokens moved rest ok
        have gives := lexLine_gives indentation _ (skipBlankLines_written atEnd)
        obtain ⟨line, lineEnd, same, further, read⟩ := gives.of_ok ok
        subst same further
        have shorter : lineEnd.skipLineEnd.remaining < cursor.remaining :=
          Nat.lt_of_le_of_lt lineEnd.reaches_skipLineEnd.remaining_le
            (Nat.lt_of_lt_of_le read.progress (cursor.reaches_skip _).remaining_le)
        rw [if_pos shorter]
        exact .line atEnd ok read shorter (ih _ shorter moved)

lemma reaches_skipBlankLines (cursor) : Reaches cursor (skipBlankLines cursor) := cursor.reaches_skip _

lemma Line.Read.reached {line : Line} (read : line.Read (skipBlankLines cursor) levels moved lineEnd) :
    Reaches cursor lineEnd.skipLineEnd :=
  (reaches_skipBlankLines cursor).trans (read.reaches.trans lineEnd.reaches_skipLineEnd)

lemma Line.Read.placed {line : Line} (read : line.Read (skipBlankLines cursor) levels moved lineEnd)
    (tracks : Tracks text cursor) (atStart : cursor.position.offset = 0 ∨ cursor.rest = [])
    (going : (skipBlankLines cursor).atEnd = false) : line.Placed text := by
  have offset : (skipBlankLines cursor).position.offset = 0 := by
    rcases skipBlankLines_offset atStart with zero | nothing
    · exact zero
    · rw [Cursor.atEnd, nothing] at going
      cases going
  constructor
  · rw [read.start, (tracks.reaches (reaches_skipBlankLines cursor)).width offset, read.width]
  · rw [read.start]
    exact read.head

lemma lexLines_outlined (text indentation cursor sealed) (tracks : Tracks text cursor)
    (atStart : cursor.position.offset = 0 ∨ cursor.rest = [])
    (block : sealed = true → ∃ lineEnd, NoBlock indentation.current lineEnd ∧ cursor = lineEnd.skipLineEnd) :
    ∃ lines final closing, Outlined indentation.levels sealed lines final ∧
      (lexLines indentation cursor).tokens = lines.flatMap Line.tokens ++ closing ∧
      Closing (lexLines indentation cursor).failure final closing ∧ ∀ line ∈ lines, line.Placed text := by
  have lexes := lexLines_lexes indentation cursor
  generalize lexLines indentation cursor = stream at lexes ⊢
  induction lexes generalizing sealed with
  | ended atEnd => exact ⟨[], _, _, .nil, rfl, ⟨_, rfl⟩, by simp⟩
  | @failed indentation _ _ going fails =>
    have gives := lexLine_gives indentation _ (skipBlankLines_written going)
    rw [fails] at gives
    exact ⟨[], _, [], .nil, rfl, ⟨rfl, gives⟩, by simp⟩
  | @line _ moved _ _ line lineEnd going reads read shorter rest ih =>
    have current : moved.current = line.width := read.moves.current
    obtain ⟨lines, final, closing, outlined, streamed, closes, placed⟩ := ih line.sealed
      (tracks.reaches read.reached) (skipLineEnd_offset read.ended)
      fun isSealed => ⟨lineEnd, current ▸ read.block isSealed, rfl⟩
    refine ⟨line :: lines, final, closing, .cons read.moves ?_ read.joined outlined, ?_, closes, ?_⟩
    · -- deeper lines below a sealed line would have been read as its block
      intro isSealed
      obtain ⟨before, noBlock, rfl⟩ := block isSealed
      exact noBlock.shallow read
    · rw [streamed, flatMap_cons, append_assoc]
    · exact forall_mem_cons.2 ⟨read.placed tracks atStart going, placed⟩

end Token

end PugTemplate
