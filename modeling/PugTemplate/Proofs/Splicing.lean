import PugTemplate.Proofs.Blocks

/-!
# Rows put in the place of another

A row of a template can be replaced by the rows of another text that are moved to the right by the
indentation of the row. The rows in front of it, the moved rows and the rows behind it are then read
as they were read before.
-/

namespace PugTemplate.Token

open Cursor Text List

namespace Reading

/-- The text at the end of a line's header. -/
def behind (reading : Reading) : List Char :=
  reading.header.rest.skipSpacing.rest

section Ends

variable {reading : Reading} (read : headSegments reading.start.skipSpacing = .ok reading.header)

include read

lemma block_behind (isBlock : reading.header.tail.raw? ≠ none) : reading.header.rest.rest = reading.behind := by
  rw [behind, skipSpacing_ended (headSegments_ended read isBlock)]

lemma finish_rest : reading.finish.rest = if reading.header.tail.raw? = none then reading.behind
    else reading.behind.drop (extent (blockLines reading.width (followingLines reading.behind))) := by
  rw [finish, segment]
  split
  · rename_i isBlock
    rw [Header.fill_rest isBlock]
    rfl
  · rename_i isBlock
    have ended := headSegments_ended read isBlock
    rw [Header.fill_rest_block isBlock, skipSpacing_ended (readBlock_no_block ended).ended,
      readBlock_eq _ _ rfl, rest_skip, block_behind read isBlock]

lemma whole_of_behind (written : Written reading.start.rest) (ended : LineEnded reading.behind) :
    reading.Whole := by
  refine ⟨written, read, ?_⟩
  by_cases isBlock : reading.header.tail.raw? = none
  · rw [atLineEnd_iff, finish_rest read, if_pos isBlock]
    exact ended
  · have atEnd := headSegments_ended read isBlock
    have noBlock := @readBlock_no_block reading.width _ atEnd
    rw [finish, segment, Header.fill_rest_block isBlock, skipSpacing_ended noBlock.ended]
    exact noBlock.ended

end Ends

variable {reading : Reading} (whole : reading.Whole)

include whole

lemma behind_ended : LineEnded reading.behind := by
  by_cases isBlock : reading.header.tail.raw? = none
  · have ended := whole.ended
    rw [atLineEnd_iff, finish_rest whole.read, if_pos isBlock] at ended
    exact ended
  · rw [← block_behind whole.read isBlock]
    exact (atLineEnd_iff _).1 (headSegments_ended whole.read isBlock)

lemma repeated {behind'} (ended : LineEnded behind') {start'}
    (beside : Beside reading.behind behind' reading.start.skipSpacing start'.skipSpacing) :
    ∃ header', headSegments start'.skipSpacing = .ok header' ∧ header'.view = reading.header.view ∧
      Beside reading.behind behind' reading.header.rest header'.rest ∧
      behind ⟨start', header'⟩ = behind' := by
  have seam : Seam reading.behind behind' := ⟨behind_ended whole, ended⟩
  have within : reading.behind.length ≤ reading.header.rest.remaining :=
    reading.header.rest.reaches_skipSpacing.remaining_le
  obtain ⟨header', read', views, headers⟩ := headSegments_repeats seam beside
    whole.written.content whole.read within
  refine ⟨header', read', views, headers, ?_⟩
  obtain ⟨front, split, split', -⟩ := Beside.skipSpacing headers seam
  have nothing : front = [] := append_left_eq_self.1 split.symm
  rw [nothing] at split'
  exact split'

end Reading

lemma rest_of_reaches (reaches : Reaches cursor later) : ∃ front, cursor.rest = front ++ later.rest := by
  obtain ⟨count, rfl⟩ := reaches
  exact ⟨cursor.rest.take count, by rw [rest_skip, take_append_drop]⟩

variable {text rest : List Char} {row : LogicalLine}

lemma Written.not_lineEnded (written : Written text) : ¬ LineEnded text := by
  intro ended
  cases text with
  | nil =>
    obtain ⟨spaces, c, more, split, -⟩ := written
    simp at split
  | cons c rest => exact written.head_ne (ended c rfl) rfl

lemma Written.front {front tail} (written : Written (front ++ tail))
    (ended : LineEnded tail) : Written front := by
  obtain ⟨spaces, c, more, split, spacing, noSpacing, noEnd⟩ := written
  rcases append_eq_append_iff.1 split with ⟨rest, rfl, behind⟩ | ⟨rest, rfl, behind⟩
  · -- the text behind would begin with spacing, or with the character itself
    cases rest with
    | nil =>
      have isEnd := ended c (by rw [behind]; rfl)
      rw [noEnd] at isEnd
      cases isEnd
    | cons space rest =>
      have isEnd := ended space (by rw [behind]; rfl)
      rw [spacing_no_end spacing space (by simp)] at isEnd
      cases isEnd
  · cases rest with
    | nil =>
      have isEnd := ended c (by rw [← nil_append tail, ← behind]; rfl)
      rw [noEnd] at isEnd
      cases isEnd
    | cons d rest =>
      obtain ⟨rfl, -⟩ := cons_eq_cons.1 behind
      exact ⟨spaces, c, rest, rfl, spacing, noSpacing, noEnd⟩

lemma Written.append {front} (written : Written front) (tail) : Written (front ++ tail) := by
  obtain ⟨spaces, c, more, rfl, facts⟩ := written
  exact ⟨spaces, c, more ++ tail, by simp, facts⟩

lemma spacing_in_front {tail} (ended : LineEnded tail) (front) :
    (front ++ tail).takeWhile isSpacing = front.takeWhile isSpacing :=
  ended.takeWhile_append (line_end_stops isSpacing rfl rfl) front

namespace RowAt

variable (read : RowAt text row rest)

include read

lemma written : Written text := by
  obtain ⟨reading, whole, rfl, -⟩ := read
  exact whole.written

lemma ended : LineEnded rest := by
  obtain ⟨reading, whole, -, -, rfl⟩ := read
  exact (atLineEnd_iff _).1 whole.ended

lemma width : (text.takeWhile isSpacing).length = row.width := by
  obtain ⟨reading, -, rfl, rfl, -⟩ := read
  rfl

lemma solid : ∀ c ∈ (text.dropWhile isSpacing).head?, isBlank c = false := by
  obtain ⟨reading, whole, rfl, -⟩ := read
  intro c first
  have segments := lexSegments_eq 0 reading.start.skipSpacing
  rw [whole.read] at segments
  apply lexSegments_not_blank segments
  rw [peek, skipSpacing_rest]
  exact first

end RowAt

/-- A row can take the place of another below any row. -/
structure Replaces (row row' : List Char) : Prop where
  written : Written row
  solid : ∀ c ∈ (row.dropWhile isSpacing).head?, isBlank c = false
  shallow : ∀ width, (row.takeWhile isSpacing).length ≤ width → nextRow row' = [] ∨ Shallow width (nextRow row')

lemma RowAt.replaced {text gap next next' row}
    (read : RowAt text row (gap ++ next)) (replaces : Replaces next next')
    (whole : ∀ c ∈ gap.getLast?, isLineEnd c) :
    ∃ front, text = front ++ (gap ++ next) ∧ RowAt (front ++ (gap ++ next')) row (gap ++ next') := by
  obtain ⟨reading, isWhole, rfl, rfl, finished⟩ := read
  have gapEnded : LineEnded (gap ++ next) := by
    rw [← finished]
    exact (atLineEnd_iff _).1 isWhole.ended
  have gapWritten : gap ≠ [] := by
    rintro rfl
    exact replaces.written.not_lineEnded gapEnded
  have finishes := Reading.finish_rest isWhole.read
  -- what lies between the header and the replaced row
  obtain ⟨block, split⟩ : ∃ block, reading.behind = block ++ (gap ++ next) := by
    rw [finished] at finishes
    split at finishes
    · exact ⟨[], finishes.symm⟩
    · exact ⟨reading.behind.take (extent (blockLines reading.width (followingLines reading.behind))), by
        rw [finishes, take_append_drop]⟩
  have behindEnded := Reading.behind_ended isWhole
  have going : block ++ gap ≠ [] := by simp [gapWritten]
  have blockEnded : LineEnded (block ++ gap) := by
    rw [split, ← append_assoc] at behindEnded
    intro c first
    exact behindEnded c (by rw [head?_append_of_ne_nil _ going]; exact first)
  have blockWhole : ∀ c ∈ (block ++ gap).getLast?, isLineEnd c := by
    intro c last
    rw [getLast?_append_of_ne_nil _ gapWritten] at last
    exact whole c last
  have replacedEnded : LineEnded ((block ++ gap) ++ next') := by
    intro c first
    rw [head?_append_of_ne_nil _ going] at first
    exact blockEnded c first
  rw [← append_assoc] at split
  obtain ⟨front, begins⟩ := rest_of_reaches
    ((Reading.header_reaches isWhole).trans reading.header.rest.reaches_skipSpacing)
  change reading.start.rest = front ++ reading.behind at begins
  have written := isWhole.written
  rw [begins] at written
  have frontWritten := written.front behindEnded
  let start' : Cursor := ⟨front ++ ((block ++ gap) ++ next'), reading.start.position⟩
  have beside : Beside reading.behind ((block ++ gap) ++ next') reading.start start' := by
    refine ⟨front, begins, rfl, fun nothing => ?_⟩
    rw [split] at nothing
    simp [gapWritten] at nothing
  have seam : Seam reading.behind ((block ++ gap) ++ next') := ⟨behindEnded, replacedEnded⟩
  obtain ⟨header', read', views, headers, behind'⟩ :=
    Reading.repeated isWhole replacedEnded (beside.skipSpacing seam)
  have width : Reading.width ⟨start', header'⟩ = reading.width := by
    change ((front ++ _).takeWhile isSpacing).length = (reading.start.rest.takeWhile _).length
    rw [begins, spacing_in_front replacedEnded, spacing_in_front behindEnded]
  have flat : Reading.flat ⟨start', header'⟩ = reading.flat := by
    rw [Reading.flat, Reading.flat, beside.upTo headers]
  have isWhole' : Reading.Whole ⟨start', header'⟩ := Reading.whole_of_behind read'
    (frontWritten.append _) (by rw [behind']; exact replacedEnded)
  -- the block is the same, since it does not reach the replaced row
  have blocks : reading.header.tail.raw? ≠ none →
      blockLines reading.width (followingLines ((block ++ gap) ++ next')) =
          blockLines reading.width (followingLines reading.behind) ∧
        ((block ++ gap) ++ next').drop
          (extent (blockLines reading.width (followingLines reading.behind))) = gap ++ next' := by
    intro isBlock
    rw [if_neg isBlock, finished, split] at finishes
    rw [split]
    exact blockLines_replaced blockEnded going blockWhole replaces.written replaces.solid
      finishes.symm (replaces.shallow _)
  refine ⟨front ++ block, by rw [begins, split]; simp, ⟨start', header'⟩, isWhole', ?_, ?_, ?_⟩
  · simp [start']
  · have kinds : Reading.kinds ⟨start', header'⟩ = reading.kinds := by
      rw [Reading.kinds, Reading.segment, width]
      refine Header.fill_kinds views fun isBlock => ?_
      have isBlock' : header'.tail.raw? ≠ none := by rwa [raw_same views]
      have lines := (blocks isBlock).1
      rw [← Reading.block_behind isWhole.read isBlock, ← behind',
        ← Reading.block_behind isWhole'.read isBlock'] at lines
      rw [readBlock_eq _ _ lines, readBlock_eq _ reading.header.rest rfl]
    rw [Reading.row, Reading.row, width, flat, kinds]
  · rw [Reading.finish_rest read', raw_same views, behind', width]
    split
    · rename_i isBlock
      rw [if_pos isBlock, finished, split] at finishes
      rw [← append_cancel_right finishes]
    · rename_i isBlock
      rw [(blocks isBlock).1]
      exact (blocks isBlock).2

lemma Scan.replaced {next next' rows} (scan : Scan text rows next)
    (replaces : Replaces next next') :
    ∃ front, text = front ++ next ∧ (∀ c ∈ front.getLast?, isLineEnd c) ∧
      Scan (front ++ next') rows (nextRow next') := by
  induction scan with
  | @here text =>
    rcases nextRow_cases text with ⟨nothing, -⟩ | ⟨blank, areBlank, written, split⟩
    · have written := replaces.written
      rw [nothing] at written
      exact absurd .nil written.not_lineEnded
    · refine ⟨blank, split, areBlank.whole, ?_⟩
      rw [← areBlank.nextRow]
      exact .here
  | @row text rest final row rows read later ih =>
    obtain ⟨gap, rfl, whole, scan⟩ := ih replaces
    obtain ⟨front, begins, read'⟩ := read.replaced replaces whole
    have gapWritten : gap ≠ [] := by
      rintro rfl
      exact replaces.written.not_lineEnded read.ended
    rcases nextRow_cases text with ⟨nothing, -⟩ | ⟨blank, areBlank, -, split⟩
    · have written := read.written
      rw [nothing] at written
      exact absurd .nil written.not_lineEnded
    · refine ⟨blank ++ (front ++ gap), ?_, ?_, ?_⟩
      · rw [split, begins]
        simp only [append_assoc]
      · intro c last
        rw [← append_assoc, getLast?_append_of_ne_nil _ gapWritten] at last
        exact whole c last
      · have row : nextRow ((blank ++ (front ++ gap)) ++ next') = front ++ (gap ++ next') := by
          rw [append_assoc, append_assoc, areBlank.nextRow, read'.written.nextRow]
        exact .row (row ▸ read') scan

lemma upTo_append (reaches : Reaches cursor later) : cursor.rest = cursor.upTo later ++ later.rest := by
  obtain ⟨count, rfl⟩ := reaches
  rw [upTo, rest_skip, remaining_skip, remaining]
  by_cases short : count ≤ cursor.rest.length
  · rw [Nat.sub_sub_self short, take_append_drop]
  · have long : cursor.rest.length ≤ count := by omega
    rw [Nat.sub_eq_zero_of_le long, Nat.sub_zero, take_length, drop_eq_nil_of_le long, append_nil]

lemma Reading.behind_flat {reading : Reading} (whole : reading.Whole) (isFlat : reading.flat)
    {line} (begins : reading.start.rest = line ++ rest)
    (noEnds : ∀ c ∈ line, isLineEnd c = false) (ended : LineEnded rest) : reading.behind = rest := by
  have header := upTo_append (header_reaches whole)
  have spaces : reading.header.rest.rest = reading.header.rest.rest.takeWhile isSpacing ++ reading.behind := by
    rw [behind, skipSpacing_rest, takeWhile_append_dropWhile]
  rw [spaces, ← append_assoc] at header
  have plain : ∀ c ∈ reading.start.upTo reading.header.rest ++
      reading.header.rest.rest.takeWhile isSpacing, isLineEnd c = false := by
    intro c mem
    rcases mem_append.1 mem with early | late
    · simpa using all_eq_true.1 isFlat c early
    · exact spacing_no_end (fun d found => all_eq_true.1 all_takeWhile d found) c late
  have here := (takeWhile_line plain (behind_ended whole)).2
  rw [← header, begins, (takeWhile_line noEnds ended).2] at here
  exact here.symm

/-- The row on a line that is moved to the right. -/
def LogicalLine.inset (margin : Nat) (row : LogicalLine) : LogicalLine :=
  { row with width := margin + row.width }

/-- A text can be moved to the right by `margin` and put in front of `tail`. It ends with `ending`, which
is its last line end or nothing, and where it ends the tail goes on. -/
structure Insertion (margin text ending tail : List Char) : Prop where
  spacing : ∀ c ∈ margin, isSpacing c = true
  blank : BlankLines ending
  endingEnded : LineEnded ending
  tailEnded : LineEnded tail
  escape : ending = [] → text.getLast? = some '\\' → tail = []
  apart : text.getLast? = some '\r' → ending.head? ≠ some '\n' ∧ tail.head? ≠ some '\n'
  shallow : ∀ width, nextRow tail = [] ∨ Shallow (margin.length + width) (nextRow tail)

lemma Insertion.suffix {tail rest} (insertion : Insertion margin text ending tail)
    (suffix : rest <:+ text) : Insertion margin rest ending tail := by
  have last : ∀ c, rest.getLast? = some c → text.getLast? = some c := by
    obtain ⟨front, rfl⟩ := suffix
    intro c last
    rw [getLast?_append, last]
    rfl
  exact { insertion with
    escape := fun nothing backslash => insertion.escape nothing (last _ backslash)
    apart := fun carriage => insertion.apart (last _ carriage) }

section Inserted

variable {margin ending tail : List Char} (insertion : Insertion margin text ending tail)

include insertion

lemma Insertion.blockLines (width) (ended : LineEnded text) :
    blockLines width (followingLines (text ++ ending)) = blockLines width (followingLines text) ∧
      blockLines (margin.length + width) (followingLines (inset margin text ++ tail)) =
        (blockLines width (followingLines text)).map (PhysicalLine.inset margin) := by
  constructor
  · rw [followingLines_append ended insertion.endingEnded fun last => (insertion.apart last).1]
    apply blockLines_append
    exact blockLines_shallow insertion.endingEnded (.inl (nextRow_blank insertion.blank.blank))
  · rw [followingLines_inset insertion.spacing ended insertion.tailEnded fun last =>
      (insertion.apart last).2, blockLines_append, blockLines_inset insertion.spacing]
    exact blockLines_shallow insertion.tailEnded (insertion.shallow width)

lemma RowAt.inset {rest} (read : RowAt (text ++ ending) row rest)
    (isFlat : row.flat) : ∃ next, rest = next ++ ending ∧ next <:+ text ∧ LineEnded next ∧
      RowAt (margin ++ (inset margin text ++ tail)) (row.inset margin.length)
        (inset margin next ++ tail) := by
  obtain ⟨reading, whole, begins, rfl, rfl⟩ := read
  obtain ⟨line, below, rfl, noEnds, belowEnded⟩ := line_split text
  rw [append_assoc] at begins
  have belowInsertion := insertion.suffix (suffix_append line below)
  have gapEnded := belowEnded.append insertion.endingEnded
  have movedEnded : LineEnded (inset margin below ++ tail) :=
    (inset_lineEnded belowEnded).append insertion.tailEnded
  -- the header ends where the first line of the row does
  have behind : reading.behind = below ++ ending := Reading.behind_flat whole isFlat begins noEnds gapEnded
  have written := whole.written
  rw [begins] at written
  have lineWritten := written.front gapEnded
  let start' : Cursor := ⟨margin ++ (inset margin (line ++ below) ++ tail), reading.start.position⟩
  have begins' : start'.rest = (margin ++ line) ++ (inset margin below ++ tail) := by
    change margin ++ (inset margin (line ++ below) ++ tail) = _
    rw [inset_line noEnds]
    simp only [append_assoc]
  have beside : Beside reading.behind (inset margin below ++ tail) reading.start.skipSpacing
      start'.skipSpacing := by
    obtain ⟨spaces, c, more, rfl, spacing, noSpacing, noEnd⟩ := lineWritten
    have stopped : isSpacing c ≠ true := by simp [noSpacing]
    refine ⟨c :: more, ?_, ?_, ?_⟩
    · rw [skipSpacing_rest, begins, behind, append_assoc, dropWhile_append_of_pos spacing,
        cons_append, dropWhile_cons_of_neg stopped]
    · rw [skipSpacing_rest, begins', append_assoc, dropWhile_append_of_pos insertion.spacing, append_assoc,
        dropWhile_append_of_pos spacing, cons_append, dropWhile_cons_of_neg stopped]
    · intro nothing backslash
      rw [behind] at nothing
      obtain ⟨rfl, noEnding⟩ := append_eq_nil_iff.1 nothing
      rw [insertion.escape noEnding]
      · rfl
      · rw [append_nil, getLast?_append_of_ne_nil _ (by simp)]
        exact backslash
  obtain ⟨header', read', views, headers, behind'⟩ := Reading.repeated whole movedEnded beside
  have width : Reading.width ⟨start', header'⟩ = margin.length + reading.width := by
    change (start'.rest.takeWhile isSpacing).length = _ + (reading.start.rest.takeWhile _).length
    rw [begins', begins, spacing_in_front movedEnded, spacing_in_front gapEnded,
      takeWhile_append_of_pos insertion.spacing, length_append]
  have flat : Reading.flat ⟨start', header'⟩ = true := by
    have within : (inset margin below ++ tail).length ≤ header'.rest.remaining := by
      rw [← behind']
      exact header'.rest.reaches_skipSpacing.remaining_le
    refine all_eq_true.2 fun c mem => ?_
    rw [upTo, begins', take_append_of_le_length] at mem
    · have plain : isLineEnd c = false :=
        (mem_append.1 (mem_of_mem_take mem)).elim (spacing_no_end insertion.spacing c) (noEnds c)
      simp [plain]
    · change start'.rest.length - header'.rest.remaining ≤ _
      rw [begins', length_append]
      omega
  have whole' : Reading.Whole ⟨start', header'⟩ := by
    refine Reading.whole_of_behind read' ?_ (by rw [behind']; exact movedEnded)
    obtain ⟨spaces, c, more, rfl, spacing, facts⟩ := lineWritten
    refine ⟨margin ++ spaces, c, more ++ (inset margin below ++ tail), ?_, ?_, facts⟩
    · rw [begins']
      simp only [append_assoc, cons_append]
    · exact fun space mem =>
        (mem_append.1 mem).elim (insertion.spacing space) (spacing space)
  obtain ⟨lines, lines'⟩ := belowInsertion.blockLines reading.width belowEnded
  have kinds : Reading.kinds ⟨start', header'⟩ = reading.kinds := by
    rw [Reading.kinds, Reading.segment, width]
    refine Header.fill_kinds views fun isBlock => ?_
    have isBlock' : header'.tail.raw? ≠ none := by rwa [raw_same views]
    rw [← behind, ← Reading.block_behind whole.read isBlock] at lines
    rw [← behind', ← Reading.block_behind whole'.read isBlock'] at lines'
    rw [readBlock_eq _ _ lines, readBlock_eq _ _ lines', blockText_inset insertion.spacing]
    simp only [map_eq_nil_iff]
  have row : Reading.row ⟨start', header'⟩ = reading.row.inset margin.length := by
    rw [Reading.row, width, flat, kinds]
    exact congrArg (fun flat => LogicalLine.mk _ flat _) isFlat.symm
  have finish := Reading.finish_rest whole.read
  have finish' := @Reading.finish_rest ⟨start', header'⟩ read'
  rw [behind, lines] at finish
  rw [behind', width, lines', raw_same views] at finish'
  have suffix := suffix_append line below
  by_cases isBlock : reading.header.tail.raw? = none
  · rw [if_pos isBlock] at finish finish'
    exact ⟨below, finish, suffix, belowEnded, ⟨start', header'⟩, whole', rfl, row, finish'⟩
  · rw [if_neg isBlock] at finish finish'
    obtain ⟨back, split, -⟩ := blockLines_split reading.width (followingLines below)
    obtain ⟨next, further, nextEnded, -, -, dropped⟩ := drop_lines belowEnded split
    have unmoved : (blockLines reading.width (followingLines below)).map (PhysicalLine.inset []) =
        blockLines reading.width (followingLines below) := map_id _
    have plain := dropped [] ending
    rw [unmoved, inset_nil, inset_nil] at plain
    rw [plain] at finish
    rw [dropped margin] at finish'
    exact ⟨next, finish, further.trans suffix, nextEnded, ⟨start', header'⟩, whole', rfl, row, finish'⟩

omit insertion in
lemma inset_blank (spacing : ∀ c ∈ margin, isSpacing c)
    (blank : ∀ c ∈ text, isSpacing c ∨ isLineEnd c) :
    ∀ c ∈ inset margin text, isSpacing c ∨ isLineEnd c := by
  induction text with
  | nil => exact blank
  | cons d rest ih =>
    have later := ih (forall_mem_cons.1 blank).2
    have here := blank d mem_cons_self
    intro c mem
    unfold inset at mem
    split at mem
    · rcases mem_cons.1 mem with rfl | mem
      · exact here
      · exact (mem_append.1 mem).elim (fun found => .inl (spacing c found)) (later c)
    · exact (mem_cons.1 mem).elim (fun same => same ▸ here) (later c)

omit insertion in
lemma BlankLines.inset (spacing : ∀ c ∈ margin, isSpacing c) {blank next}
    (areBlank : BlankLines blank) (going : blank ≠ []) (apart : next.head? ≠ some '\n') :
    ∃ moved, BlankLines moved ∧ moved ≠ [] ∧
      inset margin (blank ++ next) = moved ++ (margin ++ inset margin next) := by
  induction blank with
  | nil => exact absurd rfl going
  | cons c rest ih =>
    cases rest with
    | nil =>
      have isEnd := areBlank.whole c rfl
      refine ⟨[c], .cons .nil (.inl isEnd), by simp, ?_⟩
      rw [cons_append, Token.inset, if_pos (by simp [isEnd, apart])]
      rfl
    | cons d more =>
      have later : BlankLines (d :: more) := ⟨(forall_mem_cons.1 areBlank.blank).2, areBlank.whole⟩
      obtain ⟨moved, movedBlank, movedWritten, same⟩ := ih later (by simp)
      have here := areBlank.blank c mem_cons_self
      rw [cons_append, Token.inset, same]
      split
      · rename_i cut
        refine ⟨c :: (margin ++ moved), ?_, by simp, by simp⟩
        exact .cons (.behind (fun e mem => .inl (spacing e mem)) movedBlank movedWritten)
          (.inl (Bool.and_eq_true_iff.1 cut).1)
      · exact ⟨c :: moved, movedBlank.cons (here.symm.imp_right fun isSpacing =>
          ⟨isSpacing, movedWritten⟩), by simp, by simp⟩

lemma Insertion.nextRow (place : lead = margin ∨ lead = [] ∧ LineEnded text) :
    nextRow (text ++ ending) = [] ∧ Token.nextRow (lead ++ (inset margin text ++ tail)) = Token.nextRow tail ∨
      ∃ row, row <:+ text ∧ Token.nextRow (text ++ ending) = row ++ ending ∧ Written row ∧
        Token.nextRow (lead ++ (inset margin text ++ tail)) = margin ++ (inset margin row ++ tail) := by
  have leadSpacing : ∀ c ∈ lead, isSpacing c := by
    rcases place with rfl | ⟨rfl, -⟩
    · exact insertion.spacing
    · simp
  rcases nextRow_cases (text ++ ending) with ⟨nothing, blank⟩ | ⟨blank, areBlank, written, split⟩
  · refine .inl ⟨nothing, ?_⟩
    rw [← append_assoc]
    refine nextRow_blanks ?_ insertion.tailEnded
    have moved := inset_blank insertion.spacing fun c mem => blank c (mem_append_left _ mem)
    exact fun c mem => (mem_append.1 mem).elim (fun found => .inl (leadSpacing c found)) (moved c)
  · right
    -- the blank lines end in front of the last line end, since the row does not
    obtain ⟨row, rfl, begins⟩ : ∃ row, text = blank ++ row ∧ Token.nextRow (text ++ ending) = row ++ ending := by
      rcases append_eq_append_iff.1 split with ⟨rest, rfl, behind⟩ | ⟨row, rfl, behind⟩
      · have blankRow : ∀ c ∈ Token.nextRow (text ++ ending),
            isSpacing c = true ∨ isLineEnd c = true := fun c mem =>
          insertion.blank.blank c (by rw [behind]; exact mem_append_right _ mem)
        obtain ⟨spaces, c, more, same, -, noSpacing, noEnd⟩ := written
        have isBlank := blankRow c (by rw [same]; simp)
        simp [noSpacing, noEnd] at isBlank
      · exact ⟨row, rfl, behind⟩
    rw [begins] at written
    have rowWritten := written.front insertion.endingEnded
    have movedWritten : Written (margin ++ (inset margin row ++ tail)) := by
      obtain ⟨spaces, c, more, rfl, spacing, noSpacing, noEnd⟩ := rowWritten
      have plain : ∀ d ∈ spaces ++ [c], isLineEnd d = false := by
        intro d mem
        rcases mem_append.1 mem with early | late
        · exact spacing_no_end spacing d early
        · rw [mem_singleton.1 late]
          exact noEnd
      refine ⟨margin ++ spaces, c, inset margin more ++ tail, ?_, ?_, noSpacing, noEnd⟩
      · rw [append_cons, inset_line plain]
        simp only [append_assoc, cons_append, nil_append]
      · exact fun space mem =>
          (mem_append.1 mem).elim (insertion.spacing space) (spacing space)
    refine ⟨row, suffix_append blank row, begins, rowWritten, ?_⟩
    by_cases nothing : blank = []
    · subst nothing
      rcases place with rfl | ⟨rfl, ended⟩
      · rw [nil_append, movedWritten.nextRow]
      · exact absurd ended rowWritten.not_lineEnded
    · obtain ⟨moved, movedBlank, written', same⟩ :=
        areBlank.inset insertion.spacing nothing (rowWritten.head_ne rfl)
      have front : BlankLines (lead ++ moved) := .behind (fun c mem => .inl (leadSpacing c mem)) movedBlank written'
      rw [same, append_assoc, ← append_assoc lead, front.nextRow, append_assoc, movedWritten.nextRow]

lemma Scan.inset {rows} (place : lead = margin ∨ lead = [] ∧ LineEnded text)
    (scan : Scan (text ++ ending) rows []) (flat : ∀ row ∈ rows, row.flat) :
    Scan (lead ++ (inset margin text ++ tail)) (rows.map (LogicalLine.inset margin.length))
      (nextRow tail) := by
  induction rows generalizing text lead with
  | nil =>
    rcases insertion.nextRow place with ⟨-, same⟩ | ⟨row, -, begins, written, -⟩
    · rw [← same]
      exact .here
    · rw [← Scan.nil_iff.1 scan] at begins
      have nothing := (append_eq_nil_iff.1 begins.symm).1
      rw [nothing] at written
      exact absurd .nil written.not_lineEnded
  | cons row rows ih =>
    obtain ⟨rest, read, later⟩ := Scan.cons_iff.1 scan
    rcases insertion.nextRow place with ⟨nothing, -⟩ | ⟨begin, suffix, begins, -, moved⟩
    · rw [nothing] at read
      exact absurd .nil read.written.not_lineEnded
    · rw [begins] at read
      obtain ⟨next, rfl, further, ended, read'⟩ := read.inset (insertion.suffix suffix) (flat row mem_cons_self)
      have later' := ih (insertion.suffix (further.trans suffix)) (.inr ⟨rfl, ended⟩) later
        (forall_mem_cons.1 flat).2
      exact .row (moved ▸ read') later'

end Inserted

/-- The lines of a text, each with its end. -/
def wholeLines : List Char → List (List Char)
  | [] => []
  | c :: rest =>
    if isLineEnd c && !(c == '\r' && rest.head? == some '\n') then
      [c] :: wholeLines rest
    else
      match wholeLines rest with
      | [] => [[c]]
      | line :: more => (c :: line) :: more

def indented (margin text : List Char) : List Char :=
  (wholeLines text).flatMap (margin ++ ·)

/-- Whether the last line of a text has no end. -/
def endsOpen (text : List Char) : Bool :=
  text.getLast?.any fun c => !isLineEnd c

/-- The lines of `content`, moved to the right by `margin`, with what stands at the end of the line
that they replace. -/
def pasted (margin content rest : List Char) : List Char :=
  indented margin content ++
    if endsOpen content then rest else rest.drop (lineEndLength rest)

lemma wholeLines_ne_nil (going : text ≠ []) : wholeLines text ≠ [] := by
  obtain ⟨c, rest, rfl⟩ := exists_cons_of_ne_nil going
  unfold wholeLines
  split
  · simp
  · split
    · simp
    · simp

lemma indented_eq {margin text ending} (going : text ++ ending ≠ [])
    (isOpen : ending = [] → endsOpen text) (isEnd : ending ≠ [] → LineEnd ending [])
    (apart : text.getLast? = some '\r' → ending.head? ≠ some '\n') :
    indented margin (text ++ ending) = margin ++ (inset margin text ++ ending) := by
  induction text with
  | nil =>
    have written : ending ≠ [] := by simpa using going
    cases isEnd written with
    | _ => simp [indented, wholeLines, inset]
  | cons c rest ih =>
    -- a carriage return at the end of the text belongs to no pair
    have cut : (isLineEnd c && !(c == '\r' && (rest ++ ending).head? == some '\n')) =
        (isLineEnd c && !(c == '\r' && rest.head? == some '\n')) := by
      cases rest with
      | cons d more => rfl
      | nil =>
        by_cases carriage : c = '\r'
        · subst carriage
          have other := apart rfl
          simp [other]
        · simp [carriage]
    by_cases last : rest ++ ending = []
    · obtain ⟨rfl, rfl⟩ := append_eq_nil_iff.1 last
      have plain : isLineEnd c = false := by simpa [endsOpen] using isOpen rfl
      simp [indented, wholeLines, inset, plain]
    · have later := ih last (fun nothing => ?_) (fun carriage => apart ?_)
      · rw [cons_append, indented, wholeLines, inset, cut]
        split
        · change (margin ++ [c]) ++ indented margin (rest ++ ending) = _
          rw [later]
          simp
        · obtain ⟨line, more, lines⟩ := exists_cons_of_ne_nil (wholeLines_ne_nil last)
          rw [indented, lines, flatMap_cons, append_assoc] at later
          rw [lines]
          rw [flatMap_cons, append_assoc, cons_append, append_cancel_left later]
          rfl
      · have rests : rest ≠ [] := by
          rintro rfl
          exact last nothing
        have isOpen := isOpen nothing
        obtain ⟨d, more, rfl⟩ := exists_cons_of_ne_nil rests
        exact isOpen
      · rw [getLast?_cons, carriage]
        rfl

lemma RowAt.shallow (read : RowAt text row rest) {width} (narrow : row.width ≤ width) : Shallow width text :=
  ⟨read.width ▸ narrow, read.solid⟩

lemma Scan.shallow {rows} (scan : Scan text rows final)
    (narrow : ∀ row ∈ rows.head?, row.width ≤ width)
    (further : final = [] ∨ Shallow width final) : nextRow text = [] ∨ Shallow width (nextRow text) := by
  cases rows with
  | nil =>
    rw [← Scan.nil_iff.1 scan]
    exact further
  | cons row rows =>
    obtain ⟨rest, read, -⟩ := Scan.cons_iff.1 scan
    exact .inr (read.shallow (narrow row rfl))

lemma exists_insertion (going : content ≠ []) (spacing : ∀ c ∈ margin, isSpacing c)
    (noBackslash : content.getLast? ≠ some '\\') (ended : LineEnded rest)
    (shallow : nextRow rest = [] ∨ Shallow margin.length (nextRow rest)) :
    ∃ text ending tail, content = text ++ ending ∧ Insertion margin text ending tail ∧
      pasted margin content rest = margin ++ (inset margin text ++ tail) ∧ nextRow tail = nextRow rest := by
  have wider : ∀ tail, nextRow tail = nextRow rest → ∀ width,
      nextRow tail = [] ∨ Shallow (margin.length + width) (nextRow tail) := by
    intro tail same width
    rw [same]
    exact shallow.imp_right fun row =>
      ⟨Nat.le_trans row.indentation (Nat.le_add_right _ _), row.written⟩
  cases isOpen : endsOpen content with
  | true =>
    refine ⟨content, [], rest, by simp, ⟨spacing, .nil, .nil, ended, ?_, ?_, wider rest rfl⟩, ?_, rfl⟩
    · exact fun _ backslash => absurd backslash noBackslash
    · intro carriage
      rw [endsOpen, carriage] at isOpen
      cases isOpen
    · have lines := @indented_eq margin content [] (by simpa using going) (fun _ => isOpen) (by simp) (by simp)
      rw [append_nil, append_nil] at lines
      rw [pasted, isOpen, if_pos rfl, lines, append_assoc]
  | false =>
    have whole : ∀ c ∈ content.getLast?, isLineEnd c := by
      intro c last
      rw [endsOpen, Option.mem_def.1 last] at isOpen
      simpa using isOpen
    obtain ⟨text, ending, rfl, apart, ends⟩ := last_lineEnd going whole
    have isEnd := ends [] (by simp)
    have endingEnded : LineEnded ending := by simpa using isEnd.lineEnded
    let tail := rest.drop (lineEndLength rest)
    have next : nextRow (ending ++ tail) = nextRow rest := by
      rw [isEnd.blankLines.nextRow, nextRow_drop_lineEnd]
    have head : (ending ++ tail).head? = ending.head? := head?_append_of_ne_nil _ isEnd.written
    refine ⟨text, ending, ending ++ tail, rfl,
      ⟨spacing, isEnd.blankLines, endingEnded, ?_, ?_, ?_, wider _ next⟩, ?_, next⟩
    · intro c first
      rw [head] at first
      exact endingEnded c first
    · exact fun nothing => absurd nothing isEnd.written
    · intro carriage
      rw [head]
      exact ⟨apart carriage, apart carriage⟩
    · have lines := @indented_eq margin text ending going (fun nothing => absurd nothing isEnd.written)
        (fun _ => isEnd) apart
      rw [pasted, isOpen, if_neg (by simp), lines]
      simp only [append_assoc, tail]

/-- Where a row is replaced by the moved rows of a text, the rows around it stay as they are. -/
theorem Scan.pasted {page next rest content before after rows row}
    (front : Scan page before next) (read : RowAt next row rest) (back : Scan rest after [])
    (inner : Scan content rows []) (flat : ∀ other ∈ rows, other.flat)
    (noBackslash : content.getLast? ≠ some '\\') (level : ∀ first ∈ rows.head?, first.width = 0)
    (narrow : ∀ first ∈ after.head?, first.width ≤ row.width) : ∃ earlier, page = earlier ++ next ∧
      Scan (earlier ++ pasted (next.takeWhile isSpacing) content rest)
        (before ++ (rows.map (LogicalLine.inset row.width) ++ after)) [] := by
  have margin := read.width
  have spacing : ∀ c ∈ next.takeWhile isSpacing, isSpacing c := fun c mem =>
    all_eq_true.1 all_takeWhile c mem
  have behind : ∀ {width}, row.width ≤ width → nextRow rest = [] ∨ Shallow width (nextRow rest) :=
    fun wide => back.shallow (fun first mem => Nat.le_trans (narrow first mem) wide) (.inl rfl)
  -- the moved rows, in front of the rows behind the replaced one
  have moved : Scan (Token.pasted (next.takeWhile isSpacing) content rest)
      (rows.map (LogicalLine.inset row.width)) (nextRow rest) := by
    by_cases going : content = []
    · subst going
      have nothing : rows = [] := Scan.unique (Scan.nil_iff.2 rfl) inner
      subst nothing
      exact Scan.nil_iff.2 (nextRow_drop_lineEnd rest).symm
    · obtain ⟨text, ending, tail, rfl, insertion, same, further⟩ := exists_insertion going spacing
        noBackslash read.ended (behind (Nat.le_of_eq margin.symm))
      rw [same, ← further, ← margin]
      exact Scan.inset insertion (.inl rfl) inner flat
  have replaces : Replaces next (Token.pasted (next.takeWhile isSpacing) content rest) := by
    refine ⟨read.written, read.solid, fun width wide => ?_⟩
    rw [margin] at wide
    refine moved.shallow ?_ (behind wide)
    intro first mem
    rw [head?_map] at mem
    obtain ⟨original, found, rfl⟩ := Option.map_eq_some_iff.1 mem
    rw [LogicalLine.inset, level original found]
    exact wide
  obtain ⟨earlier, split, -, scan⟩ := front.replaced replaces
  exact ⟨earlier, split, scan.append (moved.append back)⟩

end PugTemplate.Token
