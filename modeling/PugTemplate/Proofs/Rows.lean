import PugTemplate.Proofs.Seams

/-!
# Rows of a template

A row is a logical line that is not blank, with its raw block. A template is a sequence of rows and
of blank lines between them. What is read of a row depends on the text at its front only, so that the
rows of a text can be found without regard to where it stands.
-/

namespace PugTemplate.Token

open Cursor Text List

/-- The text from its first line on that is not blank. -/
def nextRow (text : List Char) : List Char :=
  text.drop (blankLength 0 0 text)

/-- Blank lines with their ends. -/
structure BlankLines (text : List Char) : Prop where
  blank : ∀ c ∈ text, isSpacing c ∨ isLineEnd c = true
  whole : ∀ c ∈ text.getLast?, isLineEnd c

lemma BlankLines.nil : BlankLines [] := ⟨by simp, by simp⟩

variable {text final : List Char} {cursor : Cursor} {header : Header}

lemma BlankLines.length (blank : BlankLines text) (more passed pending)
    (held : text = [] → pending = 0) : blankLength passed pending (text ++ more) =
      passed + pending + text.length + blankLength 0 0 more := by
  induction text generalizing passed pending with
  | nil =>
    rw [held rfl, blankLength_passed]
    rfl
  | cons c rest ih =>
    have later : BlankLines rest := by
      refine ⟨(forall_mem_cons.1 blank.blank).2, ?_⟩
      intro d last
      apply blank.whole d
      rw [getLast?_cons, Option.mem_def.1 last]
      rfl
    rw [cons_append, blankLength, length_cons]
    split
    · rename_i spacing
      rw [ih later passed (pending + 1)]
      · omega
      · -- the last character is a line end
        rintro rfl
        have isEnd := blank.whole c rfl
        simp only [isSpacing, Bool.or_eq_true, beq_iff_eq] at spacing
        rcases spacing with rfl | rfl
        · cases isEnd
        · cases isEnd
    · rename_i noSpacing
      rw [if_pos ((blank.blank c mem_cons_self).resolve_left noSpacing), ih later _ 0 (fun _ => rfl)]
      omega

lemma BlankLines.nextRow (blank : BlankLines text) (more) : nextRow (text ++ more) = Token.nextRow more := by
  rw [Token.nextRow, Token.nextRow, blank.length more 0 0 (fun _ => rfl), Nat.zero_add, ← drop_drop, drop_left]

lemma Written.nextRow (written : Written text) : nextRow text = text := by
  obtain ⟨spaces, c, more, rfl, spacing, noSpacing, noEnd⟩ := written
  rw [nextRow, blankLength_written spacing noSpacing noEnd]
  rfl

lemma nextRow_blank (blank : ∀ c ∈ text, isSpacing c ∨ isLineEnd c) : nextRow text = [] := by
  have all : ∀ passed pending, passed + pending + text.length ≤ blankLength passed pending text := by
    induction text with
    | nil => exact fun passed pending => Nat.le_refl _
    | cons c rest ih =>
      intro passed pending
      have later := ih (forall_mem_cons.1 blank).2
      rw [blankLength, length_cons]
      split
      · have counted := later passed (pending + 1)
        omega
      · rename_i noSpacing
        rw [if_pos ((blank c mem_cons_self).resolve_left noSpacing)]
        have counted := later (passed + pending + 1) 0
        omega
  rw [nextRow, drop_eq_nil_iff]
  have counted := all 0 0
  omega

lemma BlankLines.cons {c} (blank : BlankLines text)
    (here : isLineEnd c ∨ isSpacing c ∧ text ≠ []) : BlankLines (c :: text) := by
  constructor
  · intro d mem
    rcases mem_cons.1 mem with rfl | later
    · exact here.symm.imp_left And.left
    · exact blank.blank d later
  · intro d last
    cases text with
    | nil =>
      cases last
      exact here.resolve_right fun spaced => spaced.2 rfl
    | cons e rest =>
      apply blank.whole d
      exact last

lemma blank_or_row (text) : (∀ c ∈ text, isSpacing c ∨ isLineEnd c) ∨
    ∃ blank row, BlankLines blank ∧ Written row ∧ text = blank ++ row := by
  induction text with
  | nil => exact .inl (by simp)
  | cons c rest ih =>
    by_cases plain : isSpacing c = false ∧ isLineEnd c = false
    · exact .inr ⟨[], c :: rest, .nil, ⟨[], c, rest, rfl, by simp, plain⟩, rfl⟩
    · have blank : isLineEnd c = true ∨ isSpacing c := by
        rcases Bool.eq_false_or_eq_true (isSpacing c) with spacing | noSpacing
        · exact .inr spacing
        · exact .inl (Bool.eq_true_of_not_eq_false fun noEnd => plain ⟨noSpacing, noEnd⟩)
      rcases ih with nothing | ⟨lines, row, areBlank, written, rfl⟩
      · refine .inl fun d mem => ?_
        rcases mem_cons.1 mem with rfl | later
        · exact blank.symm
        · exact nothing d later
      · rcases blank with isEnd | spacing
        · exact .inr ⟨c :: lines, row, areBlank.cons (.inl isEnd), written, rfl⟩
        · by_cases first : lines = []
          · subst first
            obtain ⟨spaces, d, more, rfl, areSpacing, isWritten⟩ := written
            refine .inr ⟨[], _, .nil, ⟨c :: spaces, d, more, rfl, ?_, isWritten⟩, rfl⟩
            intro space mem
            rcases mem_cons.1 mem with rfl | later
            · exact spacing
            · exact areSpacing space later
          · exact .inr ⟨c :: lines, row, areBlank.cons (.inr ⟨spacing, first⟩), written, rfl⟩

lemma nextRow_cases (text) : (nextRow text = [] ∧ ∀ c ∈ text, isSpacing c ∨ isLineEnd c) ∨
    ∃ blank, BlankLines blank ∧ Written (nextRow text) ∧ text = blank ++ nextRow text := by
  rcases blank_or_row text with nothing | ⟨blank, row, areBlank, written, rfl⟩
  · exact .inl ⟨nextRow_blank nothing, nothing⟩
  · refine .inr ⟨blank, areBlank, ?_, ?_⟩
    · rw [areBlank.nextRow, written.nextRow]
      exact written
    · rw [areBlank.nextRow, written.nextRow]

/-- A logical line with its block: its indentation, whether its header stays on one physical line,
and its tokens without their positions. -/
structure LogicalLine where
  width : Nat
  flat : Bool
  kinds : List TokenKind
  deriving DecidableEq, Repr

/-- A logical line in its place: where it begins and what its header says. -/
structure Reading where
  start : Cursor
  header : Header
  deriving DecidableEq, Repr

namespace Reading

def width (reading : Reading) : Nat :=
  (reading.start.rest.takeWhile isSpacing).length

def segment (reading : Reading) : Segment :=
  reading.header.fill reading.width

def finish (reading : Reading) : Cursor :=
  reading.segment.rest.skipSpacing

/-- Whether the header ends on the physical line it begins on. -/
def flat (reading : Reading) : Bool :=
  (reading.start.upTo reading.header.rest).all fun c => !isLineEnd c

def kinds (reading : Reading) : List TokenKind :=
  reading.segment.tokens.map Token.kind

def row (reading : Reading) : LogicalLine :=
  ⟨reading.width, reading.flat, reading.kinds⟩

/-- A line that is read to its end. -/
structure Whole (reading : Reading) : Prop where
  written : Written reading.start.rest
  read : headSegments reading.start.skipSpacing = .ok reading.header
  ended : reading.finish.atLineEnd

end Reading

/-- The logical lines at the cursor that are not blank. -/
def readings (cursor : Cursor) : Except Diagnostic (List Reading) :=
  let start := skipBlankLines cursor
  if start.atEnd then
    .ok []
  else
    match headSegments start.skipSpacing with
    | .error diagnostic => .error diagnostic
    | .ok header =>
      let reading : Reading := ⟨start, header⟩
      let next := reading.finish.skipLineEnd
      if next.remaining < cursor.remaining then
        (readings next).map (reading :: ·)
      else
        .ok [reading]
termination_by cursor.remaining

/-- A row can be read at the front of a text, and `rest` is left at its end. -/
def RowAt (text : List Char) (row : LogicalLine) (rest : List Char) : Prop :=
  ∃ reading : Reading, reading.Whole ∧ reading.start.rest = text ∧ reading.row = row ∧ reading.finish.rest = rest

/-- Rows can be read from a text, and `final` begins at the row behind them. -/
inductive Scan : List Char → List LogicalLine → List Char → Prop
  | here {text : List Char} : Scan text [] (nextRow text)
  | row {text rest final row} {rows : List LogicalLine}
      (read : RowAt (nextRow text) row rest) (later : Scan rest rows final) :
      Scan text (row :: rows) final

variable {rows : List LogicalLine}

lemma Scan.congr {text' : List Char} (scan : Scan text rows final)
    (same : nextRow text = nextRow text') : Scan text' rows final := by
  cases scan with
  | here =>
    rw [same]
    exact .here
  | row read later => exact .row (same ▸ read) later

lemma Scan.nil_iff : Scan text [] final ↔ final = nextRow text := by
  constructor
  · intro scan
    cases scan with
    | here => rfl
  · rintro rfl
    exact .here

lemma Scan.cons_iff {row : LogicalLine} :
    Scan text (row :: rows) final ↔ ∃ rest, RowAt (nextRow text) row rest ∧ Scan rest rows final := by
  constructor
  · intro scan
    cases scan with
    | row read later => exact ⟨_, read, later⟩
  · rintro ⟨rest, read, later⟩
    exact .row read later

lemma Scan.append {text' : List Char} {rows'}
    (scan : Scan text rows (nextRow text')) (scan' : Scan text' rows' final) :
    Scan text (rows ++ rows') final := by
  generalize target : nextRow text' = middle at scan
  induction scan with
  | here => exact scan'.congr target
  | row read later ih => exact .row read (ih target)

lemma readBlock_same {cursor'} (same : cursor'.rest = cursor.rest) :
    (readBlock width cursor').1 = (readBlock width cursor).1 ∧
      (readBlock width cursor').2.rest = (readBlock width cursor).2.rest := by
  unfold readBlock
  rw [same]
  split
  · exact ⟨rfl, same⟩
  · refine ⟨rfl, ?_⟩
    rw [rest_skip, rest_skip, same]

lemma raw_same {header' : Header} (same : header'.view = header.view) : header'.tail.raw? = header.tail.raw? := by
  have unplaced : ∀ tail : Tail, tail.unplaced.raw? = tail.raw? := by
    intro tail
    cases tail <;> rfl
  have tails : header'.tail.unplaced = header.tail.unplaced := (Prod.ext_iff.1 same).2
  rw [← unplaced, tails, unplaced]

namespace Header

lemma fill_kinds {width width'} {header' : Header} (same : header'.view = header.view)
    (block : header.tail.raw? ≠ none → (readBlock width' header'.rest).1 = (readBlock width header.rest).1) :
    (header'.fill width').tokens.map kind = (header.fill width).tokens.map kind := by
  obtain ⟨tokens, tail, rest⟩ := header
  obtain ⟨tokens', tail', rest'⟩ := header'
  obtain ⟨kinds, tails⟩ := Prod.ext_iff.1 same
  replace kinds : tokens'.map kind = tokens.map kind := kinds
  cases tail with
  | chain =>
    cases tail' with
    | chain => exact kinds
    | _ => cases tails
  | nothing =>
    cases tail' with
    | nothing => exact kinds
    | _ => cases tails
  | block raw pos =>
    cases tail' with
    | block raw' position' =>
      cases tails
      have blocks := block (by simp [Tail.raw?])
      simp only [fill, map_append, map_map, kinds]
      rw [blocks]
      rfl
    | _ => cases tails

lemma fill_rest (noBlock : header.tail.raw? = none) (width) : (header.fill width).rest = header.rest := by
  obtain ⟨tokens, tail, rest⟩ := header
  cases tail with
  | chain | nothing => rfl
  | block raw pos => cases noBlock

lemma fill_rest_block (isBlock : header.tail.raw? ≠ none) (width) :
    (header.fill width).rest = (readBlock width header.rest).2 := by
  obtain ⟨tokens, tail, rest⟩ := header
  cases tail with
  | block raw pos => rfl
  | _ => exact absurd rfl isBlock

end Header

lemma rest_of_beside {cursor'} (beside : Beside [] [] cursor cursor') : cursor'.rest = cursor.rest := by
  obtain ⟨front, split, split', -⟩ := beside
  rw [split, split']

lemma RowAt.unique {rest rest' row'} (read : RowAt text row rest)
    (read' : RowAt text row' rest') : row' = row ∧ rest' = rest := by
  obtain ⟨reading, whole, rfl, rfl, rfl⟩ := read
  obtain ⟨reading', whole', same, rfl, rfl⟩ := read'
  have seam : Seam [] [] := ⟨.nil, .nil⟩
  have beside : Beside [] [] reading.start reading'.start :=
    ⟨reading.start.rest, by simp, by simp [same], fun _ _ => rfl⟩
  have spaced := beside.skipSpacing seam
  obtain ⟨header, found, views, headers⟩ := headSegments_repeats seam spaced whole.written.content
    whole.read (Nat.zero_le _)
  cases whole'.read.symm.trans found
  have ends := rest_of_beside headers
  have width : reading'.width = reading.width := by
    rw [Reading.width, Reading.width, same]
  have flat : reading'.flat = reading.flat := by
    rw [Reading.flat, Reading.flat, beside.upTo headers]
  have kinds : reading'.kinds = reading.kinds := by
    rw [Reading.kinds, Reading.segment, width]
    exact Header.fill_kinds views fun _ => (readBlock_same ends).1
  have rests : reading'.segment.rest.rest = reading.segment.rest.rest := by
    rw [Reading.segment, Reading.segment, width]
    by_cases isBlock : reading.header.tail.raw? = none
    · rw [Header.fill_rest isBlock, Header.fill_rest ((raw_same views).trans isBlock), ends]
    · rw [Header.fill_rest_block isBlock, Header.fill_rest_block (by rwa [raw_same views])]
      exact (readBlock_same ends).2
  constructor
  · rw [Reading.row, Reading.row, width, flat, kinds]
  · rw [Reading.finish, Reading.finish, skipSpacing_rest, skipSpacing_rest, rests]

lemma Scan.unique {rows' : List LogicalLine} (scan : Scan text rows []) (scan' : Scan text rows' []) :
    rows' = rows := by
  have noRow : ∀ {row : LogicalLine} {rest : List Char}, ¬ RowAt [] row rest := by
    rintro row rest ⟨reading, whole, nothing, -⟩
    obtain ⟨spaces, c, more, split, -⟩ := whole.written
    rw [nothing] at split
    simp at split
  induction rows generalizing text rows' with
  | nil =>
    have nothing := Scan.nil_iff.1 scan
    cases rows' with
    | nil => rfl
    | cons row' rows' =>
      obtain ⟨rest, read, -⟩ := Scan.cons_iff.1 scan'
      rw [← nothing] at read
      exact absurd read noRow
  | cons row rows ih =>
    obtain ⟨rest, read, later⟩ := Scan.cons_iff.1 scan
    cases rows' with
    | nil =>
      rw [← Scan.nil_iff.1 scan'] at read
      exact absurd read noRow
    | cons row' rows' =>
      obtain ⟨rest', read', later'⟩ := Scan.cons_iff.1 scan'
      obtain ⟨rfl, rfl⟩ := read.unique read'
      rw [ih later later']

/-- The tokens of rows at open levels: each row moves to its level, and in the end every level is
closed. -/
inductive Spells : List Nat → List LogicalLine → List TokenKind → Prop
  | done : Spells levels [] (List.replicate levels.length .outdent)
  | row {levels after row rows opened kinds}
      (moves : Moves levels row.width opened after) (later : Spells after rows kinds) :
      Spells levels (row :: rows) (opened ++ row.kinds ++ .newLine :: kinds)

lemma lexLine_reading {rest} (written : Written start.rest)
    (ok : lexLine indentation start = .ok (tokens, moved, rest)) :
    ∃ header opened, headSegments start.skipSpacing = .ok header ∧ Reading.Whole ⟨start, header⟩ ∧
      Moves indentation.levels (Reading.width ⟨start, header⟩) opened moved.levels ∧
      tokens.map kind = opened ++ Reading.kinds ⟨start, header⟩ ++ [.newLine] ∧
      rest = (Reading.finish ⟨start, header⟩).skipLineEnd := by
  obtain ⟨measured, measuring, ok⟩ := ok_of_bind ok
  obtain ⟨⟨opened, shifted⟩, moving, ok⟩ := ok_of_bind ok
  obtain ⟨⟨content, contentEnd⟩, segments, ok⟩ := ok_of_bind ok
  obtain ⟨⟨ending, finish⟩, ended, ⟨⟩⟩ := ok_of_pure ok
  have width : (start.rest.take (start.rest.takeWhile isSpacing).length).length =
      (start.rest.takeWhile isSpacing).length :=
    congrArg length (start.readWhile_value isSpacing)
  have moves := moveTo_moves (ok_of_mapError moving)
  rw [measure_levels (ok_of_mapError measuring), width] at moves
  rw [width, lexSegments_eq] at segments
  obtain ⟨header, read, same⟩ := ok_of_map segments
  cases same
  obtain ⟨atEnd, same⟩ := (lexLineEnd_gives _).of_ok ended
  cases same
  refine ⟨header, opened, read, ⟨written, read, atEnd⟩, moves, ?_, rfl⟩
  simp only [map_append, map_map]
  exact congrArg (fun kinds => kinds ++ _ ++ _) (map_id opened)

namespace Reading

variable {reading : Reading} (whole : reading.Whole)

include whole

lemma header_reaches : Reaches reading.start reading.header.rest :=
  reading.start.reaches_skipSpacing.trans (headSegments_reaches whole.written.content whole.read)

omit whole in
lemma finish_reaches : Reaches reading.header.rest reading.finish := by
  refine Reaches.trans ?_ (reaches_skipSpacing _)
  by_cases isBlock : reading.header.tail.raw? = none
  · rw [segment, Header.fill_rest isBlock]
    exact .refl _
  · rw [segment, Header.fill_rest_block isBlock]
    exact readBlock_reaches _ _

lemma finish_progress : reading.finish.skipLineEnd.remaining < reading.start.remaining := by
  have reaches := (headSegments_reaches whole.written.content whole.read).trans finish_reaches
  have shorter : reading.finish.remaining < reading.start.skipSpacing.remaining := by
    apply Nat.lt_of_not_le
    intro same
    have ended := whole.ended
    rw [reaches.eq_of_remaining same, whole.written.content] at ended
    cases ended
  exact Nat.lt_of_le_of_lt reading.finish.reaches_skipLineEnd.remaining_le
    (Nat.lt_of_lt_of_le shorter reading.start.reaches_skipSpacing.remaining_le)

end Reading

lemma lexLines_readings (success : (lexLines indentation cursor).failure = none) :
    ∃ lines, readings cursor = .ok lines ∧ (∀ line ∈ lines, line.Whole) ∧
      Spells indentation.levels (lines.map Reading.row)
        ((lexLines indentation cursor).tokens.map kind) := by
  have lexes := lexLines_lexes indentation cursor
  generalize lexLines indentation cursor = stream at lexes success ⊢
  induction lexes with
  | @ended indentation _ atEnd =>
    refine ⟨[], by rw [readings, if_pos atEnd], by simp, ?_⟩
    have closing := @map_const' _ _ indentation.levels TokenKind.outdent
    rw [map_map, map_nil]
    exact closing ▸ .done
  | failed going fails => cases success
  | line going reads read shorter rest ih =>
    obtain ⟨lines, found, wholes, spells⟩ := ih success
    obtain ⟨header, opened, isHeader, whole, moves, kinds, further⟩ :=
      lexLine_reading (skipBlankLines_written going) reads
    rw [further] at shorter found
    rw [readings, if_neg (by simp [going]), isHeader]
    dsimp only
    rw [if_pos shorter, found]
    refine ⟨_, rfl, forall_mem_cons.2 ⟨whole, wholes⟩, ?_⟩
    rw [map_append, kinds, append_assoc]
    exact .row moves spells

lemma Reading.Whole.rowAt {reading : Reading} (whole : reading.Whole) :
    RowAt reading.start.rest reading.row reading.finish.rest :=
  ⟨reading, whole, rfl, rfl, rfl⟩

lemma nextRow_drop_lineEnd (text) : nextRow (text.drop (lineEndLength text)) = nextRow text := by
  have feed : BlankLines ['\n'] := .cons .nil (.inl rfl)
  have carriage : BlankLines ['\r'] := .cons .nil (.inl rfl)
  have pair : BlankLines ['\r', '\n'] := .cons feed (.inl rfl)
  unfold lineEndLength
  split
  · exact (pair.nextRow _).symm
  · exact (feed.nextRow _).symm
  · exact (carriage.nextRow _).symm
  · rfl

lemma nextRow_skipLineEnd (cursor : Cursor) : nextRow cursor.skipLineEnd.rest = nextRow cursor.rest := by
  rw [skipLineEnd, rest_skip, nextRow_drop_lineEnd]

lemma skipBlankLines_nextRow (cursor) : (skipBlankLines cursor).rest = nextRow cursor.rest := rest_skip cursor _

lemma readings_cons {lines} (ok : readings cursor = .ok (line :: lines)) (whole : line.Whole) :
    line.start.rest = nextRow cursor.rest ∧ readings line.finish.skipLineEnd = .ok lines := by
  unfold readings at ok
  dsimp only at ok
  split at ok
  · cases ok
  · split at ok
    · cases ok
    · split at ok
      · obtain ⟨others, found, same⟩ := ok_of_map ok
        cases same
        exact ⟨skipBlankLines_nextRow cursor, found⟩
      · rename_i longer
        cases ok
        exact absurd (Nat.lt_of_lt_of_le (Reading.finish_progress whole)
          (cursor.reaches_skip _).remaining_le) longer

lemma readings_scan_to {before after : List Reading} {line}
    (ok : readings cursor = .ok (before ++ line :: after))
    (whole : ∀ other ∈ before ++ line :: after, other.Whole) :
    Scan cursor.rest (before.map Reading.row) line.start.rest ∧ readings line.finish.skipLineEnd = .ok after := by
  induction before generalizing cursor with
  | nil =>
    obtain ⟨begins, later⟩ := readings_cons ok (whole line (by simp))
    rw [begins]
    exact ⟨.here, later⟩
  | cons first before ih =>
    have isWhole := whole first (by simp)
    obtain ⟨begins, later⟩ := readings_cons ok isWhole
    obtain ⟨scan, behind⟩ := ih later (forall_mem_cons.1 whole).2
    have read := isWhole.rowAt
    rw [begins] at read
    exact ⟨.row read (scan.congr (nextRow_skipLineEnd _)), behind⟩

lemma readings_scan {lines : List Reading} (ok : readings cursor = .ok lines)
    (whole : ∀ line ∈ lines, line.Whole) : Scan cursor.rest (lines.map Reading.row) [] := by
  induction lines generalizing cursor with
  | nil =>
    have nothing : nextRow cursor.rest = [] := by
      unfold readings at ok
      dsimp only at ok
      split at ok
      · rename_i atEnd
        rw [← skipBlankLines_nextRow]
        exact isEmpty_iff.1 atEnd
      · split at ok
        · cases ok
        · split at ok
          · obtain ⟨others, found, same⟩ := ok_of_map ok
            cases same
          · cases ok
    rw [← nothing]
    exact .here
  | cons line lines ih =>
    have isWhole := whole line (by simp)
    obtain ⟨begins, later⟩ := readings_cons ok isWhole
    have scan := ih later (forall_mem_cons.1 whole).2
    have read := isWhole.rowAt
    rw [begins] at read
    exact .row read (scan.congr (nextRow_skipLineEnd _))

end PugTemplate.Token
