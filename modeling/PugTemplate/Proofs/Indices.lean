import Mathlib.Data.Prod.Lex
import PugTemplate.Proofs.Places

/-!
# Character indices

A position is also a matter of counting: its line is the number of line ends before it, and its offset
the number of characters since the last of them. Both counts agree with the positions that a cursor
keeps while it moves, so tokens have the positions of characters, in their order.
-/

namespace PugTemplate

open List

namespace Position

/-- Whether a line ends with the character at an index: a line feed, or a carriage return that no line
feed follows. -/
def endsLine (text : List Char) (index : Nat) : Bool :=
  text[index]? == some '\n' || text[index]? == some '\r' && text[index + 1]? != some '\n'

/-- Whether the character at an index is the carriage return of a pair. -/
def isPaired (text : List Char) (index : Nat) : Bool :=
  text[index]? == some '\r' && text[index + 1]? == some '\n'

/-- The position of the character at an index. -/
def ofIndex (text : List Char) (index : Nat) : Position where
  line := 1 + (List.range index).countP (endsLine text)
  offset := ((List.range index).reverse.takeWhile fun i => !endsLine text i).countP fun i => !isPaired text i

/-- Positions by their lines, and on one line by their offsets. -/
instance : Preorder Position :=
  Preorder.lift fun position => toLex (position.line, position.offset)

lemma le_after (pos : Position) (c) (rest : List Char) : pos ≤ pos.after c rest := by
  have later : pos ≤ ⟨pos.line + 1, 0⟩ := Prod.Lex.toLex_le_toLex.2 (.inl (Nat.lt_succ_self pos.line))
  unfold after
  split
  · exact later
  · split
    · split
      · exact le_refl pos
      · exact later
    · exact Prod.Lex.toLex_le_toLex.2 (.inr ⟨rfl, Nat.le_succ pos.offset⟩)

variable {text rest : List Char} {c : Char} {index : Nat}

/-- The position of the character at an index when the text begins at `start`. -/
def countedFrom (start : Position) (text : List Char) (index : Nat) : Position where
  line := start.line + (List.range index).countP (endsLine text)
  offset := ((List.range index).reverse.takeWhile fun i => !endsLine text i).countP (fun i => !isPaired text i) +
    if (List.range index).any (endsLine text) then 0 else start.offset

lemma ofIndex_eq (text index) : ofIndex text index = countedFrom .start text index := by
  simp [ofIndex, countedFrom, start]

variable {start : Position}

lemma countedFrom_ended (ends : endsLine text index) :
    countedFrom start text (index + 1) = ⟨(countedFrom start text index).line + 1, 0⟩ := by
  simp [countedFrom, range_succ, ends, Nat.add_assoc]

lemma countedFrom_inside (inside : endsLine text index = false) :
    countedFrom start text (index + 1) = ⟨(countedFrom start text index).line,
      (countedFrom start text index).offset + if isPaired text index then 0 else 1⟩ := by
  cases paired : isPaired text index with
  | true | false => simp [countedFrom, range_succ, paired, inside, Nat.add_right_comm]

lemma countedFrom_succ (split : text.drop index = c :: rest) :
    countedFrom start text (index + 1) = (countedFrom start text index).after c rest := by
  have here : text[index]? = some c := by
    rw [← head?_drop, split, head?_cons]
  have next : text[index + 1]? = rest.head? := by
    rw [← head?_drop, ← drop_drop, split, drop_succ_cons, drop_zero]
  have ended := @countedFrom_ended text index start
  have inside := @countedFrom_inside text index start
  simp only [endsLine, isPaired, next] at ended inside
  unfold after
  split
  · exact ended (by simp_all)
  · split
    · split
      · rw [inside (by simp_all), if_pos (by simp_all)]
        rfl
      · exact ended (by simp_all)
    · rw [inside (by simp_all), if_neg (by simp_all)]

lemma ofIndex_mono (ordered : index ≤ later) (inside : later ≤ text.length) :
    ofIndex text index ≤ ofIndex text later := by
  induction later, ordered using Nat.le_induction with
  | base => exact le_refl _
  | succ later ordered ih =>
    have step : ofIndex text later ≤ ofIndex text (later + 1) := by
      rw [ofIndex_eq, ofIndex_eq, countedFrom_succ (drop_eq_getElem_cons inside)]
      exact le_after _ _ _
    exact (ih (Nat.le_of_succ_le inside)).trans step

end Position

namespace Cursor

lemma skip_position (cursor : Cursor) (inside : index ≤ cursor.remaining) :
    (cursor.skip index).position = .countedFrom cursor.position cursor.rest index := by
  induction index with
  | zero => simp [Position.countedFrom, skip]
  | succ index ih =>
    have split := drop_eq_getElem_cons (Nat.lt_of_succ_le inside)
    rw [← skip_skip _ index 1, Position.countedFrom_succ split, ← ih (Nat.le_of_succ_le inside), skip, skip,
      advance, rest_skip, split]

lemma position_skip (source) (inside : index ≤ source.toList.length) :
    ((ofText source).skip index).position = .ofIndex source.toList index := by
  rw [skip_position _ inside, Position.ofIndex_eq]
  rfl

lemma skip_min (cursor : Cursor) (count) : cursor.skip count = cursor.skip (min count cursor.remaining) := by
  rcases Nat.le_total count cursor.remaining with short | long
  · rw [Nat.min_eq_left short]
  · have ended : (cursor.skip cursor.remaining).rest = [] := by
      rw [rest_skip]
      exact drop_length
    rw [Nat.min_eq_right long, ← Nat.add_sub_cancel' long, ← skip_skip, skip_at_end ended]

/-- What a reader can do with a text. -/
inductive Move where
  | advance
  | consume (word : String)
  | readWhile (keep : Char → Bool)
  | readUntil (stop : Char → Bool)
  | readLine
  | skipLineEnd
  | skipSpacing
  | readString
  | readExpression (breaks : List Char)
  | checkpoint
  | rewind (index : Nat)

/-- A reader's cursor, and the checkpoints to which it can go back, the last one first. -/
structure Reader where
  cursor : Cursor
  marks : List Cursor

/-- The cursor behind a read, or where a read that fails has stopped. -/
def stopOf {α : Type} : Except ReadFailure (α × Cursor) → Cursor
  | .ok (_, rest) => rest
  | .error failure => failure.stop

def Reader.step : Reader → Move → Reader
  | ⟨cursor, marks⟩, .advance => ⟨cursor.advance, marks⟩
  | ⟨cursor, marks⟩, .consume word => ⟨(cursor.consume? word).getD cursor, marks⟩
  | ⟨cursor, marks⟩, .readWhile keep => ⟨(cursor.readWhile keep).2, marks⟩
  | ⟨cursor, marks⟩, .readUntil stop => ⟨(cursor.readUntil stop).2, marks⟩
  | ⟨cursor, marks⟩, .readLine => ⟨cursor.readLine.2, marks⟩
  | ⟨cursor, marks⟩, .skipLineEnd => ⟨cursor.skipLineEnd, marks⟩
  | ⟨cursor, marks⟩, .skipSpacing => ⟨cursor.skipSpacing, marks⟩
  | ⟨cursor, marks⟩, .readString => ⟨stopOf cursor.readString, marks⟩
  | ⟨cursor, marks⟩, .readExpression breaks => ⟨stopOf (cursor.readExpression breaks), marks⟩
  | ⟨cursor, marks⟩, .checkpoint => ⟨cursor, cursor :: marks⟩
  | ⟨cursor, marks⟩, .rewind index => ⟨marks.getD index cursor, marks⟩

lemma readString_stops (cursor) : Reaches cursor (stopOf cursor.readString) := by
  unfold readString
  split
  · split
    · split <;> exact cursor.reaches_skip _
    · exact .refl cursor
  · exact .refl cursor

lemma readExpression_stops (cursor breaks) : Reaches cursor (stopOf (cursor.readExpression breaks)) := by
  unfold readExpression
  split <;> exact cursor.reaches_skip _

/-- A reader stands, and may go back to, only where reading on from the start leads. -/
def Reader.On (start : Cursor) (reader : Reader) : Prop :=
  Reaches start reader.cursor ∧ ∀ mark ∈ reader.marks, Reaches start mark

lemma Reader.On.step {reader : Reader} (on : reader.On start) (move) : (reader.step move).On start := by
  obtain ⟨cursor, marks⟩ := reader
  have further : ∀ {later : Cursor}, Reaches cursor later → Reader.On start ⟨later, marks⟩ :=
    fun reaches => ⟨on.1.trans reaches, on.2⟩
  cases move with
  | advance => exact further (reaches_advance _)
  | consume word =>
    cases consumed : cursor.consume? word with
    | none => exact further (by rw [consumed]; exact .refl _)
    | some later => exact further (by rw [consumed]; exact consume_reaches consumed)
  | readString => exact further (readString_stops _)
  | readExpression breaks => exact further (readExpression_stops _ breaks)
  | checkpoint => exact ⟨on.1, forall_mem_cons.2 on⟩
  | rewind index =>
    refine ⟨?_, on.2⟩
    change Reaches start (marks.getD index cursor)
    rw [getD_eq_getElem?_getD]
    cases mark : marks[index]? with
    | none => exact on.1
    | some cursor => exact on.2 cursor (mem_of_getElem? mark)
  | _ => exact further (reaches_skip _ _)

/-- However a reader has moved, and whether its reads have failed or it has gone back, it stands in front of
a character of the text or at the end, at the position that counting gives for it. -/
theorem positions_count_what_is_consumed (text : List Char) (start : Position) (moves : List Move) :
    ∃ index ≤ text.length, (moves.foldl Reader.step ⟨⟨text, start⟩, []⟩).cursor =
      ⟨text.drop index, .countedFrom start text index⟩ := by
  have on : (moves.foldl Reader.step ⟨⟨text, start⟩, []⟩).On ⟨text, start⟩ := by
    refine foldlRecOn moves Reader.step ⟨.refl _, by simp⟩ ?_
    exact fun reader on move _ => on.step move
  obtain ⟨count, moved⟩ := on.1
  rw [skip_min] at moved
  refine ⟨_, Nat.min_le_right count text.length, ?_⟩
  rw [moved]
  exact congrArg₂ Cursor.mk (rest_skip _ _) (skip_position _ (Nat.min_le_right count text.length))

end Cursor

namespace Token

open Cursor

lemma Trail.indices {whole start finish : Cursor} {tokens} {first : Nat}
    (trail : Trail start tokens finish) (begun : start = whole.skip first)
    (bounded : first ≤ whole.remaining) : ∃ indices : List Nat, indices.Pairwise (· ≤ ·) ∧
      (∀ index ∈ indices, first ≤ index ∧ index ≤ whole.remaining) ∧
      tokens.map (·.position) = indices.map fun index => (whole.skip index).position := by
  induction trail generalizing first with
  | nil reaches => exact ⟨[], .nil, by simp, rfl⟩
  | cons reaches short rest ih =>
    obtain ⟨count, moved⟩ := reaches
    rw [begun, skip_skip, skip_min] at moved
    have ordered := Nat.le_min.2 ⟨Nat.le_add_right first count, bounded⟩
    obtain ⟨indices, increasing, between, places⟩ := ih moved (Nat.min_le_right _ _)
    refine ⟨_ :: indices, pairwise_cons.2 ⟨fun index mem => (between index mem).1, increasing⟩,
      forall_mem_cons.2 ⟨⟨ordered, Nat.min_le_right _ _⟩, fun index mem => ?_⟩, ?_⟩
    · exact ⟨ordered.trans (between index mem).1, (between index mem).2⟩
    · rw [map_cons, map_cons, places, moved]

/-- The tokens, and a line end in the place of the fault behind them if there is one. -/
def Stream.marks (stream : Stream) : List Token :=
  stream.tokens ++ stream.failure.toList.map fun diagnostic => ⟨.newLine, diagnostic.position⟩

lemma lexLines_trail (indentation cursor) : ∃ finish, Trail cursor (lexLines indentation cursor).marks finish := by
  have lexes := lexLines_lexes indentation cursor
  generalize lexLines indentation cursor = stream at lexes ⊢
  induction lexes with
  | @ended indentation cursor atEnd =>
    refine ⟨_, .repeated ?_ (reaches_skipBlankLines cursor) (.refl _)⟩
    simp [Stream.marks, textLength]
  | @failed indentation cursor diagnostic going fails =>
    have begun : (skipBlankLines cursor).visited.cursors (skipBlankLines cursor)
      (skipBlankLines cursor) := ⟨rfl, .refl _⟩
    have read := (visited_whole _).lexLine begun indentation (skipBlankLines_written going)
    rw [fails] at read
    cases read with
    | error same =>
      obtain ⟨place, reaches, isPlace⟩ := same.position.2
      refine ⟨place, ?_⟩
      rw [Stream.marks, Option.toList_some, map_singleton, ← isPlace]
      exact .cons ((reaches_skipBlankLines cursor).trans reaches) (Nat.zero_le _) (.nil (.refl place))
  | @line _ _ cursor _ line lineEnd going reads read shorter rest ih =>
    obtain ⟨finish, others⟩ := ih
    have trail := (read.trail.before (reaches_skipBlankLines cursor)).behind lineEnd.reaches_skipLineEnd
    refine ⟨finish, ?_⟩
    rw [Stream.marks, append_assoc]
    exact trail.append others

def Stream.positions (stream : Stream) : List Position :=
  stream.tokens.map (·.position) ++ stream.failure.toList.map (·.position)

/-- The tokens of a template, and the fault that ends them if there is one, have the positions of
characters of the template or of its end, in the order of the template. -/
theorem positions_true_and_ordered (source : String) :
    (∃ indices : List Nat, indices.Pairwise (· ≤ ·) ∧ (∀ index ∈ indices, index ≤ source.length) ∧
      (stream source).positions = indices.map (Position.ofIndex source.toList)) ∧
    (stream source).positions.Pairwise (· ≤ ·) := by
  obtain ⟨finish, trail⟩ := lexLines_trail .none (ofText source)
  obtain ⟨indices, increasing, between, places⟩ := @trail.indices (ofText source) _ _ _ 0 rfl (Nat.zero_le _)
  have counted : (stream source).positions = indices.map (Position.ofIndex source.toList) := by
    have marked : (stream source).positions = (stream source).marks.map (·.position) := by
      simp [Stream.positions, Stream.marks]
    rw [marked]
    exact places.trans (List.map_congr_left fun index member => position_skip source (between index member).2)
  refine ⟨⟨indices, increasing, fun index member => ?_, counted⟩, ?_⟩
  · rw [← String.length_toList]
    exact (between index member).2
  · rw [counted, List.pairwise_map]
    exact increasing.imp_of_mem fun _ member ordered => Position.ofIndex_mono ordered (between _ member).2

end Token

end PugTemplate
