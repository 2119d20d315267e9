import Mathlib.Data.List.Basic
import PugTemplate.Cursor.Balanced

/-!
# Cursors that move on

Every read of a text takes some characters from its front. A cursor that comes out of a read
therefore reaches back to the one that went in, and what is left is a part of what was left.
-/

namespace PugTemplate.Cursor

open Text List

lemma rest_advance (cursor : Cursor) : cursor.advance.rest = cursor.rest.drop 1 := by
  unfold advance
  split
  · rename_i nothing
    rw [nothing]
    rfl
  · rename_i c rest more
    rw [more]
    rfl

lemma rest_skip (cursor : Cursor) (count) : (cursor.skip count).rest = cursor.rest.drop count := by
  induction count generalizing cursor with
  | zero => rfl
  | succ count ih =>
    rw [skip, ih, rest_advance, drop_drop, Nat.add_comm]

lemma skip_skip (cursor : Cursor) (first second) :
    (cursor.skip first).skip second = cursor.skip (first + second) := by
  induction first generalizing cursor with
  | zero => rw [skip, Nat.zero_add]
  | succ first ih =>
    rw [Nat.succ_add]
    exact ih cursor.advance

lemma length_trimEnd_le (text) : (trimEnd text).length ≤ text.length := by
  have kept := ((text.reverse.dropWhile_sublist isBlank).reverse).length_le
  rwa [reverse_reverse] at kept

variable {cursor later : Cursor} {keep : Char → Bool} {c : Char} {text : List Char}

lemma skip_at_end (ended : cursor.rest = []) (count) : cursor.skip count = cursor := by
  have still : cursor.advance = cursor := by
    unfold advance
    rw [ended]
  induction count with
  | zero => rfl
  | succ count ih => rw [skip, still, ih]

lemma remaining_skip (count : Nat) : (cursor.skip count).remaining = cursor.remaining - count := by
  rw [remaining, rest_skip, length_drop, remaining]

lemma remaining_induction {motive : Cursor → Prop} (step : ∀ cursor,
    (∀ later : Cursor, later.remaining < cursor.remaining → motive later) → motive cursor) :
    ∀ cursor, motive cursor :=
  fun cursor => (measure remaining).wf.induction cursor step

lemma isLineEnd_iff : isLineEnd c ↔ c = '\n' ∨ c = '\r' := by
  simp only [isLineEnd, Bool.or_eq_true, beq_iff_eq]

def Reaches (cursor later : Cursor) : Prop :=
  ∃ count, later = cursor.skip count

namespace Reaches

lemma refl (cursor) : Reaches cursor cursor := ⟨0, rfl⟩

lemma trans (early : Reaches first second) (late : Reaches second third) : Reaches first third := by
  obtain ⟨count, rfl⟩ := early
  obtain ⟨more, rfl⟩ := late
  exact ⟨count + more, first.skip_skip count more⟩

lemma remaining_le (reaches : Reaches cursor later) : later.remaining ≤ cursor.remaining := by
  obtain ⟨count, rfl⟩ := reaches
  rw [remaining_skip]
  exact Nat.sub_le _ _

lemma remaining_lt (first : cursor.peek = some c) (reaches : Reaches cursor.advance later) :
    later.remaining < cursor.remaining := by
  obtain ⟨more, text⟩ := head?_eq_some_iff.1 first
  have less := reaches.remaining_le
  simp only [remaining, rest_advance, text, length_drop, length_cons] at less ⊢
  omega

lemma eq_of_remaining (reaches : Reaches cursor later) (same : cursor.remaining ≤ later.remaining) :
    later = cursor := by
  obtain ⟨count, rfl⟩ := reaches
  rw [remaining_skip] at same
  by_cases ended : cursor.rest = []
  · exact skip_at_end ended count
  · have some : 0 < cursor.remaining := length_pos_iff.2 ended
    have nothing : count = 0 := by omega
    rw [nothing]
    rfl

end Reaches

lemma drop_takeWhile_length (keep : Char → Bool) :
    text.drop (text.takeWhile keep).length = text.dropWhile keep := by
  have parts := @takeWhile_append_dropWhile _ keep text
  nth_rewrite 2 [← parts]
  exact drop_left

section Reads

variable (cursor : Cursor)

lemma reaches_skip (count) : Reaches cursor (cursor.skip count) := ⟨count, rfl⟩

lemma reaches_advance : Reaches cursor cursor.advance := ⟨1, rfl⟩

lemma reaches_readWhile (keep : Char → Bool) : Reaches cursor (cursor.readWhile keep).2 := cursor.reaches_skip _

lemma reaches_readLine : Reaches cursor cursor.readLine.2 := cursor.reaches_skip _

lemma reaches_skipSpacing : Reaches cursor cursor.skipSpacing := cursor.reaches_skip _

lemma reaches_skipLineEnd : Reaches cursor cursor.skipLineEnd := cursor.reaches_skip _

lemma readWhile_value (keep : Char → Bool) : (cursor.readWhile keep).1 = cursor.rest.takeWhile keep := by
  exact (prefix_iff_eq_take.1 ( takeWhile_prefix keep)).symm

lemma readWhile_rest (keep : Char → Bool) : (cursor.readWhile keep).2.rest = cursor.rest.dropWhile keep := by
  change (cursor.skip (cursor.rest.takeWhile keep).length).rest = _
  rw [rest_skip, drop_takeWhile_length]

lemma readWhile_stops (next : (cursor.readWhile keep).2.peek = some c) : keep c = false := by
  rw [peek, readWhile_rest] at next
  have stopped := head?_dropWhile_not keep cursor.rest
  rw [next] at stopped
  simpa using stopped

lemma readWhile_progress (taken : (cursor.readWhile keep).1 ≠ []) :
    (cursor.readWhile keep).2.remaining < cursor.remaining := by
  rw [readWhile_value] at taken
  have positive := length_pos_iff.2 taken
  have bounded : (cursor.rest.takeWhile keep).length ≤ cursor.rest.length := ( takeWhile_prefix keep).length_le
  change (cursor.skip (cursor.rest.takeWhile keep).length).remaining < _
  rw [remaining_skip]
  change cursor.rest.length - _ < cursor.rest.length
  omega

lemma skipSpacing_rest : cursor.skipSpacing.rest = cursor.rest.dropWhile isSpacing :=
  cursor.readWhile_rest isSpacing

end Reads

lemma consume_reaches (consumed : cursor.consume? word = some later) : Reaches cursor later := by
  unfold consume? at consumed
  split at consumed
  · cases consumed
    exact cursor.reaches_skip _
  · cases consumed

lemma readExpression_reaches (ok : cursor.readExpression breaks = .ok (text, later)) : Reaches cursor later := by
  unfold readExpression at ok
  split at ok
  · cases ok
    exact cursor.reaches_skip _
  all_goals cases ok

lemma readString_reaches (ok : cursor.readString = .ok (value, later)) : Reaches cursor later := by
  unfold readString at ok
  split at ok
  · split at ok
    · split at ok
      · cases ok
        exact cursor.reaches_skip _
      · cases ok
    · cases ok
      exact .refl cursor
  · cases ok
    exact .refl cursor

lemma quotedBody_plain (plain : c ≠ '\\') (inside : ¬ (c == quote))
    (rest) : quotedBody quote (c :: rest) =
      (quotedBody quote rest).map fun found => (c :: found.1, found.2 + 1) := by
  rw [quotedBody, if_neg inside]
  · exact fun same => absurd same plain
  · exact fun _ _ same => absurd same plain

lemma quotedBody_close (plain : c ≠ '\\') (closes : (c == quote))
    (rest) : quotedBody quote (c :: rest) = some ([], 1) := by
  rw [quotedBody, if_pos closes]
  · exact fun same => absurd same plain
  · exact fun _ _ same => absurd same plain

lemma peek_eq_head : cursor.peek = cursor.rest.head? := rfl

lemma atLineEnd_iff (cursor : Cursor) : cursor.atLineEnd ↔ ∀ c ∈ cursor.rest.head?, isLineEnd c := by
  unfold atLineEnd atEnd atNewLine peek
  cases cursor.rest with
  | nil | cons => simp

lemma readLine_ended (cursor : Cursor) : cursor.readLine.2.atLineEnd := by
  rw [atLineEnd_iff]
  intro c first
  have stopped := cursor.readWhile_stops first
  simpa using stopped

lemma skipSpacing_ended (ended : cursor.atLineEnd) : cursor.skipSpacing = cursor := by
  rw [atLineEnd_iff] at ended
  have nothing : cursor.rest.takeWhile isSpacing = [] := by
    cases text : cursor.rest with
    | nil => rfl
    | cons c rest =>
      have isEnd := ended c (by simp [text])
      apply takeWhile_cons_of_neg
      rcases isLineEnd_iff.1 isEnd with rfl | rfl
      · decide
      · decide
  change cursor.skip (cursor.rest.takeWhile isSpacing).length = cursor
  rw [nothing]
  rfl

def SameLine (cursor later : Cursor) : Prop :=
  ∃ count, later = cursor.skip count ∧ ∀ c ∈ cursor.rest.take count, isLineEnd c = false

namespace SameLine

lemma reaches (same : SameLine cursor later) : Reaches cursor later := by
  obtain ⟨count, moved, -⟩ := same
  exact ⟨count, moved⟩

lemma trans (early : SameLine first second) (late : SameLine second third) : SameLine first third := by
  obtain ⟨count, rfl, front⟩ := early
  obtain ⟨more, rfl, back⟩ := late
  refine ⟨count + more, first.skip_skip count more, ?_⟩
  intro c mem
  rw [take_add, mem_append] at mem
  rcases mem with inFront | inBack
  · exact front c inFront
  · apply back c
    rw [rest_skip]
    exact inBack

lemma of_readWhile (kept : ∀ c, keep c → isLineEnd c = false) : SameLine cursor (cursor.readWhile keep).2 := by
  refine ⟨_, rfl, ?_⟩
  intro c mem
  have taken : c ∈ cursor.rest.takeWhile keep := by
    rw [← cursor.readWhile_value keep]
    exact mem
  exact kept c (all_eq_true.1 all_takeWhile c taken)

lemma of_advance (first : cursor.peek = some c) (inside : isLineEnd c = false) :
    SameLine cursor cursor.advance := by
  refine ⟨1, rfl, ?_⟩
  intro other mem
  obtain ⟨rest, more⟩ : ∃ rest, cursor.rest = c :: rest := head?_eq_some_iff.1 first
  rw [more] at mem
  rw [mem_singleton.1 mem]
  exact inside

lemma of_skipSpacing (cursor) : SameLine cursor cursor.skipSpacing := by
  apply of_readWhile
  intro c spacing
  simp only [isSpacing, Bool.or_eq_true, beq_iff_eq] at spacing
  rcases spacing with rfl | rfl
  · rfl
  · rfl

lemma of_readLine (cursor) : SameLine cursor cursor.readLine.2 := by
  apply of_readWhile
  intro c inside
  simpa using inside

lemma line_eq (same : SameLine cursor later) : later.position.line = cursor.position.line := by
  obtain ⟨count, rfl, noEnds⟩ := same
  induction count generalizing cursor with
  | zero => rfl
  | succ count ih =>
    rw [skip, ih]
    · unfold advance
      split
      · rfl
      · rename_i c rest shape
        have noEnd := noEnds c (by simp [shape])
        simp only [isLineEnd, Bool.or_eq_false_iff] at noEnd
        simp [Position.after, noEnd.1, noEnd.2]
    · intro c mem
      rw [rest_advance] at mem
      apply noEnds c
      cases shape : cursor.rest with
      | nil => simp [shape] at mem
      | cons d rest =>
        rw [shape] at mem
        exact mem_cons_of_mem _ mem

end SameLine

end PugTemplate.Cursor
