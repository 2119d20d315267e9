import PugTemplate.Proofs.Counterparts
import PugTemplate.Proofs.Interpolation

/-!
# Texts that differ behind a seam

Two texts may be the same up to a place where a line ends in both of them. What is read in the first
without passing this seam is read in the second as well, except for a backslash at the end of the first
text, which would take in the line end of the second.
-/

namespace PugTemplate

open List

variable {behind behind' : List Char}

namespace Cursor

/-- A text that can stand behind a line: it begins with a line end, or there is none left. -/
def LineEnded (text : List Char) : Prop :=
  ∀ c ∈ text.head?, Text.isLineEnd c = true

/-- Two texts that can stand behind the same line. -/
structure Seam (behind behind' : List Char) : Prop where
  left : LineEnded behind
  right : LineEnded behind'

/-- Two cursors in front of the same text up to a seam. -/
def Beside (behind behind' : List Char) (cursor cursor' : Cursor) : Prop :=
  ∃ front, cursor.rest = front ++ behind ∧ cursor'.rest = front ++ behind' ∧
    (behind = [] → front.getLast? = some '\\' → behind' = [])

lemma LineEnded.nil : LineEnded [] := by
  simp [LineEnded]

lemma LineEnded.append {tail} (ended : LineEnded text) (further : LineEnded tail) : LineEnded (text ++ tail) := by
  cases text with
  | nil => exact further
  | cons c rest => exact ended

lemma LineEnded.takeWhile_append (ended : LineEnded behind)
    (stops : ∀ c, Text.isLineEnd c → keep c = false) (front) :
    (front ++ behind).takeWhile keep = front.takeWhile keep := by
  induction front with
  | nil =>
    cases behind with
    | nil => rfl
    | cons c rest =>
      have stopped := stops c (ended c rfl)
      rw [nil_append, takeWhile_cons, if_neg (by simp [stopped])]
      rfl
  | cons c rest ih => rw [cons_append, takeWhile_cons, takeWhile_cons, ih]

namespace Beside

variable {cursor cursor' : Cursor} (beside : Beside behind behind' cursor cursor')

include beside

lemma skip (count) (inside : count + behind.length ≤ cursor.remaining) :
    Beside behind behind' (cursor.skip count) (cursor'.skip count) := by
  obtain ⟨front, split, split', escape⟩ := beside
  have short : count ≤ front.length := by
    rw [remaining, split, length_append] at inside
    omega
  refine ⟨front.drop count, ?_, ?_, ?_⟩
  · rw [rest_skip, split, drop_append_of_le_length short]
  · rw [rest_skip, split', drop_append_of_le_length short]
  · intro nothing last
    apply escape nothing
    rw [getLast?_drop] at last
    split at last
    · cases last
    · exact last

lemma shorter_iff {later'} (further : Beside behind behind' later later') :
    later'.remaining < cursor'.remaining ↔ later.remaining < cursor.remaining := by
  obtain ⟨front, split, split', -⟩ := beside
  obtain ⟨ahead, parts, parts', -⟩ := further
  simp only [remaining, split, split', parts, parts', length_append]
  omega

lemma upTo {later'} (further : Beside behind behind' later later') : cursor'.upTo later' = cursor.upTo later := by
  obtain ⟨front, split, split', -⟩ := beside
  obtain ⟨ahead, parts, parts', -⟩ := further
  simp only [Cursor.upTo, remaining, split, split', parts, parts', length_append, Nat.add_sub_add_right]
  rw [take_append_of_le_length (Nat.sub_le _ _), take_append_of_le_length (Nat.sub_le _ _)]

lemma cases : cursor.rest = behind ∧ cursor'.rest = behind' ∨
    ∃ c more more', cursor.rest = c :: more ∧ cursor'.rest = c :: more' ∧
      Beside behind behind' cursor.advance cursor'.advance := by
  obtain ⟨front, split, split', escape⟩ := id beside
  cases front with
  | nil => exact .inl ⟨split, split'⟩
  | cons c more =>
    refine .inr ⟨c, more ++ behind, more ++ behind', split, split', ?_⟩
    refine beside.skip 1 ?_
    rw [remaining, split, length_append, length_cons]
    omega

lemma readWhile_inside (keep : Char → Bool) (inside : behind.length < (cursor.readWhile keep).2.remaining) :
    (cursor'.readWhile keep).1 = (cursor.readWhile keep).1 ∧
      Beside behind behind' (cursor.readWhile keep).2 (cursor'.readWhile keep).2 := by
  obtain ⟨front, split, split', -⟩ := id beside
  have short : (front.takeWhile keep).length ≠ front.length := by
    intro whole
    change _ < (cursor.skip _).remaining at inside
    rw [remaining_skip, remaining, split, takeWhile_append, if_pos whole] at inside
    simp only [length_append] at inside
    omega
  have taken : ∀ more, (front ++ more).takeWhile keep = front.takeWhile keep := fun more => by
    rw [takeWhile_append, if_neg short]
  constructor
  · rw [readWhile_value, readWhile_value, split, split', taken, taken]
  · have count : (cursor'.rest.takeWhile keep).length = (cursor.rest.takeWhile keep).length := by
      rw [split, split', taken, taken]
    change Beside _ _ (cursor.skip _) (cursor'.skip _)
    rw [count]
    change _ < (cursor.skip _).remaining at inside
    rw [remaining_skip] at inside
    exact beside.skip _ (by omega)

end Beside

lemma split_front (parts : text ++ more = front ++ behind)
    (bounded : behind.length ≤ more.length) : ∃ middle, front = text ++ middle ∧ more = middle ++ behind := by
  obtain ⟨middle, rfl⟩ := suffix_of_suffix_length_le ⟨front, parts.symm⟩ (suffix_append text more) bounded
  rw [← append_assoc] at parts
  exact ⟨middle, (append_cancel_right parts).symm, rfl⟩

namespace Beside

variable {cursor cursor' : Cursor} (beside : Beside behind behind' cursor cursor')

include beside

lemma readExpression {breaks text rest}
    (ok : cursor.readExpression breaks = .ok (text, rest))
    (inside : behind.length < rest.remaining ∨ behind.length ≤ rest.remaining ∧
      Seam behind behind' ∧ ∀ c, Text.isLineEnd c → breaks.contains c) :
    ∃ rest', cursor'.readExpression breaks = .ok (text, rest') ∧ Beside behind behind' rest rest' := by
  obtain ⟨⟨more, whole, items, ends⟩, rfl⟩ := readExpression_ok_iff.1 ok
  obtain ⟨front, split, split', escape⟩ := id beside
  rw [remaining_skip, remaining, whole, length_append, Nat.add_sub_cancel_left] at inside
  obtain ⟨middle, rfl, rfl⟩ :=
    split_front (whole.symm.trans split) (inside.elim Nat.le_of_lt And.left)
  refine ⟨cursor'.skip text.length, readExpression_ok_iff.2 ⟨⟨middle ++ behind', ?_, ?_, ?_⟩, rfl⟩,
    beside.skip text.length ?_⟩
  · rw [split', append_assoc]
  · refine items.behind fun nothing last => ?_
    obtain ⟨rfl, rfl⟩ := append_eq_nil_iff.1 nothing
    rw [append_nil] at escape
    rw [escape rfl last]
    rfl
  · cases middle with
    | nil =>
      obtain ⟨-, seam, lineEnds⟩ := inside.resolve_left (Nat.lt_irrefl _)
      exact fun c first => contains_iff_mem.1 (lineEnds c (seam.right c first))
    | cons c middle => exact ends
  · rw [remaining, split, length_append, length_append]
    omega

lemma readString {rest} (ok : cursor.readString = .ok (value, rest))
    (begun : behind.length < cursor.remaining)
    (inside : value = none ∨ behind.length ≤ rest.remaining) :
    ∃ rest', cursor'.readString = .ok (value, rest') ∧ Beside behind behind' rest rest' := by
  obtain ⟨front, split, split', escape⟩ := id beside
  cases front with
  | nil =>
    rw [remaining, split] at begun
    exact absurd begun (Nat.lt_irrefl _)
  | cons quote more =>
    rw [cons_append] at split split'
    unfold Cursor.readString at ok ⊢
    rw [split] at ok
    rw [split']
    dsimp only at ok ⊢
    split at ok
    · rename_i isQuote
      rw [if_pos isQuote]
      cases closed : quotedBody quote (more ++ behind) with
      | none =>
        rw [closed] at ok
        cases ok
      | some found =>
        obtain ⟨inner, length⟩ := found
        rw [closed] at ok
        cases ok
        replace inside := inside.resolve_left (by simp)
        rw [remaining_skip, remaining, split, length_cons, length_append] at inside
        obtain ⟨body, tail, parts, quoted, rfl⟩ := quoted_of_quotedBody (quote_plain isQuote) closed
        have lengths := congrArg length parts
        simp only [length_append] at lengths
        obtain ⟨middle, rfl, rfl⟩ := split_front parts.symm (by omega)
        obtain ⟨found, read⟩ := quotedBody_quoted quoted (quote_plain isQuote)
        rw [append_assoc, read] at closed ⊢
        cases closed
        refine ⟨_, rfl, beside.skip (body.length + 1) ?_⟩
        rw [remaining, split, length_cons, length_append]
        omega
    · rename_i noQuote
      rw [if_neg noQuote]
      cases ok
      exact ⟨cursor', rfl, beside⟩

end Beside

open Token

/-- Texts that are the same up to a seam correspond, as far as they are read in front of it. -/
def Seam.correspondence {behind behind' : List Char} (seam : Seam behind behind') : Correspondence where
  words := .same
  cursors := Beside behind behind'
  positions := fun _ _ => True
  bound := some behind.length
  place := fun _ => trivial
  step := by
    intro cursor cursor' beside
    rcases beside.cases with ⟨here, here'⟩ | ⟨c, more, more', here, here', next⟩
    · left
      rw [atLineEnd_iff, atLineEnd_iff, here, here']
      exact ⟨seam.left, seam.right⟩
    · cases isEnd : Text.isLineEnd c with
      | true =>
        left
        rw [atLineEnd_iff, atLineEnd_iff, here, here']
        simp [isEnd]
      | false =>
        refine .inr ⟨c, isEnd, ?_, ?_, next⟩
        · rw [peek, here]
          rfl
        · rw [peek, here']
          rfl
  shorter := fun beside further => beside.shorter_iff further
  upTo := fun beside further _ => beside.upTo further
  gap := fun keep beside _ leaves => (beside.readWhile_inside keep (leaves _ rfl)).2
  line := by
    intro cursor cursor' breaks beside carriage feed counts
    obtain ⟨⟨text, rest⟩, success, room⟩ := counts _ rfl
    have ends : ∀ c, Text.isLineEnd c = true → breaks.contains c = true := fun c isEnd => by
      simpa using line_end_stops (fun c => !breaks.contains c) (by rw [feed]; rfl)
        (by rw [carriage]; rfl) c isEnd
    obtain ⟨rest', read', further⟩ := beside.readExpression (readBalanced_ok success) (.inr ⟨room, seam, ends⟩)
    rw [success, readBalanced, read']
    exact .ok ⟨rfl, further⟩
  value := by
    intro cursor cursor' beside counts
    obtain ⟨⟨text, rest⟩, success, room⟩ := counts _ rfl
    obtain ⟨rest', read', further⟩ := beside.readExpression (readBalanced_ok success) (.inl room)
    rw [success, readBalanced, read']
    exact .ok ⟨rfl, further⟩
  string := by
    intro cursor cursor' beside leaves counts
    obtain ⟨⟨value, rest⟩, success, room⟩ := counts _ rfl
    obtain ⟨rest', read', further⟩ := beside.readString (ok_of_mapError success) (leaves _ rfl) (.inr room)
    rw [success, read']
    exact .ok ⟨Option.map_id_apply.symm, further⟩

lemma Beside.skipSpacing {cursor'} (beside : Beside behind behind' cursor cursor')
    (seam : Seam behind behind') : Beside behind behind' cursor.skipSpacing cursor'.skipSpacing :=
  seam.correspondence.skipSpacing beside

end Cursor

namespace Token

open Cursor

/-- What may follow behind a header, without its place. -/
def Tail.unplaced : Tail → Tail
  | .chain => .chain
  | .nothing => .nothing
  | .block raw _ => .block raw .start

/-- What a header says apart from positions. -/
def Header.view (header : Header) : List TokenKind × Tail :=
  (header.tokens.map Token.kind, header.tail.unplaced)

lemma Header.view_same {pairing : Pairing} (words : pairing.words = .same) {header'}
    (paired : pairing.Headers header header') : header'.view = header.view := by
  refine Prod.ext ?_ ?_
  · have kinds : List.Forall₂ Eq (header.tokens.map kind) (header'.tokens.map kind) := by
      rw [forall₂_map_left_iff, forall₂_map_right_iff]
      refine paired.tokens.imp fun token token' same => ?_
      rw [same.kind, words]
      exact (TokenKind.reword_same (fun _ => String.ofList_toList) _).symm
    rw [forall₂_eq_eq_eq] at kinds
    exact kinds.symm
  · obtain ⟨tokens, tail, rest⟩ := header
    obtain ⟨tokens', tail', rest'⟩ := header'
    cases paired.tail <;> rfl

lemma headSegments_repeats (seam : Seam behind behind') {cursor'}
    (beside : Beside behind behind' cursor cursor') (going : cursor.atLineEnd = false)
    (read : headSegments cursor = .ok header) (inside : behind.length ≤ header.rest.remaining) :
    ∃ header', headSegments cursor' = .ok header' ∧ header'.view = header.view ∧
      Beside behind behind' header.rest header'.rest := by
  have matched := seam.correspondence.headSegments beside going
  rw [read] at matched
  generalize headSegments cursor' = result' at matched ⊢
  cases matched (by rintro least ⟨⟩; exact ⟨header, rfl, inside⟩) with
  | ok paired => exact ⟨_, rfl, Header.view_same rfl paired, paired.rest⟩

end Token

end PugTemplate
