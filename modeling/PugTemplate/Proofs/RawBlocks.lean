import Mathlib.Order.Bounds.Defs
import PugTemplate.Proofs.Blocks

/-!
# The lines of a raw block

A raw block takes as many lines as it can: all of them deeper than its header or blank, and the last one
not blank. What is read behind it is the next line.
-/

namespace PugTemplate.Token

open Cursor Text List

/-- The lines of a text at the end of a line, each behind the end of the line before it. -/
inductive Follow : List Char → List PhysicalLine → Prop
  | nil : Follow [] []
  | cons {ending line rest lines} (isEnd : LineEnd ending (line ++ rest))
      (noEnds : ∀ c ∈ line, isLineEnd c = false) (later : Follow rest lines) :
      Follow (ending ++ (line ++ rest)) (⟨ending.length, line⟩ :: lines)

/-- The first `count` lines can be a block. -/
structure IsBlock (width : Nat) (lines : List PhysicalLine) (count : Nat) : Prop where
  within : count ≤ lines.length
  deeper : ∀ line ∈ lines.take count, line.isBlank = false → width < line.indentation
  last : ∃ line ∈ (lines.take count).getLast?, line.isBlank = false

/-- Lines without the first `least` characters of those that are not blank. -/
def stripped (least : Nat) (lines : List PhysicalLine) : String :=
  String.ofList (['\n'].intercalate
    (lines.map fun line => if line.isBlank then [] else line.text.drop least))

def PhysicalLine.shift (margin : List Char) (line : PhysicalLine) : PhysicalLine :=
  if line.isBlank then line else line.inset margin

variable {text margin : List Char} {cursor : Cursor} {lines : List PhysicalLine} {width count least : Nat}

namespace Follow

lemma lineEnded (follow : Follow text lines) : LineEnded text := by
  cases follow with
  | nil => exact .nil
  | cons isEnd => exact isEnd.lineEnded

lemma followingLines (follow : Follow text lines) : followingLines text = lines := by
  induction follow with
  | nil => rw [Token.followingLines]
  | cons isEnd noEnds later ih => rw [isEnd.followingLines noEnds later.lineEnded, ih]

lemma of_lineEnded (ended : LineEnded text) : Follow text (Token.followingLines text) := by
  induction text, ended using lines_induction with
  | nil =>
    rw [Token.followingLines]
    exact .nil
  | cons ending line rest isEnd noEnds later ih =>
    rw [isEnd.followingLines noEnds later]
    exact .cons isEnd noEnds ih

lemma drop (follow : Follow text lines) (count) :
    Follow (text.drop (extent (lines.take count))) (lines.drop count) := by
  induction follow generalizing count with
  | nil => simpa using .nil
  | @cons ending line rest lines isEnd noEnds later ih =>
    cases count with
    | zero => exact .cons isEnd noEnds later
    | succ count =>
      have passed : extent ((⟨ending.length, line⟩ :: lines).take (count + 1)) =
          (ending ++ line).length + extent (lines.take count) := by
        rw [length_append]
        rfl
      rw [passed, ← append_assoc, ← drop_drop, drop_left]
      exact ih count

lemma next (follow : Follow text (line :: lines)) :
    ∃ rest, text.drop (lineEndLength text) = line.text ++ rest ∧ Follow rest lines := by
  cases follow with
  | @cons ending line rest _ isEnd noEnds later =>
    rw [isEnd.length, drop_left]
    exact ⟨rest, rfl, later⟩

end Follow

lemma IsBlock.le_blockLines (block : IsBlock width lines count) : count ≤ (blockLines width lines).length := by
  have deeper : ∀ line ∈ lines.take count, line.isDeeper width := by
    intro line mem
    have deep := block.deeper line mem
    unfold PhysicalLine.isDeeper
    cases blank : line.isBlank with
    | true => rfl
    | false => simpa using deep blank
  obtain ⟨last, isLast, written⟩ := block.last
  have front : (lines.take count).reverse.dropWhile PhysicalLine.isBlank = (lines.take count).reverse := by
    rw [getLast?_eq_head?_reverse] at isLast
    obtain ⟨more, shape⟩ := head?_eq_some_iff.1 (Option.mem_def.1 isLast)
    rw [shape, dropWhile_cons_of_neg (by simp [written])]
  have size : (lines.take count).length = count := by simpa using block.within
  have taken := @takeWhile_append_of_pos _ (PhysicalLine.isDeeper width) _ (lines.drop count) deeper
  rw [take_append_drop] at taken
  rw [blockLines_eq, taken, reverse_append, length_reverse, dropWhile_append]
  split
  · rw [front, length_reverse, size]
  · rw [length_append, length_reverse, size]
    exact Nat.le_add_left _ _

lemma blockLines_take (width lines) : lines.take (blockLines width lines).length = blockLines width lines := by
  obtain ⟨back, split, -⟩ := blockLines_split width lines
  exact (prefix_iff_eq_take.1 ⟨back, split.symm⟩).symm

lemma blockLines_isBlock (some : blockLines width lines ≠ []) :
    IsBlock width lines (blockLines width lines).length := by
  have taken := blockLines_take width lines
  refine ⟨?_, ?_, ?_⟩
  · have size := congrArg length taken
    rw [length_take] at size
    omega
  · intro line mem written
    rw [taken, blockLines_eq, mem_reverse] at mem
    have deep := all_eq_true.1 all_takeWhile line (mem_reverse.1 ((dropWhile_suffix _).subset mem))
    simpa [PhysicalLine.isDeeper, written] using deep
  · rw [taken, blockLines_eq, getLast?_reverse]
    have stopped := head?_dropWhile_not PhysicalLine.isBlank
      (lines.takeWhile (PhysicalLine.isDeeper width)).reverse
    rw [blockLines_eq, Ne, reverse_eq_nil_iff] at some
    obtain ⟨line, more, shape⟩ := exists_cons_of_ne_nil some
    rw [shape] at stopped ⊢
    exact ⟨line, rfl, by simpa using stopped⟩

lemma blockLines_greatest (greatest : IsGreatest {count | IsBlock width lines count} count) :
    blockLines width lines = lines.take count := by
  have least := IsBlock.le_blockLines greatest.1
  have some : blockLines width lines ≠ [] := by
    intro nothing
    obtain ⟨last, isLast, -⟩ := greatest.1.last
    rw [nothing, length_nil, Nat.le_zero] at least
    rw [least] at isLast
    cases isLast
  rw [Nat.le_antisymm least (greatest.2 (blockLines_isBlock some)), blockLines_take]

lemma blockText_stripped (written : ∃ line ∈ lines, line.isBlank = false) :
    ∃ least, IsLeast {indentation | ∃ line ∈ lines, line.isBlank = false ∧
      line.indentation = indentation} least ∧ String.ofList (blockText lines) = stripped least lines := by
  have listed : ∀ line, (line ∈ lines.filter fun line => !line.isBlank) ↔ line ∈ lines ∧ line.isBlank = false := by
    simp
  cases isLeast : ((lines.filter fun line => !line.isBlank).map PhysicalLine.indentation).min? with
  | none =>
    obtain ⟨line, mem, noBlank⟩ := written
    rw [min?_eq_none_iff, map_eq_nil_iff] at isLeast
    have nothing := (listed line).2 ⟨mem, noBlank⟩
    rw [isLeast] at nothing
    cases nothing
  | some least =>
    refine ⟨least, ?_, by rw [blockText, isLeast]; rfl⟩
    obtain ⟨mem, bound⟩ := min?_eq_some_iff.1 isLeast
    obtain ⟨line, isLine, same⟩ := mem_map.1 mem
    obtain ⟨isLine, noBlank⟩ := (listed line).1 isLine
    refine ⟨⟨line, isLine, noBlank, same⟩, ?_⟩
    rintro _ ⟨other, isOther, otherWritten, rfl⟩
    exact bound _ (mem_map_of_mem ((listed other).2 ⟨isOther, otherWritten⟩))

section Shift

variable (spacing : ∀ c ∈ margin, isSpacing c)

include spacing

lemma PhysicalLine.isBlank_shift (line : PhysicalLine) : (line.shift margin).isBlank = line.isBlank := by
  unfold shift
  split
  · rfl
  · exact line.isBlank_inset spacing

lemma blockLines_shift (block : blockLines width lines = lines) :
    blockLines width (lines.map (PhysicalLine.shift margin)) = lines.map (PhysicalLine.shift margin) := by
  have all : lines.takeWhile (PhysicalLine.isDeeper width) = lines := by
    have size := congrArg length block
    rw [blockLines_eq, length_reverse] at size
    have least := size.symm.trans_le (dropWhile_suffix _).length_le
    rw [length_reverse] at least
    exact ( takeWhile_prefix _).eq_of_length_le least
  have blank : PhysicalLine.isBlank ∘ PhysicalLine.shift margin = PhysicalLine.isBlank :=
    funext (PhysicalLine.isBlank_shift spacing)
  have deeper : lines.takeWhile (PhysicalLine.isDeeper width ∘ PhysicalLine.shift margin) = lines := by
    rw [takeWhile_eq_self_iff] at all ⊢
    intro line mem
    have deep := all line mem
    rw [Function.comp_apply, PhysicalLine.shift]
    split
    · exact deep
    · rw [PhysicalLine.isDeeper, line.isBlank_inset spacing, line.indentation_inset spacing]
      simp only [PhysicalLine.isDeeper, Bool.or_eq_true, decide_eq_true_eq] at deep ⊢
      exact deep.imp_right fun deeper => by omega
  rw [blockLines_eq, all] at block
  rw [blockLines_eq, takeWhile_map, deeper, ← map_reverse, dropWhile_map, blank, ← map_reverse, block]

end Shift

/-- A block takes the lines up to the last one that it can, without their least indentation, and leaves the
cursor at the end of that line. It does not change when all its lines are moved to the right. -/
theorem blocks_take_the_deeper_lines (ended : cursor.atLineEnd = true) (width : Nat) :
    let lines := followingLines cursor.rest
    Follow cursor.rest lines ∧ ((∀ count, ¬ IsBlock width lines count) → readBlock width cursor = (none, cursor)) ∧
    ∀ count, IsGreatest {count | IsBlock width lines count} count →
      (∃ least, IsLeast {indentation | ∃ line ∈ lines.take count, line.isBlank = false ∧
          line.indentation = indentation} least ∧
        readBlock width cursor =
          (some (stripped least (lines.take count)), cursor.skip (extent (lines.take count)))) ∧
      Follow (readBlock width cursor).2.rest (lines.drop count) ∧
      (∀ line more, lines.drop count = line :: more → ∃ rest,
        (readBlock width cursor).2.skipLineEnd.rest = line.text ++ rest ∧ Follow rest more) ∧
      ∀ margin cursor', (∀ c ∈ margin, isSpacing c = true) →
        Follow cursor'.rest ((lines.take count).map (PhysicalLine.shift margin) ++ lines.drop count) →
        (readBlock width cursor').1 = (readBlock width cursor).1 := by
  intro lines
  have follow : Follow cursor.rest lines := .of_lineEnded ((atLineEnd_iff cursor).1 ended)
  refine ⟨follow, fun noBlock => ?_, fun count greatest => ?_⟩
  · have nothing : blockLines width lines = [] := by
      by_contra some
      exact noBlock _ (blockLines_isBlock some)
    exact readBlock_eq width cursor nothing
  · have block := blockLines_greatest greatest
    obtain ⟨last, isLast, noBlank⟩ := greatest.1.last
    have lastMem := mem_of_getLast? isLast
    obtain ⟨least, isLeast, text⟩ := blockText_stripped ⟨last, lastMem, noBlank⟩
    have read := readBlock_eq width cursor block
    rw [if_neg (ne_nil_of_mem lastMem), text] at read
    have behind := follow.drop count
    rw [← rest_skip] at behind
    rw [read]
    refine ⟨⟨least, isLeast, rfl⟩, behind, fun line more isNext => ?_, fun margin cursor' spacing follow' => ?_⟩
    · rw [isNext] at behind
      rw [skipLineEnd, rest_skip]
      exact behind.next
    · obtain ⟨back, split, nothing⟩ := blockLines_split width lines
      rw [block] at split
      rw [append_cancel_left (split.symm.trans (take_append_drop count lines).symm)] at nothing
      have alone : blockLines width (lines.take count) = lines.take count := by
        rw [← blockLines_append nothing, take_append_drop, block]
      have block' : blockLines width (followingLines cursor'.rest) =
          (lines.take count).map (PhysicalLine.shift margin) := by
        rw [follow'.followingLines, blockLines_append nothing, blockLines_shift spacing alone]
      have same := blockText_moved spacing (PhysicalLine.isBlank_shift spacing)
        (fun line noBlank => by rw [PhysicalLine.shift, if_neg (by simp [noBlank])]) (lines.take count)
      rw [readBlock_eq width cursor' block', if_neg (by simpa using ne_nil_of_mem lastMem), same, text]

/-- A block of three lines, the second of them blank, in front of a line that is not deeper. -/
theorem inner_blank_line_is_kept :
    IsGreatest {count | IsBlock 1 [⟨1, "   a".toList⟩, ⟨1, []⟩, ⟨1, "  b".toList⟩, ⟨1, " c".toList⟩] count} 3 ∧
      Follow (readBlock 1 ⟨"\n   a\n\n  b\n c".toList, .start⟩).2.rest [⟨1, " c".toList⟩] := by
  have plain : ∀ line : List Char, (line.all fun c => !isLineEnd c) = true → ∀ c ∈ line, isLineEnd c = false :=
    fun line all c mem => by simpa using all_eq_true.1 all c mem
  have final : Follow "\n c".toList [⟨1, " c".toList⟩] := @Follow.cons _ " c".toList _ _ .feed (plain _ rfl) .nil
  have follow : Follow "\n   a\n\n  b\n c".toList
      [⟨1, "   a".toList⟩, ⟨1, []⟩, ⟨1, "  b".toList⟩, ⟨1, " c".toList⟩] :=
    @Follow.cons _ "   a".toList _ _ .feed (plain _ rfl)
      (@Follow.cons _ [] _ _ .feed (by simp) (@Follow.cons _ "  b".toList _ _ .feed (plain _ rfl) final))
  have greatest : IsGreatest {count | IsBlock 1 [⟨1, "   a".toList⟩, ⟨1, []⟩, ⟨1, "  b".toList⟩,
      ⟨1, " c".toList⟩] count} 3 :=
    ⟨⟨by decide, by decide, by decide⟩, fun _ block => block.le_blockLines⟩
  have taken := @blocks_take_the_deeper_lines ⟨"\n   a\n\n  b\n c".toList, .start⟩ rfl 1
  rw [follow.followingLines] at taken
  exact ⟨greatest, (taken.2.2 3 greatest).2.1⟩

end PugTemplate.Token
