import PugTemplate.Proofs.Rows

/-!
# Raw blocks in another place

A raw block is made of whole lines, and its text is what is left of them without their common
indentation. So a block keeps its text when all lines are moved to the right, and it does not change
with what stands behind it, as long as that is not part of it.
-/

namespace PugTemplate.Token

open Cursor Text List

section Lists

variable {width : Nat} {lines more : List PhysicalLine}

/-- Whether a line can be part of a block. -/
def PhysicalLine.isDeeper (width : Nat) (line : PhysicalLine) : Bool :=
  line.isBlank || width < line.indentation

lemma blockLines_eq : blockLines width lines =
    ((lines.takeWhile (PhysicalLine.isDeeper width)).reverse.dropWhile PhysicalLine.isBlank).reverse :=
  rfl

lemma blockLines_append (nothing : blockLines width more = []) :
    blockLines width (lines ++ more) = blockLines width lines := by
  rw [blockLines_eq, blockLines_eq, takeWhile_append]
  split
  · rename_i whole
    have blank : ∀ line ∈ (more.takeWhile (PhysicalLine.isDeeper width)).reverse,
        line.isBlank = true := fun line mem =>
      blockLines_eq_nil_iff.1 nothing line (mem_reverse.1 mem)
    rw [reverse_append, dropWhile_append_of_pos blank, ( takeWhile_prefix _).eq_of_length whole]
  · rfl

lemma blockLines_stopped (stops : (lines.takeWhile (PhysicalLine.isDeeper width)).length ≠ lines.length) :
    blockLines width (lines ++ more) = blockLines width lines := by
  rw [blockLines_eq, blockLines_eq, takeWhile_append, if_neg stops]

lemma blockLines_within (within : (blockLines width (lines ++ more)).length ≤ lines.length)
    (whole : (lines.takeWhile (PhysicalLine.isDeeper width)).length = lines.length) :
    blockLines width more = [] := by
  rw [blockLines_eq, takeWhile_append, if_pos whole, reverse_append, length_reverse, dropWhile_append] at within
  split at within
  · rename_i nothing
    rw [blockLines_eq, isEmpty_iff.1 nothing]
    rfl
  · rename_i something
    rw [length_append, length_reverse] at within
    have positive := length_pos_iff.2 (mt isEmpty_iff.2 something)
    omega

def extent : List PhysicalLine → Nat
  | [] => 0
  | line :: more => line.length + extent more

lemma extent_eq_foldl : lines.foldl (fun total line => total + line.length) total = total + extent lines := by
  induction lines generalizing total with
  | nil => rfl
  | cons line rest ih =>
    rw [foldl_cons, ih, extent, Nat.add_assoc]

lemma readBlock_eq (width cursor) {lines}
    (block : blockLines width (followingLines cursor.rest) = lines) : readBlock width cursor =
      (if lines = [] then none else some (String.ofList (blockText lines)), cursor.skip (extent lines)) := by
  unfold readBlock
  rw [block]
  cases lines with
  | nil => rfl
  | cons line rest =>
    dsimp only
    rw [extent_eq_foldl, Nat.zero_add]
    rfl

end Lists

section Moved

variable {margin : List Char} (spacing : ∀ c ∈ margin, isSpacing c)

def PhysicalLine.inset (margin : List Char) (line : PhysicalLine) : PhysicalLine :=
  ⟨line.lead, margin ++ line.text⟩

include spacing

lemma PhysicalLine.isBlank_inset (line : PhysicalLine) : (line.inset margin).isBlank = line.isBlank := by
  rw [isBlank, isBlank, inset, all_append, all_eq_true.2 fun c mem => spacing_blank (spacing c mem), Bool.true_and]

lemma PhysicalLine.indentation_inset (line : PhysicalLine) :
    (line.inset margin).indentation = margin.length + line.indentation := by
  rw [indentation, indentation, inset, takeWhile_append_of_pos spacing, length_append]

lemma PhysicalLine.isDeeper_inset (width) (line : PhysicalLine) :
    (line.inset margin).isDeeper (margin.length + width) = line.isDeeper width := by
  rw [isDeeper, isDeeper, isBlank_inset spacing, indentation_inset spacing]
  simp

lemma blockLines_inset (width lines) : blockLines (margin.length + width) (lines.map (PhysicalLine.inset margin)) =
      (blockLines width lines).map (PhysicalLine.inset margin) := by
  have deeper : PhysicalLine.isDeeper (margin.length + width) ∘ PhysicalLine.inset margin =
      PhysicalLine.isDeeper width := funext (PhysicalLine.isDeeper_inset spacing width)
  have blank : PhysicalLine.isBlank ∘ PhysicalLine.inset margin = PhysicalLine.isBlank :=
    funext (PhysicalLine.isBlank_inset spacing)
  rw [blockLines_eq, blockLines_eq, takeWhile_map, deeper, ← map_reverse, dropWhile_map, blank, map_reverse]

lemma min_inset {lines : List PhysicalLine}
    (isLeast : (lines.map PhysicalLine.indentation).min? = some least) :
    ((lines.map (PhysicalLine.inset margin)).map PhysicalLine.indentation).min? = some (margin.length + least) := by
  rw [min?_eq_some_iff] at isLeast ⊢
  have moved : (lines.map (PhysicalLine.inset margin)).map PhysicalLine.indentation =
      (lines.map PhysicalLine.indentation).map (margin.length + ·) := by
    rw [map_map, map_map]
    exact map_congr_left fun line _ => line.indentation_inset spacing
  rw [moved]
  refine ⟨mem_map_of_mem isLeast.1, ?_⟩
  intro other mem
  obtain ⟨original, found, rfl⟩ := mem_map.1 mem
  exact Nat.add_le_add_left (isLeast.2 original found) _

lemma blockText_moved (blank : ∀ line, (move line).isBlank = line.isBlank)
    (moved : ∀ line, line.isBlank = false → move line = line.inset margin)
    (lines) : blockText (lines.map move) = blockText lines := by
  unfold blockText
  dsimp only
  congr 1
  have isWritten : (fun line : PhysicalLine => !line.isBlank) ∘ move = fun line => !line.isBlank :=
    funext fun line => congrArg not (blank line)
  have written : (lines.filter fun line => !line.isBlank).map move =
      (lines.filter fun line => !line.isBlank).map (PhysicalLine.inset margin) :=
    map_congr_left fun line mem => moved line (by simpa using (mem_filter.1 mem).2)
  rw [filter_map, isWritten, written, map_map]
  apply map_congr_left
  intro line mem
  rw [Function.comp_apply, blank]
  split
  · rfl
  · rename_i noBlank
    rw [moved line (Bool.eq_false_iff.2 noBlank)]
    have listed : line ∈ lines.filter fun line => !line.isBlank := mem_filter.2 ⟨mem, by simpa using noBlank⟩
    cases isLeast : ((lines.filter fun line => !line.isBlank).map PhysicalLine.indentation).min? with
    | none =>
      rw [min?_eq_none_iff, map_eq_nil_iff] at isLeast
      rw [isLeast] at listed
      cases listed
    | some least =>
      rw [min_inset spacing isLeast]
      simp only [Option.getD_some, PhysicalLine.inset]
      rw [← drop_drop, drop_left]

lemma blockText_inset (lines) : blockText (lines.map (PhysicalLine.inset margin)) = blockText lines :=
  blockText_moved spacing (PhysicalLine.isBlank_inset spacing) (fun _ _ => rfl) lines

end Moved

/-- The end of a line in front of `next`: the line feed behind a carriage return belongs to it. -/
inductive LineEnd : List Char → List Char → Prop
  | pair {next} : LineEnd ['\r', '\n'] next
  | feed {next} : LineEnd ['\n'] next
  | carriage {next} (alone : next.head? ≠ some '\n') : LineEnd ['\r'] next

namespace LineEnd

variable {ending next : List Char} (isEnd : LineEnd ending next)

include isEnd

lemma length : lineEndLength (ending ++ next) = ending.length := by
  cases isEnd with
  | pair | feed => rfl
  | carriage alone =>
    cases next with
    | nil => rfl
    | cons c rest =>
      have other : c ≠ '\n' := fun same => alone (by rw [same]; rfl)
      unfold lineEndLength
      split
      · rename_i same
        cases same
        exact absurd rfl other
      · rfl
      · rfl
      · rename_i noEnd
        exact absurd rfl (noEnd (c :: rest))

lemma blankLines : BlankLines ending := by
  cases isEnd with
  | pair => exact .cons (.cons .nil (.inl rfl)) (.inl rfl)
  | feed | carriage => exact .cons .nil (.inl rfl)

lemma lineEnded : LineEnded (ending ++ next) := by
  intro c first
  cases isEnd with
  | pair | feed | carriage => cases first; rfl

lemma written : ending ≠ [] := by
  cases isEnd <;> simp

end LineEnd

variable {text line : List Char}

lemma exists_lineEnd (ended : LineEnded text) (going : text ≠ []) :
    ∃ ending next, text = ending ++ next ∧ LineEnd ending next := by
  obtain ⟨c, body, rfl⟩ := exists_cons_of_ne_nil going
  have isEnd := ended c rfl
  rcases isLineEnd_iff.1 isEnd with rfl | rfl
  · exact ⟨['\n'], body, rfl, .feed⟩
  · by_cases alone : body.head? = some '\n'
    · obtain ⟨next, rfl⟩ := head?_eq_some_iff.1 alone
      exact ⟨['\r', '\n'], next, rfl, .pair⟩
    · exact ⟨['\r'], body, rfl, .carriage alone⟩

lemma line_split (text) : ∃ line rest, text = line ++ rest ∧
    (∀ c ∈ line, isLineEnd c = false) ∧ LineEnded rest := by
  refine ⟨text.takeWhile fun c => !isLineEnd c, text.dropWhile fun c => !isLineEnd c,
    takeWhile_append_dropWhile.symm, ?_, ?_⟩
  · intro c mem
    simpa using all_eq_true.1 all_takeWhile c mem
  · intro c first
    have stopped := head?_dropWhile_not (fun c => !isLineEnd c) text
    rw [Option.mem_def.1 first] at stopped
    simpa using stopped

/-- A text at the end of a line is a sequence of lines, each behind the end of the one before. -/
theorem lines_induction {motive : (text : List Char) → LineEnded text → Prop} (nil : motive [] .nil)
    (cons : ∀ (ending line rest : List Char) (isEnd : LineEnd ending (line ++ rest)),
      (∀ c ∈ line, isLineEnd c = false) → ∀ later : LineEnded rest, motive rest later →
      motive (ending ++ (line ++ rest)) isEnd.lineEnded) (text) (ended : LineEnded text) :
    motive text ended := by
  induction size : text.length using Nat.strongRecOn generalizing text with
  | ind size ih =>
    subst size
    by_cases going : text = []
    · subst going
      exact nil
    · obtain ⟨ending, next, rfl, isEnd⟩ := exists_lineEnd ended going
      obtain ⟨line, rest, rfl, noEnds, further⟩ := line_split next
      refine cons ending line rest isEnd noEnds further (ih rest.length ?_ rest further rfl)
      have written := length_pos_iff.2 isEnd.written
      simp only [length_append]
      omega

lemma BlankLines.behind (areBlank : ∀ c ∈ blanks, isSpacing c ∨ isLineEnd c)
    (blank : BlankLines text) (going : text ≠ []) : BlankLines (blanks ++ text) := by
  refine ⟨?_, ?_⟩
  · intro c mem
    exact (mem_append.1 mem).elim (areBlank c) (blank.blank c)
  · intro c last
    rw [getLast?_append_of_ne_nil _ going] at last
    exact blank.whole c last

lemma nextRow_blanks {rest} (areBlank : ∀ c ∈ blanks, isSpacing c ∨ isLineEnd c)
    (ended : LineEnded rest) : nextRow (blanks ++ rest) = nextRow rest := by
  by_cases going : rest = []
  · rw [going, append_nil]
    exact nextRow_blank areBlank
  · obtain ⟨ending, next, rfl, isEnd⟩ := exists_lineEnd ended going
    rw [← append_assoc, (BlankLines.behind areBlank isEnd.blankLines isEnd.written).nextRow,
      isEnd.blankLines.nextRow]

lemma takeWhile_line {rest} (noEnds : ∀ c ∈ line, isLineEnd c = false)
    (ended : LineEnded rest) : (line ++ rest).takeWhile (fun c => !isLineEnd c) = line ∧
      (line ++ rest).dropWhile (fun c => !isLineEnd c) = rest := by
  have taken : (line ++ rest).takeWhile (fun c => !isLineEnd c) = line := by
    rw [ended.takeWhile_append (by simp), takeWhile_eq_self_iff]
    intro c mem
    simp [noEnds c mem]
  refine ⟨taken, ?_⟩
  have parts := @takeWhile_append_dropWhile _ (fun c => !isLineEnd c) (line ++ rest)
  rw [taken] at parts
  exact append_cancel_left parts

lemma LineEnd.followingLines {rest} (isEnd : LineEnd ending (line ++ rest))
    (noEnds : ∀ c ∈ line, isLineEnd c = false) (ended : LineEnded rest) :
    followingLines (ending ++ (line ++ rest)) = ⟨ending.length, line⟩ :: followingLines rest := by
  rw [followingLines_cons rfl isEnd.length isEnd.written, (takeWhile_line noEnds ended).1,
    (takeWhile_line noEnds ended).2]

lemma spacing_split (written : ¬ ∀ c ∈ line, isSpacing c) :
    ∃ spaces c more, line = spaces ++ c :: more ∧ (∀ space ∈ spaces, isSpacing space) ∧ isSpacing c = false := by
  induction line with
  | nil => exact absurd (by simp) written
  | cons c rest ih =>
    cases spacing : isSpacing c with
    | false => exact ⟨[], c, rest, rfl, by simp, spacing⟩
    | true =>
      obtain ⟨spaces, d, more, rfl, areSpaces, noSpacing⟩ := ih fun all =>
        written fun d mem => (mem_cons.1 mem).elim (fun same => same ▸ spacing) (all d)
      refine ⟨c :: spaces, d, more, rfl, ?_, noSpacing⟩
      exact fun space mem =>
        (mem_cons.1 mem).elim (fun same => same ▸ spacing) (areSpaces space)

lemma takeWhile_spaces (spacing : ∀ space ∈ spaces, isSpacing space)
    (noSpacing : isSpacing c = false) : (spaces ++ c :: more).takeWhile isSpacing = spaces := by
  rw [takeWhile_append_of_pos spacing, takeWhile_cons_of_neg (by simp [noSpacing]), append_nil]

/-- A row that no block in front of it can take in: it is not deeper, and not made of blanks. -/
structure Shallow (width : Nat) (row : List Char) : Prop where
  indentation : (row.takeWhile isSpacing).length ≤ width
  written : ∀ c ∈ (row.dropWhile isSpacing).head?, isBlank c = false

lemma blockLines_cons_nil {width line more}
    (blank : line.isBlank) (nothing : blockLines width more = []) :
    blockLines width (line :: more) = [] := by
  rw [blockLines_eq_nil_iff] at nothing ⊢
  rw [takeWhile_cons_of_pos (by simp [blank])]
  intro other mem
  rcases mem_cons.1 mem with rfl | later
  · exact blank
  · exact nothing other later

lemma blockLines_shallow (ended : LineEnded text)
    (shallow : nextRow text = [] ∨ Shallow width (nextRow text)) :
    blockLines width (followingLines text) = [] := by
  induction text, ended using lines_induction with
  | nil =>
    rw [followingLines]
    rfl
  | cons ending line rest isEnd noEnds later ih =>
    rw [isEnd.blankLines.nextRow] at shallow
    rw [isEnd.followingLines noEnds later]
    by_cases spacing : ∀ c ∈ line, isSpacing c = true
    · rw [nextRow_blanks (fun c mem => .inl (spacing c mem)) later] at shallow
      refine blockLines_cons_nil ?_ (ih shallow)
      exact all_eq_true.2 fun c mem => spacing_blank (spacing c mem)
    · obtain ⟨spaces, c, more, rfl, areSpaces, noSpacing⟩ := spacing_split spacing
      have written : Written ((spaces ++ c :: more) ++ rest) :=
        ⟨spaces, c, more ++ rest, by simp, areSpaces, noSpacing, noEnds c (by simp)⟩
      rw [written.nextRow, append_assoc, cons_append] at shallow
      have row := shallow.resolve_left (by simp)
      have indentation := row.indentation
      have first := row.written
      rw [takeWhile_spaces areSpaces noSpacing] at indentation
      rw [dropWhile_append_of_pos areSpaces, dropWhile_cons_of_neg (by simp [noSpacing])] at first
      rw [blockLines_eq_nil_iff, takeWhile_cons_of_neg]
      · simp
      · have noBlank := first c rfl
        simp only [PhysicalLine.isBlank, PhysicalLine.indentation, takeWhile_spaces areSpaces noSpacing,
          all_append, all_cons, noBlank]
        simpa using indentation

def inset (margin : List Char) : List Char → List Char
  | [] => []
  | c :: rest =>
    if isLineEnd c && !(c == '\r' && rest.head? == some '\n') then
      c :: (margin ++ inset margin rest)
    else
      c :: inset margin rest

section Inset

variable {margin : List Char}

lemma inset_line (noEnds : ∀ c ∈ line, isLineEnd c = false) (rest) :
    inset margin (line ++ rest) = line ++ inset margin rest := by
  induction line with
  | nil => rfl
  | cons c line ih =>
    rw [cons_append, inset, noEnds c mem_cons_self, ih (forall_mem_cons.1 noEnds).2]
    rfl

lemma LineEnd.inset {ending next} (isEnd : LineEnd ending next) :
    inset margin (ending ++ next) = ending ++ (margin ++ inset margin next) := by
  cases isEnd with
  | pair | feed => rfl
  | carriage alone =>
    change (if (true && !(true && next.head? == some '\n')) = true then _ else _) = _
    rw [if_pos (by simpa using alone)]
    rfl

lemma inset_lineEnded (ended : LineEnded text) : LineEnded (inset margin text) := by
  intro c first
  cases text with
  | nil => cases first
  | cons d rest =>
    have same : d = c := by
      unfold inset at first
      split at first
      · exact Option.some.inj first
      · exact Option.some.inj first
    exact ended c (congrArg some same)

lemma LineEnd.of_head {ending next next'} (isEnd : LineEnd ending next)
    (same : next'.head? = some '\n' → ending = ['\r'] → next.head? = some '\n') : LineEnd ending next' := by
  cases isEnd with
  | pair => exact .pair
  | feed => exact .feed
  | carriage alone => exact .carriage fun first => alone (same first rfl)

variable (spacing : ∀ c ∈ margin, isSpacing c)

include spacing

lemma spacing_no_end : ∀ c ∈ margin, Text.isLineEnd c = false := by
  intro c mem
  have isSpacing := spacing c mem
  simp only [Text.isSpacing, Bool.or_eq_true, beq_iff_eq] at isSpacing
  rcases isSpacing with rfl | rfl
  · rfl
  · rfl

lemma followingLines_inset {text tail} (ended : LineEnded text)
    (further : LineEnded tail) (apart : text.getLast? = some '\r' → tail.head? ≠ some '\n') :
    followingLines (inset margin text ++ tail) =
      (followingLines text).map (PhysicalLine.inset margin) ++ followingLines tail := by
  induction text, ended using lines_induction with
  | nil =>
    rw [followingLines]
    rfl
  | cons ending line rest isEnd noEnds later ih =>
    have moved : inset margin (ending ++ (line ++ rest)) ++ tail =
        ending ++ ((margin ++ line) ++ (inset margin rest ++ tail)) := by
      rw [isEnd.inset, inset_line noEnds]
      simp only [append_assoc]
    have plain : ∀ c ∈ margin ++ line, isLineEnd c = false := fun c mem =>
      (mem_append.1 mem).elim (spacing_no_end spacing c) (noEnds c)
    have isEnd' : LineEnd ending ((margin ++ line) ++ (inset margin rest ++ tail)) := by
      refine isEnd.of_head fun first isCarriage => ?_
      -- a line feed at the front comes from the text itself, since the tail is apart
      cases margin with
      | cons c more =>
        have noEnd := spacing_no_end spacing c mem_cons_self
        cases first
        cases noEnd
      | nil =>
        cases line with
        | cons c more => exact first
        | nil =>
          cases rest with
          | nil =>
            subst isCarriage
            exact absurd first (apart rfl)
          | cons c more =>
            unfold inset at first
            split at first
            · exact first
            · exact first
    rw [moved, isEnd'.followingLines plain ((inset_lineEnded later).append further),
      isEnd.followingLines noEnds later, ih]
    · rfl
    · intro last
      apply apart
      rw [getLast?_append, getLast?_append, last]
      rfl

omit spacing in
lemma drop_lines (ended : LineEnded text) (lines : followingLines text = front ++ back) :
    ∃ rest, rest <:+ text ∧ LineEnded rest ∧ followingLines rest = back ∧ text.drop (extent front) = rest ∧
      ∀ margin tail, (inset margin text ++ tail).drop (extent (front.map (PhysicalLine.inset margin))) =
        inset margin rest ++ tail := by
  induction front generalizing text with
  | nil => exact ⟨text, suffix_rfl, ended, lines, rfl, fun margin tail => rfl⟩
  | cons first front ih =>
    have going : text ≠ [] := by
      rintro rfl
      rw [followingLines] at lines
      cases lines
    obtain ⟨ending, next, rfl, isEnd⟩ := exists_lineEnd ended going
    obtain ⟨line, rest, rfl, noEnds, later⟩ := line_split next
    rw [isEnd.followingLines noEnds later] at lines
    obtain ⟨same, others⟩ := cons_eq_cons.1 lines
    obtain ⟨final, suffix, finalEnded, finalLines, dropped, moved⟩ := ih later others
    refine ⟨final, ?_, finalEnded, finalLines, ?_, ?_⟩
    · exact suffix.trans ((suffix_append line rest).trans (suffix_append ending _))
    · have passed : extent (first :: front) = (ending ++ line).length + extent front := by
        rw [← same, length_append]
        rfl
      rw [passed, ← append_assoc, ← drop_drop, drop_left]
      exact dropped
    · intro margin tail
      have passed : extent ((first :: front).map (PhysicalLine.inset margin)) =
          (ending ++ (margin ++ line)).length + extent (front.map (PhysicalLine.inset margin)) := by
        rw [← same, length_append]
        rfl
      have parts : inset margin (ending ++ (line ++ rest)) ++ tail =
          (ending ++ (margin ++ line)) ++ (inset margin rest ++ tail) := by
        rw [isEnd.inset, inset_line noEnds]
        simp only [append_assoc]
      rw [passed, parts, ← drop_drop, drop_left]
      exact moved margin tail

end Inset

lemma inset_nil : inset [] text = text := by
  induction text with
  | nil => rfl
  | cons c rest ih =>
    unfold inset
    rw [ih]
    split
    · rfl
    · rfl

lemma followingLines_append {tail} (ended : LineEnded text) (further : LineEnded tail)
    (apart : text.getLast? = some '\r' → tail.head? ≠ some '\n') :
    followingLines (text ++ tail) = followingLines text ++ followingLines tail := by
  have lines := @followingLines_inset [] (by simp) text tail ended further apart
  rw [inset_nil] at lines
  rw [lines]
  exact congrArg (· ++ _) (map_id _)

lemma extent_followingLines (ended : LineEnded text) : extent (followingLines text) = text.length := by
  induction text, ended using lines_induction with
  | nil =>
    rw [followingLines]
    rfl
  | cons ending line rest isEnd noEnds later ih =>
    rw [isEnd.followingLines noEnds later, extent]
    simp only [PhysicalLine.length, length_append]
    omega

lemma extent_append (lines) : extent (lines ++ more) = extent lines + extent more := by
  induction lines with
  | nil => rw [nil_append, extent, Nat.zero_add]
  | cons line lines ih => rw [cons_append, extent, extent, ih, Nat.add_assoc]

lemma last_lineEnd (going : text ≠ []) (whole : ∀ c ∈ text.getLast?, isLineEnd c) :
    ∃ front ending, text = front ++ ending ∧ (front.getLast? = some '\r' → ending.head? ≠ some '\n') ∧
      ∀ next : List Char, next.head? ≠ some '\n' → LineEnd ending next := by
  obtain ⟨front, c, rfl⟩ := (eq_nil_or_concat text).resolve_left going
  have isEnd := whole c (by simp)
  rcases isLineEnd_iff.1 isEnd with rfl | rfl
  · by_cases paired : front.getLast? = some '\r'
    · obtain ⟨earlier, rfl⟩ := getLast?_eq_some_iff.1 paired
      exact ⟨earlier, ['\r', '\n'], by simp, by simp, fun _ _ => .pair⟩
    · exact ⟨front, ['\n'], by simp, fun same => absurd same paired, fun _ _ => .feed⟩
  · exact ⟨front, ['\r'], by simp, by simp, fun _ alone => .carriage alone⟩

lemma Written.head_ne (written : Written row) (isEnd : isLineEnd c) : row.head? ≠ some c := by
  obtain ⟨spaces, d, more, rfl, spacing, noSpacing, noEnd⟩ := written
  intro first
  cases spaces with
  | nil =>
    cases first
    rw [noEnd] at isEnd
    cases isEnd
  | cons space others =>
    cases first
    rw [spacing_no_end spacing c mem_cons_self] at isEnd
    cases isEnd

lemma Written.first_line (written : Written (line ++ more))
    (noEnds : ∀ c ∈ line, isLineEnd c = false) (ended : LineEnded more) (lead)
    (solid : ∀ c ∈ ((line ++ more).dropWhile isSpacing).head?, isBlank c = false) :
    PhysicalLine.indentation ⟨lead, line⟩ = ((line ++ more).takeWhile isSpacing).length ∧
      PhysicalLine.isBlank ⟨lead, line⟩ = false ∧ line ≠ [] := by
  obtain ⟨spaces, c, others, text, spacing, noSpacing, noEnd⟩ := written
  have within : c ∈ line := by
    have taken := (takeWhile_line noEnds ended).1
    rw [text, takeWhile_append_of_pos, takeWhile_cons_of_pos (by simp [noEnd])] at taken
    · rw [← taken]
      simp
    · intro space mem
      simp [spacing_no_end spacing space mem]
  refine ⟨?_, ?_, ne_nil_of_mem within⟩
  · rw [PhysicalLine.indentation, ended.takeWhile_append]
    intro d isEnd
    rcases isLineEnd_iff.1 isEnd with rfl | rfl
    · rfl
    · rfl
  · have noBlank := solid c (by
      rw [text, dropWhile_append_of_pos spacing, dropWhile_cons_of_neg (by simp [noSpacing])]
      rfl)
    rw [PhysicalLine.isBlank, all_eq_false]
    exact ⟨c, within, by simp [noBlank]⟩

section Replaced

variable {width : Nat} {row row' rest : List Char}

/-- A block in front of a row does not depend on the row that comes, as long as a shallow one takes
the place of a shallow one. -/
theorem blockLines_replaced (ended : LineEnded text) (going : text ≠ [])
    (whole : ∀ c ∈ text.getLast?, isLineEnd c) (written : Written row)
    (solid : ∀ c ∈ (row.dropWhile isSpacing).head?, isBlank c = false)
    (left : (text ++ row).drop (extent (blockLines width (followingLines (text ++ row)))) = rest ++ row)
    (shallow : (row.takeWhile isSpacing).length ≤ width → nextRow row' = [] ∨ Shallow width (nextRow row')) :
    blockLines width (followingLines (text ++ row')) = blockLines width (followingLines (text ++ row)) ∧
      (text ++ row').drop (extent (blockLines width (followingLines (text ++ row)))) = rest ++ row' := by
  obtain ⟨front, ending, rfl, apart, ends⟩ := last_lineEnd going whole
  obtain ⟨line, more, rfl, noEnds, later⟩ := line_split row
  have isEnd := ends (line ++ more) (written.head_ne rfl)
  have frontEnded : LineEnded front := by
    cases front with
    | nil => exact .nil
    | cons c others => exact ended
  have endingEnded : LineEnded ending := by
    have alone := (ends [] (by simp)).lineEnded
    rwa [append_nil] at alone
  have cut : ∀ next, followingLines ((front ++ ending) ++ next) =
      followingLines front ++ followingLines (ending ++ next) := by
    intro next
    have behind : LineEnded (ending ++ next) := by
      cases ending with
      | nil => exact absurd rfl isEnd.written
      | cons c others => exact endingEnded
    rw [append_assoc, followingLines_append frontEnded behind]
    intro last
    rw [head?_append_of_ne_nil _ isEnd.written]
    exact apart last
  obtain ⟨indentation, notBlank, lineWritten⟩ := written.first_line noEnds later ending.length solid
  rw [cut (line ++ more), isEnd.followingLines noEnds later] at left ⊢
  rw [cut row']
  -- the block ends in front of the row, so the lines of `front` hold it
  have holds : ∃ others, followingLines front = blockLines width (followingLines front ++
      ⟨ending.length, line⟩ :: followingLines more) ++ others := by
    obtain ⟨back, split, -⟩ := blockLines_split width
      (followingLines front ++ ⟨ending.length, line⟩ :: followingLines more)
    rcases append_eq_append_iff.1 split with ⟨tail, held, behind⟩ | ⟨others, held, -⟩
    · cases tail with
      | nil => exact ⟨[], by rw [held, append_nil, append_nil]⟩
      | cons first tail =>
        obtain ⟨rfl, -⟩ := cons_eq_cons.1 behind
        have size := congrArg length left
        rw [held, extent_append, extent_followingLines frontEnded] at size
        have positive := length_pos_iff.2 lineWritten
        simp only [extent, PhysicalLine.length, length_drop, length_append] at size
        omega
    · exact ⟨others, held⟩
  obtain ⟨others, held⟩ := holds
  have within : (blockLines width (followingLines front ++
      ⟨ending.length, line⟩ :: followingLines more)).length ≤ (followingLines front).length := by
    have size := congrArg length held
    rw [length_append] at size
    omega
  have same : blockLines width (followingLines front ++ followingLines (ending ++ row')) =
      blockLines width (followingLines front ++ ⟨ending.length, line⟩ :: followingLines more) := by
    by_cases deep : ((followingLines front).takeWhile (PhysicalLine.isDeeper width)).length =
        (followingLines front).length
    · have nothing := blockLines_within within deep
      have narrow := blockLines_written notBlank nothing
      rw [indentation] at narrow
      have blank : BlankLines ending := (ends [] (by simp)).blankLines
      have nothing' : blockLines width (followingLines (ending ++ row')) = [] := by
        refine blockLines_shallow ?_ ?_
        · cases ending with
          | nil => exact absurd rfl isEnd.written
          | cons c others => exact endingEnded
        · rw [blank.nextRow]
          exact shallow narrow
      rw [blockLines_append nothing, blockLines_append nothing']
    · rw [blockLines_stopped deep, blockLines_stopped deep]
  refine ⟨same, ?_⟩
  have short : extent (blockLines width (followingLines front ++
      ⟨ending.length, line⟩ :: followingLines more)) ≤ (front ++ ending).length := by
    have size := congrArg extent held
    rw [extent_followingLines frontEnded, extent_append] at size
    rw [length_append]
    omega
  rw [drop_append_of_le_length short] at left ⊢
  rw [append_cancel_right left]

end Replaced

end PugTemplate.Token
