import PugTemplate.Proofs.Grammar

/-!
# Physical lines

A line that is not blank begins a line of tokens, and its indentation is that line's width. The
position of a cursor names the physical line it stands on. A line that has no block is followed by
no deeper one, and lines that only look blank begin no line of tokens.
-/

namespace PugTemplate

namespace Token

open Cursor Text List

/-- A text that begins a line which is not blank. -/
def Written (text : List Char) : Prop :=
  ∃ spaces c more, text = spaces ++ c :: more ∧ (∀ space ∈ spaces, isSpacing space = true) ∧
    isSpacing c = false ∧ isLineEnd c = false

lemma blankLength_held (text held passed)
    (spacing : ∀ space ∈ held, Text.isSpacing space) : ∃ blank rest, held ++ text = blank ++ rest ∧
      blankLength passed held.length text = passed + blank.length ∧ (rest = [] ∨ Written rest ∧
        (blank = [] ∨ ∃ front e, blank = front ++ [e] ∧ Text.isLineEnd e)) := by
  induction text generalizing held passed with
  | nil =>
    refine ⟨held, [], rfl, rfl, .inl rfl⟩
  | cons c text ih =>
    by_cases isSpacing : Text.isSpacing c = true
    · have longer : ∀ space ∈ held ++ [c], Text.isSpacing space := by
        intro space mem
        rcases mem_append.1 mem with old | new
        · exact spacing space old
        · rw [mem_singleton.1 new]
          exact isSpacing
      have more := ih (held ++ [c]) passed longer
      rw [append_assoc, length_append] at more
      rw [blankLength, if_pos isSpacing]
      exact more
    · by_cases isEnd : Text.isLineEnd c = true
      · obtain ⟨blank, rest, split, length, after⟩ := ih [] (passed + held.length + 1) (by simp)
        refine ⟨held ++ [c] ++ blank, rest, ?_, ?_, ?_⟩
        · rw [nil_append] at split
          simp [split]
        · rw [blankLength, if_neg isSpacing, if_pos isEnd, ← length_nil]
          simp only [length_append, length_singleton]
          omega
        · rcases after with nothing | ⟨written, ending⟩
          · exact .inl nothing
          · refine .inr ⟨written, .inr ?_⟩
            rcases ending with rfl | ⟨front, e, rfl, isLast⟩
            · exact ⟨held, c, by simp, isEnd⟩
            · exact ⟨held ++ [c] ++ front, e, by simp, isLast⟩
      · refine ⟨[], held ++ c :: text, rfl, ?_, ?_⟩
        · rw [blankLength, if_neg isSpacing, if_neg isEnd]
          rfl
        · refine .inr ⟨⟨held, c, text, rfl, spacing, ?_, ?_⟩, .inl rfl⟩
          · exact Bool.eq_false_iff.2 isSpacing
          · exact Bool.eq_false_iff.2 isEnd

lemma blankLength_split (text) :
    ∃ blank rest, text = blank ++ rest ∧ blankLength 0 0 text = blank.length ∧ (rest = [] ∨ Written rest ∧
        (blank = [] ∨ ∃ front e, blank = front ++ [e] ∧ isLineEnd e)) := by
  obtain ⟨blank, rest, split, length, after⟩ := blankLength_held text [] 0 (by simp)
  rw [Nat.zero_add] at length
  exact ⟨blank, rest, split, length, after⟩

lemma blankLength_passed (text passed pending) :
    blankLength passed pending text = passed + blankLength 0 pending text := by
  induction text generalizing passed pending with
  | nil => simp [blankLength]
  | cons c text ih =>
    rw [blankLength, blankLength]
    split
    · rw [ih]
    · split
      · rw [ih, ih (0 + pending + 1)]
        omega
      · rfl

lemma blankLength_spacing (spaces text passed pending)
    (spacing : ∀ space ∈ spaces, isSpacing space) : blankLength passed pending (spaces ++ text) =
      blankLength passed (pending + spaces.length) text := by
  induction spaces generalizing pending with
  | nil => rfl
  | cons space more ih =>
    rw [cons_append, blankLength, if_pos (spacing space mem_cons_self), ih _ (forall_mem_cons.1 spacing).2]
    simp only [length_cons]
    congr 1
    omega

lemma blankLength_ends (text passed pending) (written : ending ≠ [])
    (ends : ∀ c ∈ ending, isLineEnd c) :
    blankLength passed pending (ending ++ text) = blankLength (passed + pending + ending.length) 0 text := by
  induction ending generalizing passed pending with
  | nil => exact absurd rfl written
  | cons c more ih =>
    have isEnd := ends c mem_cons_self
    have noSpacing : ¬ isSpacing c := by
      rcases isLineEnd_iff.1 isEnd with rfl | rfl
      · decide
      · decide
    rw [cons_append, blankLength, if_neg noSpacing, if_pos isEnd]
    cases more with
    | nil => rfl
    | cons other others =>
      rw [ih _ _ (by simp) (forall_mem_cons.1 ends).2]
      simp only [length_cons]
      congr 1
      omega

lemma lineEnd_split {c text} (isEnd : isLineEnd c) :
    ∃ front e next, c :: text = front ++ [e] ++ next ∧ lineEndLength (c :: text) = (front ++ [e]).length ∧
      (∀ d ∈ front ++ [e], isLineEnd d) ∧ (e = '\n' ∨ next.head? ≠ some '\n') := by
  rcases isLineEnd_iff.1 isEnd with rfl | rfl
  · exact ⟨[], '\n', text, rfl, rfl, by simp [isLineEnd], .inl rfl⟩
  · cases text with
    | nil => exact ⟨[], '\r', [], rfl, rfl, by simp [isLineEnd], .inr (by simp)⟩
    | cons d rest =>
      by_cases pair : d = '\n'
      · rw [pair]
        exact ⟨['\r'], '\n', rest, rfl, rfl, by simp [isLineEnd], .inl rfl⟩
      · refine ⟨[], '\r', d :: rest, rfl, ?_, by simp [isLineEnd], .inr (by simpa using pair)⟩
        unfold lineEndLength
        split
        · rename_i same
          cases same
          exact absurd rfl pair
        · rename_i same
          cases same
        · rfl
        · rename_i other
          exact absurd rfl (other (d :: rest))

variable {text : List Char} {c : Char} {cursor : Cursor}

lemma followingLines_cons {ending next} (split : text = ending ++ next)
    (length : lineEndLength text = ending.length) (written : ending ≠ []) : followingLines text =
      ⟨ending.length, next.takeWhile fun c => !isLineEnd c⟩ ::
        followingLines (next.dropWhile fun c => !isLineEnd c) := by
  obtain ⟨c, more, same⟩ := exists_cons_of_ne_nil written
  have shape : text = c :: (more ++ next) := by
    rw [split, same]
    rfl
  have positive : lineEndLength (c :: (more ++ next)) = more.length + 1 := by
    rw [← shape, length, same, length_cons]
  rw [shape, followingLines]
  dsimp only
  rw [positive, if_neg (by simp), Nat.add_sub_cancel, drop_left, drop_takeWhile_length, same, length_cons]

lemma blockLines_blank {lines} (isBlank : line.isBlank)
    (nothing : blockLines width (line :: lines) = []) : blockLines width lines = [] := by
  rw [blockLines_eq_nil_iff, takeWhile_cons_of_pos (by simp [isBlank])] at nothing
  rw [blockLines_eq_nil_iff]
  exact (forall_mem_cons.1 nothing).2

lemma blockLines_written {lines} (written : line.isBlank = false)
    (nothing : blockLines width (line :: lines) = []) : line.indentation ≤ width := by
  by_cases deeper : width < line.indentation
  · rw [blockLines_eq_nil_iff, takeWhile_cons_of_pos (by simp [deeper])] at nothing
    rw [nothing line mem_cons_self] at written
    cases written
  · exact Nat.le_of_not_lt deeper

lemma spacing_blank (spacing : isSpacing c) : isBlank c := by
  simp only [isSpacing, Bool.or_eq_true, beq_iff_eq] at spacing
  rcases spacing with rfl | rfl
  · decide
  · decide

lemma blankLength_written (spacing : ∀ space ∈ spaces, isSpacing space)
    (noSpacing : isSpacing c = false)
    (noEnd : isLineEnd c = false) : blankLength 0 0 (spaces ++ c :: more) = 0 := by
  rw [blankLength_spacing _ _ _ _ spacing, blankLength, if_neg (by simp [noSpacing]), if_neg (by simp [noEnd])]

/-- A line of more than spacing that begins no block is not deeper, or it begins with a character
that begins no segment. -/
theorem written_line_shallow (written : ¬ ∀ d ∈ physical, isSpacing d)
    (noEnd : ∀ d ∈ physical, isLineEnd d = false)
    (nothing : blockLines width (⟨ending, physical⟩ :: following) = []) {after}
    (isLine : line = (physical ++ after).drop (blankLength 0 0 (physical ++ after))) :
    (line.takeWhile isSpacing).length ≤ width ∨ ∃ c ∈ (line.dropWhile isSpacing).head?, isBlank c := by
  obtain ⟨d, more, rest, noSpacing⟩ : ∃ d more, physical.dropWhile isSpacing = d :: more ∧ isSpacing d = false := by
    cases dropped : physical.dropWhile isSpacing with
    | nil => exact absurd (dropWhile_eq_nil_iff.1 dropped) written
    | cons d more =>
      have stopped := head?_dropWhile_not isSpacing physical
      rw [dropped] at stopped
      exact ⟨d, more, rfl, by simpa using stopped⟩
  have whole := @takeWhile_append_dropWhile _ isSpacing physical
  rw [rest] at whole
  have spaces : ∀ space ∈ physical.takeWhile isSpacing, isSpacing space := by
    intro space mem
    exact all_eq_true.1 all_takeWhile space mem
  have inPhysical : d ∈ physical := by
    rw [← whole]
    simp
  have shape : physical ++ after = physical.takeWhile isSpacing ++ d :: (more ++ after) := by
    nth_rewrite 1 [← whole]
    simp
  rw [shape, blankLength_written spaces noSpacing (noEnd d inPhysical), drop_zero] at isLine
  cases isBlank : (PhysicalLine.mk ending physical).isBlank with
  | false =>
    left
    have notDeeper := blockLines_written isBlank nothing
    rw [isLine, takeWhile_append_of_pos spaces, takeWhile_cons_of_neg (by simp [noSpacing]), append_nil]
    exact notDeeper
  | true =>
    right
    refine ⟨d, ?_, all_eq_true.1 isBlank d inPhysical⟩
    rw [isLine, dropWhile_append_of_pos spaces, dropWhile_cons_of_neg (by simp [noSpacing])]
    rfl

lemma no_deeper_line {width} (ended : ∀ c ∈ text.head?, isLineEnd c)
    (nothing : blockLines width (followingLines text) = []) {line}
    (isLine : line = (text.drop (lineEndLength text)).drop
      (blankLength 0 0 (text.drop (lineEndLength text)))) :
    line = [] ∨ (line.takeWhile isSpacing).length ≤ width ∨ ∃ c ∈ (line.dropWhile isSpacing).head?, isBlank c := by
  induction size : text.length using Nat.strongRecOn generalizing text with
  | ind size ih =>
    subst size
    cases text with
    | nil => exact .inl isLine
    | cons c rest =>
      obtain ⟨front, e, next, split, endLength, ends, -⟩ := @lineEnd_split c rest (ended c rfl)
      generalize isEnding : front ++ [e] = ending at split endLength ends
      have written : ending ≠ [] := by simp [← isEnding]
      rw [followingLines_cons split endLength written] at nothing
      rw [endLength, split, drop_left] at isLine
      have noEnd : ∀ d ∈ next.takeWhile (fun c => !isLineEnd c), isLineEnd d = false := by
        intro d mem
        simpa using all_eq_true.1 all_takeWhile d mem
      have parts := @takeWhile_append_dropWhile _ (fun c => !isLineEnd c) next
      have stops := head?_dropWhile_not (fun c => !isLineEnd c) next
      generalize next.takeWhile (fun c => !isLineEnd c) = physical at nothing parts noEnd
      generalize next.dropWhile (fun c => !isLineEnd c) = after at nothing parts stops
      subst parts
      -- a line of spacing alone is blank for the block and for the lexer, and the lines
      -- behind it are asked for again
      by_cases spacing : ∀ d ∈ physical, isSpacing d = true
      · have isBlank : (PhysicalLine.mk ending.length physical).isBlank = true :=
          all_eq_true.2 fun d mem => spacing_blank (spacing d mem)
        have later := blockLines_blank isBlank nothing
        rw [blankLength_spacing _ _ _ _ spacing] at isLine
        cases after with
        | nil =>
          left
          rw [isLine, blankLength]
          simp
        | cons d others =>
          have isEnd : isLineEnd d := by simpa using stops
          obtain ⟨_, _, further, secondSplit, secondLength, secondEnds, -⟩ := @lineEnd_split d others isEnd
          have shorter : (d :: others).length < (c :: rest).length := by
            have total := congrArg length split
            have positive := length_pos_iff.2 written
            simp only [length_append] at total
            omega
          apply ih _ shorter _ later _ rfl
          · intro e first
            cases first
            exact isEnd
          · rw [isLine, secondLength, secondSplit, blankLength_ends _ _ _ (by simp) secondEnds,
              blankLength_passed, drop_left, Nat.zero_add, Nat.zero_add,
              ← append_assoc, ← length_append, ← drop_drop, drop_left]
      · exact .inr (written_line_shallow spacing noEnd nothing isLine)

lemma blank_no_identifier (isBlank : Text.isBlank c) : isIdentifierStart c = false := by
  rw [Bool.eq_false_iff]
  intro starts
  change (decide ('A'.val ≤ c.val ∧ c.val ≤ 'Z'.val) ||
    (decide ('a'.val ≤ c.val) && decide (c.val ≤ 'z'.val)) || c == '_') = true at starts
  simp only [Bool.or_eq_true, Bool.and_eq_true, decide_eq_true_eq, beq_iff_eq, UInt32.le_iff_toNat_le] at starts
  simp only [Text.isBlank, Bool.or_eq_true, Bool.and_eq_true, decide_eq_true_eq, beq_iff_eq] at isBlank
  rcases starts with (⟨low, high⟩ | ⟨low, high⟩) | rfl
  · simp at low high
    omega
  · simp at low high
    omega
  · simp at isBlank

lemma startsWith_peek (first : cursor.peek = some c) (begins : word.toList.head? = some d)
    (different : c ≠ d) : cursor.startsWith word = false := by
  obtain ⟨rest, more⟩ : ∃ rest, cursor.rest = c :: rest := head?_eq_some_iff.1 first
  obtain ⟨others, shape⟩ := head?_eq_some_iff.1 begins
  simp [startsWith, more, shape, isPrefixOf, Ne.symm different]

lemma opening_blank (first : cursor.peek = some c) (isBlank : Text.isBlank c) : opening cursor c = .unknown c := by
  have other : ∀ d : Char, Text.isBlank d = false → c ≠ d := by
    rintro d notBlank rfl
    rw [isBlank] at notBlank
    cases notBlank
  have noWord : ∀ (word : String) (d : Char), word.toList.head? = some d → Text.isBlank d = false →
      cursor.startsWith word = false := fun word d begins notBlank =>
    startsWith_peek first begins (other d notBlank)
  have noStart := blank_no_identifier isBlank
  unfold opening
  rw [noWord "//" '/' rfl (by decide), noWord "!!!" '!' rfl (by decide),
    noWord "#\x7b" '#' rfl (by decide), noWord "#[" '#' rfl (by decide),
    noWord "!\x7b" '!' rfl (by decide)]
  simp [noStart, other '|' (by decide), other '<' (by decide), other ':' (by decide),
    other '+' (by decide), other '-' (by decide), other '=' (by decide), other '!' (by decide),
    other '?' (by decide), other '$' (by decide), other '.' (by decide), other '#' (by decide)]

lemma lexSegments_not_blank (read : lexSegments width cursor = .ok ok)
    (first : cursor.peek = some c) : isBlank c = false := by
  rw [Bool.eq_false_iff]
  intro isBlank
  unfold lexSegments lexSegment at read
  rw [first] at read
  dsimp only at read
  rw [opening_blank first isBlank] at read
  cases read

/-- The lines of a text. The carriage return of a pair is part of the line end that the line feed
completes. -/
def physicalLines : List Char → List (List Char)
  | [] => [[]]
  | c :: rest =>
    if c == '\r' && rest.head? == some '\n' then
      physicalLines rest
    else if isLineEnd c then
      [] :: physicalLines rest
    else
      match physicalLines rest with
      | [] => [[c]]
      | first :: more => (c :: first) :: more

/-- The indentation of a physical line; lines count from one. -/
def physicalWidth (text : List Char) (line : Nat) : Nat :=
  (((physicalLines text).getD (line - 1) []).takeWhile isSpacing).length

lemma physicalLines_cons (text) : ∃ first more, physicalLines text = first :: more ∧
    first.takeWhile isSpacing = text.takeWhile isSpacing := by
  induction text with
  | nil => exact ⟨[], [], rfl, rfl⟩
  | cons c rest ih =>
    obtain ⟨first, more, lines, spacing⟩ := ih
    rw [physicalLines]
    split
    · rename_i pair
      simp only [Bool.and_eq_true, beq_iff_eq] at pair
      obtain ⟨rfl, next⟩ := pair
      obtain ⟨others, shape⟩ := head?_eq_some_iff.1 next
      refine ⟨first, more, lines, ?_⟩
      rw [spacing, shape]
      simp [isSpacing]
    · split
      · rename_i isEnd
        refine ⟨[], _, rfl, ?_⟩
        rcases isLineEnd_iff.1 isEnd with rfl | rfl
        · rfl
        · rfl
      · rw [lines]
        refine ⟨c :: first, more, rfl, ?_⟩
        simp only [takeWhile_cons, spacing]

/-- The position of a cursor names the physical line it stands on. -/
def Tracks (text : List Char) (cursor : Cursor) : Prop :=
  1 ≤ cursor.position.line ∧ ∃ before first more, physicalLines cursor.rest = first :: more ∧
    (physicalLines text).drop (cursor.position.line - 1) = (before ++ first) :: more ∧
    before.length = cursor.position.offset

lemma tracks_start (text) : Tracks text.toList (ofText text) := by
  obtain ⟨first, more, lines, -⟩ := physicalLines_cons text.toList
  exact ⟨Nat.le_refl 1, [], first, more, lines, lines, rfl⟩

lemma Tracks.advance (tracks : Tracks text cursor) : Tracks text cursor.advance := by
  obtain ⟨counted, before, first, more, lines, dropped, offset⟩ := tracks
  obtain ⟨remainder, pos⟩ := cursor
  cases remainder with
  | nil => exact ⟨counted, before, first, more, lines, dropped, offset⟩
  | cons c rest =>
    obtain ⟨next, others, nextLines, -⟩ := physicalLines_cons rest
    change Tracks _ ⟨rest, pos.after c rest⟩
    rw [physicalLines] at lines
    -- a line end leads to the next line, any other character stays on its line
    have nextLine : [] :: physicalLines rest = first :: more →
        pos.after c rest = ⟨pos.line + 1, 0⟩ → Tracks text ⟨rest, pos.after c rest⟩ := by
      intro ended moved
      cases ended
      rw [moved]
      refine ⟨Nat.le_add_left 1 _, [], next, others, nextLines, ?_, rfl⟩
      have further := congrArg (drop 1) dropped
      rw [drop_drop, Nat.sub_add_cancel counted] at further
      rw [Nat.add_sub_cancel, further, drop_one, tail_cons, nextLines, nil_append]
    split at lines
    · rename_i pair
      simp only [Bool.and_eq_true, beq_iff_eq] at pair
      have still : pos.after c rest = pos := by
        simp [Position.after, pair.1, pair.2]
      rw [still]
      exact ⟨counted, before, first, more, lines, dropped, offset⟩
    · rename_i noPair
      split at lines
      · rename_i isEnd
        apply nextLine lines
        rcases isLineEnd_iff.1 isEnd with rfl | rfl
        · rfl
        · have alone : ¬ rest.head? = some '\n' := by simpa using noPair
          simp [Position.after, alone]
      · rename_i noEnd
        simp only [isLineEnd, Bool.or_eq_true, not_or] at noEnd
        rw [nextLines] at lines
        cases lines
        have moved : pos.after c rest = ⟨pos.line, pos.offset + 1⟩ := by
          simp [Position.after, noEnd.1, noEnd.2]
        rw [moved]
        refine ⟨counted, before ++ [c], next, more, nextLines, ?_, ?_⟩
        · rw [append_assoc]
          exact dropped
        · rw [length_append, offset]
          rfl

lemma Tracks.reaches (tracks : Tracks text cursor) (reaches : Reaches cursor later) : Tracks text later := by
  obtain ⟨count, rfl⟩ := reaches
  induction count generalizing cursor with
  | zero => exact tracks
  | succ count ih => exact ih tracks.advance

lemma Tracks.width (tracks : Tracks text cursor) (atStart : cursor.position.offset = 0) :
    physicalWidth text cursor.position.line = (cursor.rest.takeWhile isSpacing).length := by
  obtain ⟨-, before, first, more, lines, dropped, offset⟩ := tracks
  obtain ⟨same, others, again, spacing⟩ := physicalLines_cons cursor.rest
  rw [lines] at again
  cases again
  rw [atStart, length_eq_zero_iff] at offset
  rw [offset] at dropped
  have found : (physicalLines text).getD (cursor.position.line - 1) [] = first := by
    rw [getD_eq_getElem?_getD, ← head?_drop, dropped]
    rfl
  rw [physicalWidth, found, spacing]

lemma offset_behind_end {rest} (text : cursor.rest = front ++ [e] ++ rest)
    (isEnd : isLineEnd e) (single : e = '\n' ∨ rest.head? ≠ some '\n') :
    (cursor.skip (front ++ [e]).length).position.offset = 0 := by
  have here : (cursor.skip front.length).rest = e :: rest := by
    rw [rest_skip, text, append_assoc, drop_left]
    rfl
  rw [length_append, ← skip_skip]
  change (cursor.skip front.length).advance.position.offset = 0
  unfold advance
  rw [here]
  rcases isLineEnd_iff.1 isEnd with rfl | rfl
  · rfl
  · have alone : ¬ rest.head? = some '\n' := by simpa using single
    simp [Position.after, alone]

lemma skipLineEnd_offset (ended : cursor.atLineEnd) :
    cursor.skipLineEnd.position.offset = 0 ∨ cursor.skipLineEnd.rest = [] := by
  rw [atLineEnd_iff] at ended
  cases shape : cursor.rest with
  | nil =>
    right
    simp [skipLineEnd, rest_skip, shape]
  | cons c rest =>
    left
    rw [shape] at ended
    obtain ⟨front, e, next, split, length, ends, single⟩ := @lineEnd_split c rest (ended c rfl)
    rw [skipLineEnd, shape, length]
    rw [split] at shape
    exact offset_behind_end shape (ends e (by simp)) single

lemma skipBlankLines_rest {rest} (split : cursor.rest = blank ++ rest)
    (length : blankLength 0 0 cursor.rest = blank.length) : (skipBlankLines cursor).rest = rest := by
  rw [skipBlankLines, rest_skip, length, split]
  exact drop_left

lemma skipBlankLines_offset (atStart : cursor.position.offset = 0 ∨ cursor.rest = []) :
    (skipBlankLines cursor).position.offset = 0 ∨ (skipBlankLines cursor).rest = [] := by
  obtain ⟨blank, rest, split, length, after⟩ := blankLength_split cursor.rest
  have remainder := skipBlankLines_rest split length
  rcases after with nothing | ⟨⟨spaces, c, more, shape, spacing, -, noEnd⟩, ending⟩
  · right
    rw [remainder]
    exact nothing
  · rcases ending with rfl | ⟨front, e, rfl, isEnd⟩
    · have still : skipBlankLines cursor = cursor := by
        rw [skipBlankLines, length]
        rfl
      rw [still]
      exact atStart
    · left
      rw [skipBlankLines, length]
      apply offset_behind_end split isEnd
      right
      rw [shape]
      cases spaces with
      | nil =>
        rintro ⟨⟩
        cases noEnd
      | cons space others =>
        rintro ⟨⟩
        cases spacing '\n' mem_cons_self

end Token

end PugTemplate
