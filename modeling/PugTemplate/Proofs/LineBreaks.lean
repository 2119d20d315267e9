import PugTemplate.Proofs.Blocks

/-!
# Other ways to end a line

A template may end its lines with a carriage return, or with a carriage return and a line feed, where
another has a line feed alone. A cursor in the one text then corresponds to a cursor at the same
position in the other, and every read takes the one to the other. For this no backslash may stand
directly before a line feed, since it would protect only the first of two characters.
-/

namespace PugTemplate

open Text List

/-- A way to end lines other than by a line feed alone. -/
inductive LineBreak where
  | carriage
  | pair
  deriving DecidableEq, Repr

/-- The same fault in a text whose places have been changed. -/
def Cursor.Imbalance.move (change : Nat → Nat) : Cursor.Imbalance → Cursor.Imbalance
  | stray bracket index => stray bracket (change index)
  | unclosed bracket index => unclosed bracket (change index)
  | unterminated index => unterminated (change index)

variable {c : Char}

namespace LineBreak

open Cursor Token

def chars : LineBreak → List Char
  | carriage => ['\r']
  | pair => ['\r', '\n']

/-- What stands for a character in a text whose lines end in this way. -/
def spell (ending : LineBreak) (c : Char) : List Char :=
  if c = '\n' then ending.chars else [c]

/-- The text with all its line feeds replaced. -/
def translate (ending : LineBreak) (text : List Char) : List Char :=
  text.flatMap ending.spell

/-- Where a place of a text is once the line feeds are replaced. -/
def place (ending : LineBreak) (text : List Char) (index : Nat) : Nat :=
  (ending.translate (text.take index)).length

variable (ending : LineBreak)

lemma spell_feed : ending.spell '\n' = ending.chars := if_pos rfl

lemma spell_plain (plain : c ≠ '\n') : ending.spell c = [c] := if_neg plain

lemma spell_ne_nil (c) : ending.spell c ≠ [] := by
  unfold spell
  split
  · cases ending <;> exact cons_ne_nil _ _
  · exact cons_ne_nil _ _

@[simp] lemma translate_nil : ending.translate [] = [] :=
  rfl

@[simp] lemma translate_cons (c text) :
    ending.translate (c :: text) = ending.spell c ++ ending.translate text :=
  flatMap_cons

@[simp] lemma translate_append (front back) :
    ending.translate (front ++ back) = ending.translate front ++ ending.translate back :=
  flatMap_append

lemma translate_inside (inside : c ≠ '\n') (text) : ending.translate (c :: text) = c :: ending.translate text := by
  rw [translate_cons, ending.spell_plain inside, singleton_append]

variable {text : List Char}

lemma translate_plain (plain : '\n' ∉ text) : ending.translate text = text := by
  induction text with
  | nil => rfl
  | cons c rest ih =>
    rw [mem_cons, not_or] at plain
    rw [ending.translate_inside (Ne.symm plain.1), ih plain.2]

lemma translate_noEnds (noEnds : ∀ c ∈ line, isLineEnd c = false) : ending.translate line = line :=
  ending.translate_plain fun mem => by cases noEnds '\n' mem

lemma translate_eq_nil_iff : ending.translate text = [] ↔ text = [] := by
  cases text with
  | nil => simp
  | cons c rest => simp [spell_ne_nil]

lemma translate_isEmpty (text) : (ending.translate text).isEmpty = text.isEmpty := by
  rw [Bool.eq_iff_iff, List.isEmpty_iff, List.isEmpty_iff]
  exact ending.translate_eq_nil_iff

lemma spell_alike {test : Char → Bool} (alike : test '\r' = test '\n') (c) :
    ∀ d ∈ ending.spell c, test d = test c := by
  intro d mem
  unfold spell at mem
  split at mem
  · rename_i isFeed
    subst isFeed
    cases ending with
    | carriage =>
      rw [mem_singleton.1 mem]
      exact alike
    | pair =>
      rcases mem_pair.1 mem with rfl | rfl
      · exact alike
      · rfl
  · rw [mem_singleton.1 mem]

lemma translate_head_any {test} (alike : test '\r' = test '\n') (text) :
    (ending.translate text).head?.any test = text.head?.any test := by
  cases text with
  | nil => rfl
  | cons c rest =>
    obtain ⟨d, more, shape⟩ := exists_cons_of_ne_nil (ending.spell_ne_nil c)
    rw [translate_cons, shape]
    exact ending.spell_alike alike c d (by simp [shape])

lemma feed_ends : ∀ c ∈ ending.spell '\n', isLineEnd c := ending.spell_alike rfl '\n'

section Runs

variable {spelling : Char → List Char} {keep : Char → Bool} (written : ∀ c, spelling c ≠ [])
  (alike : ∀ c, ∀ d ∈ spelling c, keep d = keep c)

include written alike

lemma takeWhile_flatMap (text : List Char) :
    (text.flatMap spelling).takeWhile keep = (text.takeWhile keep).flatMap spelling := by
  induction text with
  | nil => rfl
  | cons c rest ih =>
    rw [flatMap_cons, takeWhile_cons]
    cases kept : keep c with
    | true =>
      have all : ∀ d ∈ spelling c, keep d := fun d mem => (alike c d mem).trans kept
      rw [takeWhile_append_of_pos all, ih]
      rfl
    | false =>
      obtain ⟨d, more, shape⟩ := exists_cons_of_ne_nil (written c)
      have stopped : keep d = false := (alike c d (by simp [shape])).trans kept
      rw [shape, cons_append, takeWhile_cons_of_neg (by simp [stopped])]
      rfl

lemma dropWhile_flatMap (text : List Char) :
    (text.flatMap spelling).dropWhile keep = (text.dropWhile keep).flatMap spelling := by
  have parts := congrArg (flatMap spelling) (@takeWhile_append_dropWhile _ keep text)
  rw [flatMap_append, ← takeWhile_flatMap written alike] at parts
  apply append_cancel_left
  exact takeWhile_append_dropWhile.trans parts.symm

end Runs

lemma translate_takeWhile {keep} (alike : keep '\r' = keep '\n') (text) :
    (ending.translate text).takeWhile keep = ending.translate (text.takeWhile keep) :=
  takeWhile_flatMap ending.spell_ne_nil (ending.spell_alike alike) text

lemma blank_alike : ∀ c, ∀ d ∈ ending.spell c, isBlank d = isBlank c := ending.spell_alike rfl

lemma translate_trimStart (text) : trimStart (ending.translate text) = ending.translate (trimStart text) :=
  dropWhile_flatMap ending.spell_ne_nil ending.blank_alike text

lemma translate_trimEnd (text : List Char) : trimEnd (ending.translate text) = ending.translate (trimEnd text) := by
  have written : ∀ c, (reverse ∘ ending.spell) c ≠ [] :=
    fun c nothing => ending.spell_ne_nil c (reverse_eq_nil_iff.1 nothing)
  have alike : ∀ c, ∀ d ∈ (reverse ∘ ending.spell) c, isBlank d = isBlank c :=
    fun c d mem => ending.blank_alike c d (mem_reverse.1 mem)
  have twice : reverse ∘ reverse ∘ ending.spell = ending.spell := by
    funext c
    exact reverse_reverse _
  unfold trimEnd translate
  rw [reverse_flatMap, dropWhile_flatMap written alike, reverse_flatMap, twice]

lemma translate_trim (text) : trim (ending.translate text) = ending.translate (trim text) := by
  rw [trim, translate_trimStart, translate_trimEnd, trim]

lemma translate_isPrefixOf {word : List Char} (plain : ∀ c ∈ word, isLineEnd c = false)
    (text) : word.isPrefixOf (ending.translate text) = word.isPrefixOf text := by
  induction word generalizing text with
  | nil => simp
  | cons d more ih =>
    have inside := plain d mem_cons_self
    have later := ih (forall_mem_cons.1 plain).2
    cases text with
    | nil => rfl
    | cons c rest =>
      by_cases isFeed : c = '\n'
      · subst isFeed
        obtain ⟨noFeed, noReturn⟩ := Bool.or_eq_false_iff.1 inside
        cases ending <;> simp [isPrefixOf, spell_feed, chars, noFeed, noReturn]
      · rw [ending.translate_inside isFeed, isPrefixOf, isPrefixOf, later]

lemma translate_length_le (within : later <:+ text) :
    (ending.translate later).length ≤ (ending.translate text).length := by
  obtain ⟨front, rfl⟩ := within
  rw [translate_append, length_append]
  exact Nat.le_add_left _ _

lemma translate_length_lt (within : later <:+ text) :
    (ending.translate later).length < (ending.translate text).length ↔ later.length < text.length := by
  obtain ⟨front, rfl⟩ := within
  have written : 0 < (ending.translate front).length ↔ 0 < front.length := by
    rw [length_pos_iff, length_pos_iff]
    exact not_congr ending.translate_eq_nil_iff
  simp only [translate_append, length_append]
  omega

lemma carriage_head (text) : (carriage.translate text).head? ≠ some '\n' := by
  cases text with
  | nil => simp
  | cons c rest =>
    by_cases isFeed : c = '\n'
    · subst isFeed
      simp [spell_feed, chars]
    · simpa [spell_plain _ isFeed] using isFeed

lemma chars_lineEnd (next) : Token.LineEnd ending.chars (ending.translate next) := by
  cases ending with
  | carriage => exact .carriage (carriage_head next)
  | pair => exact .pair

lemma lineEndLength_inside (inside : isLineEnd c = false) (text) : lineEndLength (c :: text) = 0 := by
  unfold lineEndLength
  split
  iterate 3
    · rename_i same
      cases same
      cases inside
  · rfl

lemma lineEndLength_translate (noReturn : '\r' ∉ text) :
    lineEndLength (ending.translate text) = ending.place text (lineEndLength text) := by
  cases text with
  | nil => rfl
  | cons c rest =>
    by_cases isFeed : c = '\n'
    · subst isFeed
      rw [translate_cons, spell_feed, (ending.chars_lineEnd rest).length]
      change _ = (ending.translate ['\n']).length
      rw [translate_cons, spell_feed, translate_nil, append_nil]
    · have inside : isLineEnd c = false := by
        have other : c ≠ '\r' := fun isReturn => noReturn (isReturn ▸ mem_cons_self)
        simp [isLineEnd, isFeed, other]
      rw [ending.translate_inside isFeed, lineEndLength_inside inside, lineEndLength_inside inside]
      rfl

/-- Blank lines stay blank. `passed` is the text of whole lines and `held` that of the line being
looked at. -/
theorem blankLength_translate (passed held text) (noFeed : '\n' ∉ held) :
    blankLength (ending.translate passed).length held.length (ending.translate text) =
      ending.place (passed ++ (held ++ text)) (blankLength passed.length held.length text) := by
  induction text generalizing passed held with
  | nil =>
    have all : (passed ++ held).take (passed.length + held.length) = passed ++ held :=
      take_of_length_le (Nat.le_of_eq length_append)
    rw [translate_nil, blankLength, blankLength, append_nil, place, all, translate_append,
      ending.translate_plain noFeed, length_append]
  | cons c rest ih =>
    by_cases spacing : isSpacing c = true
    · have plain : c ≠ '\n' := by
        rintro rfl
        cases spacing
      have longer := ih passed (held ++ [c]) (by simp [noFeed, Ne.symm plain])
      rw [length_append, append_assoc] at longer
      rw [ending.translate_inside plain, blankLength, if_pos spacing, blankLength, if_pos spacing]
      exact longer
    · by_cases isEnd : isLineEnd c = true
      · have ends : ∀ d ∈ ending.spell c, isLineEnd d := fun d mem =>
          (ending.spell_alike rfl c d mem).trans isEnd
        have next := ih (passed ++ (held ++ [c])) [] (by simp)
        rw [translate_cons, blankLength_ends _ _ _ (ending.spell_ne_nil c) ends, blankLength,
          if_neg spacing, if_pos isEnd]
        simp only [translate_append, ending.translate_plain noFeed, translate_cons, length_append, append_assoc,
          ← Nat.add_assoc] at next
        exact next
      · have plain : c ≠ '\n' := by
          rintro rfl
          exact isEnd rfl
        rw [ending.translate_inside plain, blankLength, if_neg spacing, if_neg isEnd, blankLength,
          if_neg spacing, if_neg isEnd, place, take_left]

/-- A line with the length that line ends now have. -/
def follow (line : PhysicalLine) : PhysicalLine :=
  ⟨ending.chars.length, line.text⟩

section Following

variable (ended : LineEnded text) (noReturn : '\r' ∉ text)

lemma translate_lineEnded (ended : LineEnded text) : LineEnded (ending.translate text) := by
  intro d first
  have isSame := ending.translate_head_any (show isLineEnd '\r' = isLineEnd '\n' from rfl) text
  rw [Option.mem_def.1 first] at isSame
  cases text with
  | nil => cases first
  | cons c rest => exact isSame.trans (ended c rfl)

lemma feed_of_lineEnd {front next} (isEnd : LineEnd front next)
    (noReturn : '\r' ∉ front ++ next) : front = ['\n'] := by
  cases isEnd with
  | pair => exact absurd mem_cons_self noReturn
  | feed => rfl
  | carriage alone => exact absurd mem_cons_self noReturn

lemma translate_line {rest} (noEnds : ∀ c ∈ line, isLineEnd c = false) :
    ending.translate (['\n'] ++ (line ++ rest)) = ending.chars ++ (line ++ ending.translate rest) := by
  rw [translate_append, translate_append, ending.translate_noEnds noEnds, translate_cons, spell_feed,
    translate_nil, append_nil]

include ended noReturn

lemma followingLines_translate :
    followingLines (ending.translate text) = (followingLines text).map ending.follow := by
  induction text, ended using lines_induction with
  | nil =>
    rw [translate_nil, followingLines]
    rfl
  | cons front line rest isEnd noEnds later ih =>
    have same := feed_of_lineEnd isEnd noReturn
    subst same
    have isEnd' : LineEnd ending.chars (line ++ ending.translate rest) := by
      have moved := ending.chars_lineEnd (line ++ rest)
      rw [translate_append, ending.translate_noEnds noEnds] at moved
      exact moved
    rw [ending.translate_line noEnds, isEnd'.followingLines noEnds (ending.translate_lineEnded later),
      isEnd.followingLines noEnds later, ih fun mem => noReturn (by simp [mem])]
    rfl

lemma place_extent {front back} (lines : followingLines text = front ++ back) :
    ending.place text (extent front) = extent (front.map ending.follow) := by
  induction front generalizing text with
  | nil => rfl
  | cons first front ih =>
    have going : text ≠ [] := by
      rintro rfl
      rw [followingLines] at lines
      cases lines
    obtain ⟨lead, next, rfl, isEnd⟩ := exists_lineEnd ended going
    obtain ⟨line, rest, rfl, noEnds, later⟩ := line_split next
    have same := feed_of_lineEnd isEnd noReturn
    subst same
    rw [isEnd.followingLines noEnds later] at lines
    obtain ⟨here, others⟩ := cons_eq_cons.1 lines
    have further := ih later (fun mem => noReturn (by simp [mem])) others
    have passed : extent (first :: front) = (['\n'] ++ line).length + extent front := by
      rw [← here, length_append]
      rfl
    have taken : (['\n'] ++ (line ++ rest)).take (extent (first :: front)) =
        ['\n'] ++ (line ++ rest.take (extent front)) := by
      rw [passed, ← append_assoc, take_length_add_append, append_assoc]
    rw [place, taken, ending.translate_line noEnds, length_append, length_append,
      ← Nat.add_assoc, map_cons, extent, ← further, ← here]
    rfl

end Following

lemma blockLines_follow (width lines) :
    blockLines width (lines.map ending.follow) = (blockLines width lines).map ending.follow := by
  rw [blockLines_eq, blockLines_eq, takeWhile_map, ← map_reverse, dropWhile_map, map_reverse]
  rfl

lemma blockText_follow (lines) : blockText (lines.map ending.follow) = blockText lines := by
  unfold blockText
  simp only [filter_map, map_map]
  rfl

lemma place_cons (c text count) :
    ending.place (c :: text) (count + 1) = (ending.spell c).length + ending.place text count := by
  rw [place, take_succ_cons, translate_cons, length_append, place]

lemma translate_take (text count) :
    (ending.translate text).take (ending.place text count) = ending.translate (text.take count) := by
  conv_lhs => rw [← take_append_drop count text, translate_append]
  rw [take_append_drop]
  exact take_left

lemma quotedBody_run (plain : ∀ c ∈ front, c ≠ '\\' ∧ ¬ (c == quote)) (text) : quotedBody quote (front ++ text) =
      (quotedBody quote text).map fun found => (front ++ found.1, front.length + found.2) := by
  induction front with
  | nil => simp
  | cons c front ih =>
    obtain ⟨noEscape, inside⟩ := plain c mem_cons_self
    rw [cons_append, quotedBody_plain noEscape inside, ih (forall_mem_cons.1 plain).2, Option.map_map]
    congr 1
    funext found
    simp only [Function.comp_apply, length_cons]
    congr 1
    omega

lemma quotedBody_unescaped {rest : List Char} (notLast : c = '\\' → rest = [] → False)
    (notProtected : ∀ next more, c = '\\' → rest = next :: more → False) : c ≠ '\\' := by
  intro isEscape
  cases rest with
  | nil => exact notLast isEscape rfl
  | cons next more => exact notProtected next more isEscape rfl

lemma quotedBody_protected (text) : quotedBody quote ('\\' :: c :: text) = (quotedBody quote text).map fun found =>
      (if c == quote then c :: found.1 else '\\' :: c :: found.1, found.2 + 2) := by
  rw [quotedBody]

lemma quotedBody_translate (isQuoted : isQuote quote) (text) :
    quotedBody quote (ending.translate text) = (quotedBody quote text).map fun found =>
        (ending.translate found.1, ending.place text found.2) := by
  have noEnd : ∀ c, isLineEnd c = true → c ≠ '\\' ∧ ¬ (c == quote) := by
    intro c isEnd
    simp only [isQuote, Bool.or_eq_true, beq_iff_eq] at isQuoted
    simp only [isLineEnd, Bool.or_eq_true, beq_iff_eq] at isEnd
    rcases isQuoted with rfl | rfl <;> rcases isEnd with rfl | rfl <;> decide
  fun_induction quotedBody quote text with
  | case1 | case2 => rfl
  | case3 c rest ih =>
    have escape : '\\' ≠ '\n' := by decide
    rw [ending.translate_inside escape, Option.map_map]
    by_cases isFeed : c = '\n'
    · subst isFeed
      -- Only the carriage return is protected, and a line feed behind it is part of the string.
      obtain ⟨more, shape⟩ : ∃ more, ending.spell '\n' = '\r' :: more := by
        cases ending with
        | carriage => exact ⟨[], rfl⟩
        | pair => exact ⟨['\n'], rfl⟩
      have inside : ∀ d ∈ more, d ≠ '\\' ∧ ¬ (d == quote) := fun d mem =>
        noEnd d (ending.feed_ends d (by rw [shape]; exact mem_cons_of_mem _ mem))
      rw [translate_cons, shape, cons_append, quotedBody_protected, quotedBody_run inside,
        ih, Option.map_map, Option.map_map]
      congr 1
      funext found
      simp only [Function.comp_apply, if_neg (noEnd '\n' rfl).2, if_neg (noEnd '\r' rfl).2, place_cons,
        ending.spell_plain escape, translate_cons, shape,
        length_cons, length_nil]
      congr 1
      omega
    · rw [ending.translate_inside isFeed, quotedBody_protected, ih, Option.map_map]
      congr 1
      funext found
      simp only [Function.comp_apply, place_cons, ending.spell_plain escape, ending.spell_plain isFeed]
      congr 1
      · split
        · rw [ending.translate_inside isFeed]
        · rw [ending.translate_inside escape, ending.translate_inside isFeed]
      · simp only [length_cons, length_nil]
        omega
  | case4 c rest notLast notProtected isClose =>
    have plain := quotedBody_unescaped notLast notProtected
    have noFeed : c ≠ '\n' := by
      rintro rfl
      exact (noEnd '\n' rfl).2 isClose
    rw [ending.translate_inside noFeed, quotedBody_close plain isClose, Option.map_some, place_cons,
      ending.spell_plain noFeed]
    rfl
  | case5 c rest notLast notProtected notClose ih =>
    have plain := quotedBody_unescaped notLast notProtected
    have inside : ∀ d ∈ ending.spell c, d ≠ '\\' ∧ ¬ (d == quote) := by
      intro d mem
      by_cases isFeed : c = '\n'
      · subst isFeed
        exact noEnd d (ending.feed_ends d mem)
      · rw [ending.spell_plain isFeed] at mem
        rw [mem_singleton.1 mem]
        exact ⟨plain, notClose⟩
    rw [translate_cons, quotedBody_run inside, ih, Option.map_map, Option.map_map]
    congr 1
    funext found
    simp only [Function.comp_apply, place_cons, translate_cons]

lemma balancedFrom_lineEnd {breaks front} (written : front ≠ [])
    (ends : ∀ c ∈ front, isLineEnd c)
    (alike : ∀ c ∈ front, breaks.contains c = breaks.contains '\n')
    (opened index text) : balancedFrom breaks opened 0 index (front ++ text) =
      if opened.isEmpty && breaks.contains '\n' then .ok index
      else balancedFrom breaks opened 0 (index + front.length) text := by
  induction front generalizing index with
  | nil => exact absurd rfl written
  | cons c front ih =>
    have isEnd := ends c mem_cons_self
    rw [cons_append, balancedFrom, alike c mem_cons_self]
    split
    · rfl
    · rename_i goesOn
      have step : balancedFrom breaks opened 0 (index + 1) (front ++ text) =
          balancedFrom breaks opened 0 (index + (c :: front).length) text := by
        by_cases last : front = []
        · rw [last]
          rfl
        · rw [ih last (forall_mem_cons.1 ends).2 (forall_mem_cons.1 alike).2, if_neg goesOn, length_cons,
            Nat.add_right_comm, Nat.add_assoc]
      rcases isLineEnd_iff.1 isEnd with rfl | rfl
      · exact step
      · exact step

/-- A backslash protects one character, which is a whole line end unless that has two. -/
theorem place_protected (breaks opened index)
    (free : ending = .pair → text.head? ≠ some '\n') :
    balancedFrom breaks opened 1 index (ending.translate text) =
      balancedFrom breaks opened (ending.place text 1) index (ending.translate text) := by
  cases text with
  | nil => rfl
  | cons c rest =>
    have single : (ending.spell c).length = 1 := by
      by_cases isFeed : c = '\n'
      · subst isFeed
        cases ending with
        | carriage => rfl
        | pair => exact absurd rfl (free rfl)
      · rw [ending.spell_plain isFeed]
        rfl
    rw [place_cons, single]
    rfl

/-- An expression ends at the corresponding place, or is at fault there. `passed` is the text in
front of what is left to look at. -/
theorem balancedFrom_translate {breaks whole}
    (alike : breaks.contains '\r' = breaks.contains '\n') (passed text)
    (split : whole = passed ++ text) (free : ending = .pair → ¬ ['\\', '\n'] <:+: text)
    (opened skipping) :
    balancedFrom breaks (opened.map fun item => (item.1, ending.place whole item.2))
        (ending.place text skipping) (ending.translate passed).length (ending.translate text) =
      ((balancedFrom breaks opened skipping passed.length text).map (ending.place whole)).mapError
        (Imbalance.move (ending.place whole)) := by
  have here : ending.place whole passed.length = (ending.translate passed).length := by
    rw [split, place, take_left]
  induction text generalizing passed opened skipping with
  | nil =>
    cases opened with
    | nil => exact congrArg Except.ok here.symm
    | cons item more => rfl
  | cons c rest ih =>
    have later : whole = (passed ++ [c]) ++ rest := by
      rw [split, append_assoc, singleton_append]
    have next := ih (passed ++ [c]) later
      (fun isPair inside => free isPair (inside.trans (suffix_cons c rest).isInfix))
    rw [translate_append, translate_cons, translate_nil, append_nil, length_append, length_append] at next
    have there : ending.place whole (passed.length + 1) =
        (ending.translate passed).length + (ending.spell c).length := by
      rw [later, place, take_left' (by simp)]
      simp
    have next := fun opened skipping => next opened skipping there
    rw [translate_cons]
    cases skipping with
    | succ count =>
      rw [place_cons, balancedFrom_skip]
      exact next opened count
    | zero =>
      change balancedFrom _ _ 0 _ _ = _
      by_cases isFeed : c = '\n'
      · subst isFeed
        have single := @balancedFrom_lineEnd breaks ['\n'] (by simp) (by simp [isLineEnd])
          (by simp) opened passed.length rest
        rw [singleton_append] at single
        rw [balancedFrom_lineEnd (ending.spell_ne_nil '\n') ending.feed_ends
          (ending.spell_alike alike '\n'), single, isEmpty_map]
        split
        · exact congrArg Except.ok here.symm
        · exact next opened 0
      · rw [ending.spell_plain isFeed, singleton_append]
        rw [ending.spell_plain isFeed] at next
        rw [balancedFrom, balancedFrom, isEmpty_map]
        split
        · exact congrArg Except.ok here.symm
        split
        · rename_i isQuoted
          rw [ending.quotedBody_translate isQuoted]
          cases quotedBody c rest with
          | none => exact congrArg (Except.error ∘ Imbalance.unterminated) here.symm
          | some found => exact next opened found.2
        split
        · rename_i isEscape
          rw [place_protected]
          · exact next opened 1
          · intro isPair follows
            obtain ⟨more, rfl⟩ := head?_eq_some_iff.1 follows
            apply free isPair
            rw [beq_iff_eq.1 isEscape]
            exact (prefix_append ['\\', '\n'] more).isInfix
        split
        · have open' := next ((c, passed.length) :: opened) 0
          rw [map_cons, here] at open'
          exact open'
        cases opening? c with
        | none => exact next opened 0
        | some expected =>
          cases opened with
          | nil => exact congrArg (Except.error ∘ Imbalance.stray c) here.symm
          | cons item outer =>
            rw [map_cons]
            dsimp only
            split
            · exact next outer 0
            · exact congrArg (Except.error ∘ Imbalance.stray c) here.symm

/-- A text whose line feeds can be replaced: it has no carriage returns of its own, and no backslash
protects a line feed that two characters are to replace. -/
structure Suits (text : List Char) : Prop where
  noReturn : '\r' ∉ text
  unprotected : ending = .pair → ¬ ['\\', '\n'] <:+: text

lemma Suits.suffix {ending : LineBreak} (suits : ending.Suits text) (within : later <:+ text) :
    ending.Suits later where
  noReturn := fun mem => suits.noReturn (within.subset mem)
  unprotected := fun isPair protecting =>
    suits.unprotected isPair (protecting.trans within.isInfix)

end LineBreak

namespace Cursor

/-- The second cursor stands in the translation of the text `whole` where the first stands in the
text. -/
structure Translates (ending : LineBreak) (whole : List Char) (cursor cursor' : Cursor) : Prop where
  within : cursor.rest <:+ whole
  rest : cursor'.rest = ending.translate cursor.rest
  position : cursor'.position = cursor.position

namespace Translates

variable {ending : LineBreak} {whole : List Char} {cursor cursor' : Cursor}
  (same : Translates ending whole cursor cursor')

include same

lemma atEnd : cursor'.atEnd = cursor.atEnd := by
  rw [Cursor.atEnd, same.rest, ending.translate_isEmpty, Cursor.atEnd]

lemma peek_cases : cursor.peek = none ∧ cursor'.peek = none ∨
    (∃ c, c ≠ '\n' ∧ cursor.peek = some c ∧ cursor'.peek = some c) ∨
      cursor.peek = some '\n' ∧ cursor'.peek = some '\r' := by
  unfold peek
  rw [same.rest]
  cases cursor.rest with
  | nil => exact .inl ⟨rfl, rfl⟩
  | cons c rest =>
    by_cases isFeed : c = '\n'
    · subst isFeed
      refine .inr (.inr ⟨rfl, ?_⟩)
      cases ending <;> rfl
    · refine .inr (.inl ⟨c, isFeed, rfl, ?_⟩)
      rw [ending.translate_inside isFeed]
      rfl

lemma shorter_iff {later'} (further : Translates ending whole later later') :
    later'.remaining < cursor'.remaining ↔ later.remaining < cursor.remaining := by
  unfold remaining
  rw [same.rest, further.rest]
  rcases suffix_or_suffix_of_suffix further.within same.within with inner | outer
  · exact ending.translate_length_lt inner
  · have most := ending.translate_length_le outer
    have least := outer.length_le
    omega

variable (suits : ending.Suits whole)

include suits

lemma step {more} (here : cursor.rest = c :: more) :
    Translates ending whole cursor.advance (cursor'.skip (ending.spell c).length) := by
  obtain ⟨within, rest, pos⟩ := same
  obtain ⟨text, place⟩ := cursor
  obtain ⟨text', place'⟩ := cursor'
  dsimp only at here within rest pos
  subst here rest pos
  have later : more <:+ whole := (suffix_cons c more).trans within
  have noReturn : c ≠ '\r' := fun isReturn =>
    (suits.suffix within).noReturn (by rw [isReturn]; exact mem_cons_self)
  by_cases isFeed : c = '\n'
  · subst isFeed
    cases ending with
    | carriage =>
      refine ⟨later, rfl, ?_⟩
      have noPair := LineBreak.carriage_head more
      simp [LineBreak.spell_feed, LineBreak.chars, skip, advance, Position.after, noPair]
    | pair => exact ⟨later, rfl, rfl⟩
  · rw [ending.translate_inside isFeed, ending.spell_plain isFeed]
    refine ⟨later, rfl, ?_⟩
    simp [skip, advance, Position.after, noReturn]

lemma skip (count) : Translates ending whole (cursor.skip count)
    (cursor'.skip (ending.place cursor.rest count)) := by
  induction count generalizing cursor cursor' with
  | zero => exact same
  | succ count ih =>
    cases here : cursor.rest with
    | nil =>
      rw [skip_at_end here]
      exact same
    | cons c more =>
      have next := ih (same.step suits here)
      rw [rest_advance, here, skip_skip] at next
      rw [LineBreak.place, take_succ_cons, ending.translate_cons, length_append]
      exact next

lemma advance (first : cursor.peek = some c) (noFeed : c ≠ '\n') :
    Translates ending whole cursor.advance cursor'.advance := by
  obtain ⟨more, here⟩ := head?_eq_some_iff.1 first
  have next := same.step suits here
  rw [ending.spell_plain noFeed] at next
  exact next

lemma readWhile (keep : Char → Bool) (alike : keep '\r' = keep '\n') :
    (cursor'.readWhile keep).1 = ending.translate (cursor.readWhile keep).1 ∧
      Translates ending whole (cursor.readWhile keep).2 (cursor'.readWhile keep).2 := by
  have taken := ending.translate_takeWhile alike cursor.rest
  constructor
  · rw [readWhile_value, readWhile_value, same.rest, taken]
  · have skipped := same.skip suits (cursor.rest.takeWhile keep).length
    rw [LineBreak.place, ← prefix_iff_eq_take.1 ( takeWhile_prefix keep), ← taken, ← same.rest] at skipped
    exact skipped

lemma skipLineEnd : Translates ending whole cursor.skipLineEnd cursor'.skipLineEnd := by
  have skipped := same.skip suits (lineEndLength cursor.rest)
  rw [← ending.lineEndLength_translate (suits.suffix same.within).noReturn, ← same.rest] at skipped
  exact skipped

lemma skipBlankLines : Translates ending whole (Token.skipBlankLines cursor) (Token.skipBlankLines cursor') := by
  have skipped := same.skip suits (Token.blankLength 0 0 cursor.rest)
  have length : Token.blankLength 0 0 (ending.translate cursor.rest) =
      ending.place cursor.rest (Token.blankLength 0 0 cursor.rest) :=
    ending.blankLength_translate [] [] cursor.rest (by simp)
  rw [← length, ← same.rest] at skipped
  exact skipped

lemma readBlock (width) (ended : cursor.atLineEnd) :
    ∃ block rest rest', Token.readBlock width cursor = (block, rest) ∧
      Token.readBlock width cursor' = (block, rest') ∧ Translates ending whole rest rest' := by
  have noReturn := (suits.suffix same.within).noReturn
  have lineEnded : LineEnded cursor.rest := (atLineEnd_iff cursor).1 ended
  have block' : Token.blockLines width (Token.followingLines cursor'.rest) =
      (Token.blockLines width (Token.followingLines cursor.rest)).map ending.follow := by
    rw [same.rest, ending.followingLines_translate lineEnded noReturn, ending.blockLines_follow]
  obtain ⟨back, split, -⟩ := Token.blockLines_split width (Token.followingLines cursor.rest)
  have behind := same.skip suits (Token.extent (Token.blockLines width (Token.followingLines cursor.rest)))
  rw [ending.place_extent lineEnded noReturn split] at behind
  refine ⟨_, _, _, Token.readBlock_eq width cursor rfl, ?_, behind⟩
  rw [Token.readBlock_eq width cursor' block']
  simp only [map_eq_nil_iff, ending.blockText_follow]

lemma readString : Concurs (fun failure failure' => failure'.error = failure.error)
    (fun read read' => read'.1 = read.1.map ending.translate ∧ Translates ending whole read.2 read'.2)
    cursor.readString cursor'.readString := by
  unfold Cursor.readString
  rw [same.rest]
  cases here : cursor.rest with
  | nil => exact .ok ⟨rfl, same⟩
  | cons quote rest =>
    by_cases isFeed : quote = '\n'
    · subst isFeed
      cases ending <;> exact .ok ⟨rfl, same⟩
    · rw [ending.translate_inside isFeed]
      dsimp only
      split
      · rename_i isQuoted
        rw [ending.quotedBody_translate isQuoted]
        cases quotedBody quote rest with
        | none => exact .error (congrArg ReadError.unterminated same.position)
        | some found =>
          have behind := same.skip suits (found.2 + 1)
          rw [here, ending.place_cons, ending.spell_plain isFeed, length_singleton, Nat.add_comm 1] at behind
          exact .ok ⟨rfl, behind⟩
      · exact .ok ⟨rfl, same⟩

lemma readExpression {breaks} (alike : breaks.contains '\r' = breaks.contains '\n') :
    Concurs (fun failure failure' => failure'.error = failure.error)
      (fun read read' => read'.1 = ending.translate read.1 ∧ Translates ending whole read.2 read'.2)
      (cursor.readExpression breaks) (cursor'.readExpression breaks) := by
  have balanced : balancedLength breaks cursor'.rest =
      ((balancedLength breaks cursor.rest).map (ending.place cursor.rest)).mapError
        (Imbalance.move (ending.place cursor.rest)) := by
    rw [same.rest]
    exact ending.balancedFrom_translate alike [] cursor.rest rfl (suits.suffix same.within).unprotected [] 0
  unfold Cursor.readExpression
  rw [balanced]
  cases balancedLength breaks cursor.rest with
  | ok length =>
    refine .ok ⟨?_, same.skip suits length⟩
    change cursor'.rest.take (ending.place cursor.rest length) = _
    rw [same.rest, ending.translate_take]
    rfl
  | error fault =>
    cases fault with
    | stray bracket index | unclosed bracket index =>
      exact .error (congrArg (ReadError.unbalanced bracket) (same.skip suits index).position)
    | unterminated index =>
      exact .error (congrArg ReadError.unterminated (same.skip suits index).position)

omit suits in
lemma upTo {later'} (reaches : Reaches cursor later)
    (further : Translates ending whole later later') :
    cursor'.upTo later' = ending.translate (cursor.upTo later) := by
  have front : ∀ {text : List Char} {here there : Cursor}, here.rest = text ++ there.rest →
      here.upTo there = text := by
    intro text here there split
    rw [Cursor.upTo, remaining, remaining, split, length_append, Nat.add_sub_cancel, take_left]
  obtain ⟨count, rfl⟩ := reaches
  have split : cursor.rest = cursor.rest.take count ++ (cursor.skip count).rest := by
    rw [rest_skip, take_append_drop]
  have split' : cursor'.rest = ending.translate (cursor.rest.take count) ++ later'.rest := by
    rw [same.rest, further.rest, ← ending.translate_append, ← split]
  rw [front split, front split']

end Translates

end Cursor

end PugTemplate
