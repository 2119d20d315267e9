import PugTemplate.Expression.Interpolation
import PugTemplate.Proofs.Balance
import PugTemplate.Proofs.Success

/-!
# Interpolated lines

A text may be taken apart as a whole or line by line. Where every line can be taken apart by
itself, the whole text can, and but for blanks it holds what its lines hold, one after the other:
what a line closes stays closed whatever comes behind it, and nothing begins at a line end.
-/

namespace PugTemplate

open Text List

namespace Text

def ink (text : List Char) : List Char :=
  text.filter fun c => !isBlank c

@[simp] lemma ink_append : ink (first ++ second) = ink first ++ ink second :=
  filter_append ..

lemma ink_blank (blank : ∀ c ∈ text, isBlank c) : ink text = [] := by
  rw [ink, filter_eq_nil_iff]
  intro c mem
  simp [blank c mem]

end Text

variable {length skipping index : Nat}

namespace Interpolation

def tags (segments : List Segment) : List String :=
  segments.filterMap fun
    | .tag snippet => some snippet
    | _ => none

lemma mem_tags {segments} : snippet ∈ tags segments ↔ .tag snippet ∈ segments := by
  unfold tags
  grind

lemma tags_cons (segment segments) : tags (segment :: segments) = tags [segment] ++ tags segments :=
  filterMap_append (l := [segment])

/-- What a segment holds apart from blanks: of a text, its characters one by one. -/
def Segment.substance : Segment → List Segment
  | text value => (Text.ink value.toList).map fun c => text (String.ofList [c])
  | segment => [segment]

def substance (segments : List Segment) : List Segment :=
  segments.flatMap Segment.substance

lemma substance_cons (segment segments) :
    substance (segment :: segments) = segment.substance ++ substance segments :=
  flatMap_cons

lemma substance_addChar (c segments) : substance (addChar c segments) =
    Segment.substance (.text (String.ofList [c])) ++ substance segments := by
  fun_cases addChar c segments with
  | case1 value more =>
    rw [substance_cons, substance_cons, ← append_assoc, Segment.substance, Segment.substance,
      Segment.substance, String.toList_append, ink_append, map_append]
  | case2 notText => exact substance_cons _ _

variable {c : Char} {text : List Char} {found : List Segment}

lemma substance_blank (blank : isBlank c) : Segment.substance (.text (String.ofList [c])) = [] := by
  simp [Segment.substance, ink, blank]

lemma tags_segment (segment) : tags segment.substance = tags [segment] := by
  cases segment with
  | text value => exact filterMap_eq_nil_iff.2 (by simp [Segment.substance])
  | echo | tag => rfl

lemma tags_substance (segments) : tags (substance segments) = tags segments := by
  induction segments with
  | nil => rfl
  | cons segment more ih =>
    rw [tags_cons, ← ih, ← tags_segment]
    exact filterMap_append

/-- Whether two characters behind a backslash make it protect what they would open. -/
def opensInterpolation (sigil bracket : Char) : Bool :=
  (sigil == '#' || sigil == '!') && opensBody bracket

lemma close?_none (closed : opensInterpolation sigil bracket = false) : close? sigil bracket = none := by
  unfold opensInterpolation opensBody at closed
  unfold close?
  grind

lemma segmentsFrom_last (c index) : segmentsFrom 0 index [c] = .ok [.text (String.ofList [c])] := by
  simp [segmentsFrom]

lemma segmentsFrom_char {next rest}
    (notBackslash : ∀ bracket tail, c = '\\' → rest = bracket :: tail →
      opensInterpolation next bracket = false) (noClose : close? c next = none) (index) :
    segmentsFrom 0 index (c :: next :: rest) = (segmentsFrom 0 (index + 1) (next :: rest)).map (addChar c) := by
  rw [segmentsFrom.eq_def]
  dsimp only
  split
  · rename_i sigil bracket tail same
    cases same
    unfold opensInterpolation at notBackslash
    simp [notBackslash bracket tail rfl rfl]
  · rename_i bracket body notProtected same
    cases same
    rw [noClose]
  · rename_i impossible
    cases impossible

lemma segmentsFrom_body (found : close? c bracket = some close)
    (balanced : Cursor.balancedLength [close] body = .ok length)
    (closed : (body.drop length).head? = some close)
    (inside : (trim (body.take length)).isEmpty = false) (index) :
    segmentsFrom 0 index (c :: bracket :: body) = (segmentsFrom (length + 2) (index + 1) (bracket :: body)).map
        (bodySegment c close (trim (body.take length)) :: ·) := by
  rw [segmentsFrom.eq_def]
  dsimp only
  split
  · cases found
  · rename_i bracket body notProtected same
    cases same
    simp only [found, balanced, closed, inside, bne_self_eq_false, Bool.false_eq_true, if_false]
  · rename_i impossible
    cases impossible

lemma lineEnd_opens_nothing (ended : isLineEnd c) (other) :
    opensInterpolation c other = false ∧ opensInterpolation other c = false := by
  unfold isLineEnd at ended
  unfold opensInterpolation opensBody
  grind

/-- The text can be taken apart, behind `skipping` characters, and holds this apart from blanks. -/
def Reads (skipping index : Nat) (text : List Char) (found : List Segment) : Prop :=
  ∃ pieces, segmentsFrom skipping index text = .ok pieces ∧ substance pieces = found

lemma Reads.char {rest}
    (step : segmentsFrom 0 index text = (segmentsFrom skipping (index + 1) rest).map (addChar c))
    (reads : Reads skipping (index + 1) rest found) :
    Reads 0 index text (Segment.substance (.text (String.ofList [c])) ++ found) := by
  obtain ⟨pieces, ok, same⟩ := reads
  refine ⟨addChar c pieces, ?_, (substance_addChar c pieces).trans (congrArg _ same)⟩
  rw [step, ok]
  rfl

lemma segmentsFrom_append {pieces}
    (ok : segmentsFrom skipping index text = .ok pieces) (within : skipping ≤ text.length)
    (ended : ∀ c ∈ behind.head?, isLineEnd c) (later : ∀ place, Reads 0 place behind others)
    (place) : Reads skipping place (text ++ behind) (substance pieces ++ others) := by
  fun_induction segmentsFrom skipping index text generalizing pieces place with
  | case1 skipping index =>
    cases ok
    rw [Nat.le_zero.1 within]
    exact later place
  | case2 index c rest skipping ih =>
    exact ih ok (Nat.le_of_succ_le_succ within) (place + 1)
  | case3 index sigil bracket tail opens ih =>
    obtain ⟨more, apart, rfl⟩ := ok_of_map ok
    rw [substance_addChar, append_assoc]
    exact Reads.char (if_pos opens) (ih apart (Nat.le_add_left 1 _) (place + 1))
  | case4 index sigil bracket tail opens ih =>
    obtain ⟨more, apart, rfl⟩ := ok_of_map ok
    rw [substance_addChar, append_assoc]
    exact Reads.char (if_neg opens) (ih apart (Nat.zero_le _) (place + 1))
  | case5 index c bracket body noClose notBackslash ih =>
    rw [noClose] at ok
    obtain ⟨more, apart, rfl⟩ := ok_of_map ok
    rw [substance_addChar, append_assoc]
    apply Reads.char (segmentsFrom_char _ noClose place) (ih apart (Nat.zero_le _) (place + 1))
    intro next tail backslash front
    cases body with
    | nil =>
      have first : behind.head? = some next := congrArg head? front
      exact (lineEnd_opens_nothing (ended next first) bracket).2
    | cons other body => exact (notBackslash other body backslash rfl).elim
  | case6 index c bracket body close found imbalance unbalanced =>
    simp only [found, unbalanced] at ok
    cases ok
  | case7 index c bracket body close found length balanced unclosed =>
    simp only [found, balanced, unclosed] at ok
    cases ok
  | case8 index c bracket body close found length balanced closed inner vacant =>
    simp only [found, balanced, closed] at ok
    rw [if_pos vacant] at ok
    cases ok
  | case9 index c bracket body close found length balanced closed inner inside notBackslash =>
    rename_i ih
    simp only [found, balanced, closed] at ok
    rw [if_neg inside] at ok
    obtain ⟨more, apart, rfl⟩ := ok_of_map ok
    have atEnd : (body.drop length).head? = some close := by simpa using closed
    have shorter : length < body.length := by
      apply Nat.lt_of_not_le
      intro beyond
      rw [drop_eq_nil_of_le beyond] at atEnd
      cases atEnd
    have front : (body ++ behind).take length = body.take length := take_append_of_le_length (Nat.le_of_lt shorter)
    have same : ((body ++ behind).drop length).head? = some close := by
      rw [drop_append_of_le_length (Nat.le_of_lt shorter), head?_append, atEnd]
      rfl
    have stopped := Cursor.balancedLength_append balanced shorter behind
    have filled : (trim ((body ++ behind).take length)).isEmpty = false := by
      rw [front]
      simpa using inside
    obtain ⟨rest, apart, held⟩ := ih apart (Nat.succ_le_succ shorter) (place + 1)
    refine ⟨bodySegment c close inner :: rest, ?_, ?_⟩
    · rw [cons_append, cons_append, segmentsFrom_body found stopped same filled, ← cons_append, apart, front]
      rfl
    · rw [substance_cons, substance_cons, held, append_assoc]
  | case10 index c =>
    cases ok
    cases behind with
    | nil =>
      obtain ⟨more, apart, rfl⟩ := later 0
      cases apart
      exact ⟨_, segmentsFrom_last c place, (append_nil _).symm⟩
    | cons next behind =>
      have nextEnds := ended next rfl
      rw [substance_cons, substance, flatMap_nil, append_nil]
      apply Reads.char (segmentsFrom_char _ _ place) (later (place + 1))
      · intro bracket tail _ _
        exact (lineEnd_opens_nothing nextEnds bracket).1
      · exact close?_none (lineEnd_opens_nothing nextEnds c).2

lemma lineEnd_blank (ended : isLineEnd c) : isBlank c := by
  rcases Bool.or_eq_true_iff.1 ended with feed | carriage
  · rw [eq_of_beq feed]
    rfl
  · rw [eq_of_beq carriage]
    rfl

lemma Reads.lineEnd (ended : isLineEnd c) (reads : ∀ place, Reads 0 place text found)
    (place) : Reads 0 place (c :: text) found := by
  have nothing := substance_blank (lineEnd_blank ended)
  cases text with
  | nil =>
    obtain ⟨pieces, apart, rfl⟩ := reads 0
    cases apart
    refine ⟨_, segmentsFrom_last c place, ?_⟩
    rw [substance_cons, nothing, nil_append]
  | cons next rest =>
    have read : Reads 0 place (c :: next :: rest)
        (Segment.substance (.text (String.ofList [c])) ++ found) := by
      apply Reads.char (segmentsFrom_char _ _ place) (reads (place + 1))
      · intro bracket tail backslash _
        rw [backslash] at ended
        cases ended
      · exact close?_none (lineEnd_opens_nothing ended next).1
    rw [nothing] at read
    exact read

lemma fields_ne_nil (separates : Char → Bool) (text) : fields separates text ≠ [] := by
  fun_cases fields separates text <;> simp

lemma fields_append (unseparated : ∀ c ∈ front, separates c = false) (c rest)
    (separator : separates c) :
    fields separates (front ++ c :: rest) = front :: fields separates rest := by
  induction front with
  | nil => rw [nil_append, fields, if_pos separator]
  | cons first front ih =>
    have here : separates first = false := unseparated first mem_cons_self
    have others := ih (forall_mem_cons.1 unseparated).2
    rw [cons_append, fields, others]
    simp [here]

lemma fields_unseparated
    (unseparated : ∀ c ∈ text, separates c = false) : fields separates text = [text] := by
  induction text with
  | nil => rfl
  | cons first text ih =>
    have here : separates first = false := unseparated first mem_cons_self
    have others := ih (forall_mem_cons.1 unseparated).2
    rw [fields, others]
    simp [here]

lemma lines_append (unbroken : '\n' ∉ front) (rest) :
    lines (front ++ '\n' :: rest) = dropReturn front :: lines rest := by
  have unseparated : ∀ c ∈ front, (c == '\n') = false := fun c mem =>
    beq_false_of_ne (ne_of_mem_of_not_mem mem unbroken)
  unfold lines
  rw [fields_append unseparated '\n' rest rfl]
  cases others : fields (· == '\n') rest with
  | nil => exact absurd others (fields_ne_nil _ rest)
  | cons next more => rfl

lemma lines_unbroken (unbroken : '\n' ∉ text) : lines text = if text.isEmpty then [] else [text] := by
  have unseparated : ∀ c ∈ text, (c == '\n') = false := fun c mem =>
    beq_false_of_ne (ne_of_mem_of_not_mem mem unbroken)
  unfold lines
  rw [fields_unseparated unseparated]
  rfl

lemma dropReturn_split (piece) : piece = dropReturn piece ∨ piece = dropReturn piece ++ ['\r'] := by
  unfold dropReturn
  split
  · rename_i returned
    obtain ⟨front, same⟩ := getLast?_eq_some_iff.1 (beq_iff_eq.1 returned)
    rw [same, dropLast_concat]
    exact .inr rfl
  · exact .inl rfl

/-- The segments of a text that can be taken apart. -/
def pieces (text : List Char) : List Segment :=
  (segments text).toOption.getD []

lemma pieces_of_ok (apart : segments text = .ok found) : pieces text = found := by
  rw [pieces, apart]
  rfl

lemma lines_read (text) (apart : ∀ line ∈ lines text, ∃ found, segments line = .ok found) (place) :
    Reads 0 place text ((lines text).flatMap fun line => substance (pieces line)) := by
  by_cases broken : '\n' ∈ text
  · obtain ⟨front, rest, split, unbroken⟩ := eq_append_cons_of_mem broken
    have divided := lines_append unbroken rest
    rw [← split] at divided
    rw [divided] at apart ⊢
    have shorter : rest.length < text.length := by
      rw [split, length_append, length_cons]
      omega
    have ended : ∀ place, Reads 0 place ('\n' :: rest)
        ((lines rest).flatMap fun line => substance (pieces line)) :=
      Reads.lineEnd rfl (lines_read rest (forall_mem_cons.1 apart).2)
    obtain ⟨found, first⟩ := apart _ mem_cons_self
    rw [split, flatMap_cons, pieces_of_ok first]
    rcases dropReturn_split front with same | same
    · rw [same]
      exact segmentsFrom_append first (Nat.zero_le _) (by rintro c ⟨⟩; rfl) ended place
    · rw [same, append_assoc]
      exact segmentsFrom_append first (Nat.zero_le _) (by rintro c ⟨⟩; rfl) (Reads.lineEnd rfl ended) place
  · rw [lines_unbroken broken] at apart ⊢
    cases text with
    | nil => exact ⟨[], rfl, rfl⟩
    | cons c rest =>
      obtain ⟨found, first⟩ := apart (c :: rest) mem_cons_self
      have alone : Reads 0 place (c :: rest ++ []) (substance found ++ []) :=
        segmentsFrom_append first (Nat.zero_le _) (by simp) (fun place => ⟨[], rfl, rfl⟩) place
      rw [← pieces_of_ok first] at alone
      simpa using alone
termination_by text.length

lemma segments_lines (text) (apart : ∀ line ∈ lines text, ∃ found, segments line = .ok found) :
    ∃ whole, segments text = .ok whole ∧
      ∀ line ∈ lines text, ∀ found, segments line = .ok found → tags found ⊆ tags whole := by
  obtain ⟨whole, read, held⟩ := lines_read text apart 0
  refine ⟨whole, read, ?_⟩
  intro line mem found lineApart snippet tagged
  rw [← tags_substance, mem_tags, ← pieces_of_ok lineApart] at tagged
  rw [← tags_substance, mem_tags, held]
  exact mem_flatMap.2 ⟨line, mem, tagged⟩

end Interpolation

end PugTemplate
