import PugTemplate.Proofs.Nesting
import PugTemplate.Proofs.Splicing

/-!
# Tokens of pasted rows

The tokens of rows follow from their widths and kinds, with an indent or outdents between rows of
different widths. Rows that are all moved to the right by one margin have the same tokens as before. So
the tokens of a file stand unchanged in place of an import's.
-/

namespace PugTemplate.Token

open List

/-- The levels of open rows lie to the right of the margin. -/
def Indented (levels : List Nat) : Prop :=
  ∀ level ∈ levels, 0 < level

def shifted (margin : Nat) (levels outer : List Nat) : List Nat :=
  levels.map (margin + ·) ++ outer

variable {outer : List Nat}

namespace Moves

variable {levels after after' : List Nat} {width : Nat} {kinds kinds' : List TokenKind}

lemma closing (moves : Moves levels width kinds after) (narrow : width ≤ levels.headD 0) :
    ∃ closed, levels = closed ++ after ∧ (∀ level ∈ closed, width < level) ∧
      after.headD 0 = width ∧ kinds = replicate closed.length .outdent := by
  cases moves with
  | opens deeper => omega
  | closes split deeper reached => exact ⟨_, split, deeper, reached, rfl⟩

lemma narrow (deeper : ∀ level ∈ closed, width < level)
    (reached : after.headD 0 = width) : width ≤ (closed ++ after).headD 0 := by
  cases closed with
  | nil => exact Nat.le_of_eq reached.symm
  | cons level closed => exact Nat.le_of_lt (deeper level mem_cons_self)

lemma closed_unique {closed'} (same : closed ++ after = closed' ++ after')
    (deeper : ∀ level ∈ closed, width < level) (deeper' : ∀ level ∈ closed', width < level)
    (reached : after.headD 0 = width) (reached' : after'.headD 0 = width) :
    closed = closed' ∧ after = after' := by
  induction closed generalizing closed' with
  | nil =>
    cases closed' with
    | nil => exact ⟨rfl, same⟩
    | cons level closed' =>
      have deep := deeper' level mem_cons_self
      rw [nil_append] at same
      rw [same] at reached
      exact absurd reached (Nat.ne_of_gt deep)
  | cons level closed ih =>
    cases closed' with
    | nil =>
      have deep := deeper level mem_cons_self
      rw [nil_append] at same
      rw [← same] at reached'
      exact absurd reached' (Nat.ne_of_gt deep)
    | cons level' closed' =>
      obtain ⟨rfl, later⟩ := cons.inj same
      obtain ⟨rfl, rfl⟩ := ih later (forall_mem_cons.1 deeper).2
        (fun other mem => deeper' other (mem_cons_of_mem _ mem))
      exact ⟨rfl, rfl⟩

lemma unique (moves : Moves levels width kinds after) (moves' : Moves levels width kinds' after') :
    kinds = kinds' ∧ after = after' := by
  cases moves with
  | opens deeper =>
    cases moves' with
    | opens deeper' => exact ⟨rfl, rfl⟩
    | closes split deeper' reached =>
      have shallow := narrow deeper' reached
      rw [← split] at shallow
      omega
  | closes split deeper reached =>
    have shallow := narrow deeper reached
    rw [← split] at shallow
    obtain ⟨closed', split', deeper', reached', rfl⟩ := moves'.closing shallow
    obtain ⟨rfl, rfl⟩ := closed_unique (split.symm.trans split') deeper deeper' reached reached'
    exact ⟨rfl, rfl⟩

lemma inner (moves : Moves levels width kinds after) (inner : Indented levels) : Indented after := by
  cases moves with
  | opens deeper =>
    intro level mem
    rcases mem_cons.1 mem with rfl | old
    · exact Nat.zero_lt_of_lt deeper
    · exact inner level old
  | closes split deeper reached =>
    rw [split] at inner
    exact fun level mem => inner level (mem_append_right _ mem)

lemma shifted_head (levels) (reached : outer.headD 0 = margin) :
    (shifted margin levels outer).headD 0 = margin + levels.headD 0 := by
  cases levels with
  | nil => exact reached
  | cons level levels => rfl

lemma inset (moves : Moves levels width kinds after) (reached : outer.headD 0 = margin) :
    Moves (shifted margin levels outer) (margin + width) kinds (shifted margin after outer) := by
  cases moves with
  | opens deeper =>
    refine .opens ?_
    rw [shifted_head levels reached]
    omega
  | @closes closed after split deeper reachedAfter =>
    have moved : shifted margin levels outer = closed.map (margin + ·) ++ shifted margin after outer := by
      rw [split, shifted, map_append, append_assoc, shifted]
    have deep : ∀ level ∈ closed.map (margin + ·), margin + width < level := by
      intro level mem
      obtain ⟨old, inside, rfl⟩ := mem_map.1 mem
      exact Nat.add_lt_add_left (deeper old inside) margin
    have closes := closes moved deep
      ((shifted_head after reached).trans (congrArg (margin + ·) reachedAfter))
    rwa [length_map] at closes

lemma close (moves : Moves levels width kinds after) (shallow : width ≤ levels.headD 0)
    (deeper : ∀ level ∈ extra, width < level) :
    Moves (extra ++ levels) width (replicate extra.length .outdent ++ kinds) after := by
  obtain ⟨closed, split, deep, reached, rfl⟩ := moves.closing shallow
  rw [← replicate_add, ← length_append]
  refine .closes (by rw [split, append_assoc]) ?_ reached
  intro level mem
  rcases mem_append.1 mem with early | late
  · exact deeper level early
  · exact deep level late

end Moves

namespace Spells

variable {levels : List Nat} {rows : List LogicalLine} {kinds kinds' : List TokenKind}

lemma unique (spells : Spells levels rows kinds) (spells' : Spells levels rows kinds') : kinds = kinds' := by
  induction spells generalizing kinds' with
  | done =>
    cases spells' with
    | done => rfl
  | row moves later ih =>
    cases spells' with
    | row moves' later' =>
      obtain ⟨rfl, rfl⟩ := moves.unique moves'
      rw [ih later']

lemma append (spells : Spells levels (before ++ rows) kinds) :
    ∃ front reached back, kinds = front ++ back ∧ (∀ kind ∈ front.getLast?, kind = .newLine) ∧
      Spells reached rows back ∧ ∀ {rows' back'}, Spells reached rows' back' →
        Spells levels (before ++ rows') (front ++ back') := by
  induction before generalizing levels kinds with
  | nil => exact ⟨[], levels, kinds, rfl, by simp, spells, id⟩
  | cons first before ih =>
    cases spells with
    | @row _ after _ _ opened _ moves later =>
      obtain ⟨front, reached, back, rfl, closed, rest, replace⟩ := ih later
      refine ⟨opened ++ first.kinds ++ .newLine :: front, reached, back, ?_, ?_, rest, ?_⟩
      · simp only [append_assoc, cons_append]
      · rw [getLast?_append_of_ne_nil _ (by simp), getLast?_cons]
        cases last : front.getLast? with
        | none => simp
        | some kind => simpa using closed kind last
      · intro rows' back' other
        have whole := row moves (replace other)
        simpa only [append_assoc, cons_append] using whole

lemma close (spells : Spells levels rows kinds) (reached : levels.headD 0 = width)
    (shallow : ∀ first ∈ rows.head?, first.width ≤ width)
    (deeper : ∀ level ∈ extra, width < level) :
    Spells (extra ++ levels) rows (replicate extra.length .outdent ++ kinds) := by
  cases spells with
  | done =>
    rw [← replicate_add, ← length_append]
    exact .done
  | @row _ after row _ opened _ moves later =>
    have narrow : row.width ≤ width := shallow row rfl
    have closes := moves.close (reached ▸ narrow)
      fun level mem => Nat.lt_of_le_of_lt narrow (deeper level mem)
    have whole := Spells.row closes later
    simpa only [append_assoc] using whole

lemma inset (spells : Spells levels rows kinds) (inner : Indented levels)
    (rest : Spells outer behind back) (reached : outer.headD 0 = margin)
    (shallow : ∀ first ∈ behind.head?, first.width ≤ margin) :
    Spells (shifted margin levels outer) (rows.map (LogicalLine.inset margin) ++ behind) (kinds ++ back) := by
  induction spells with
  | @done levels =>
    have deeper : ∀ level ∈ levels.map (margin + ·), margin < level := by
      intro level mem
      obtain ⟨old, inside, rfl⟩ := mem_map.1 mem
      exact Nat.lt_add_of_pos_right (inner old inside)
    have closed := rest.close reached shallow deeper
    rwa [length_map] at closed
  | @row levels after row _ opened _ moves later ih =>
    have moved : Moves (shifted margin levels outer) (LogicalLine.inset margin row).width opened
        (shifted margin after outer) := moves.inset reached
    have whole := Spells.row moved (ih (moves.inner inner))
    simpa only [map_cons, LogicalLine.inset, append_assoc, cons_append] using whole

lemma skip (moves : Moves levels width opened outer) (rest : Spells outer behind back)
    (shallow : ∀ first ∈ behind.head?, first.width ≤ width) : Spells levels behind (opened ++ back) ∨
      opened = [.indent] ∧ ∃ back', back = .outdent :: back' ∧ Spells levels behind back' := by
  cases moves with
  | closes split deeper reached =>
    left
    have closed := rest.close reached shallow deeper
    rwa [← split] at closed
  | opens deep =>
    cases rest with
    | done => exact .inr ⟨rfl, _, rfl, .done⟩
    | @row _ after row _ _ _ moves later =>
      obtain ⟨closed, split, deeper, reached, rfl⟩ := moves.closing (shallow row rfl)
      cases closed with
      | nil =>
        left
        subst split
        have same : width = row.width := reached
        subst same
        exact .row (.opens deep) later
      | cons level closed =>
        right
        have fewer : Moves levels row.width (replicate closed.length .outdent) after :=
          .closes (cons.inj split).2 (forall_mem_cons.1 deeper).2 reached
        exact ⟨rfl, _, rfl, .row fewer later⟩

/-- The tokens of a page with an import are those of the page with the imported rows in its place,
but for the tokens of the import. Where nothing is imported, a level that was opened for the import
alone is not opened. -/
theorem pasted {page pastedKinds content before inner behind row}
    (outer : Spells [] (before ++ row :: behind) page) (included : Spells [] inner content)
    (spliced : Spells [] (before ++ (inner.map (LogicalLine.inset row.width) ++ behind)) pastedKinds)
    (level : ∀ first ∈ inner.head?, first.width = 0)
    (narrow : ∀ first ∈ behind.head?, first.width ≤ row.width) :
    ∃ front opened back, page = front ++ (opened ++ (row.kinds ++ .newLine :: back)) ∧
      (∀ kind ∈ front.getLast?, kind = .newLine) ∧ (∀ kind ∈ opened, kind = .indent ∨ kind = .outdent) ∧
      (pastedKinds = front ++ (opened ++ (content ++ back)) ∨ content = [] ∧ opened = [.indent] ∧
          ∃ back', back = .outdent :: back' ∧ pastedKinds = front ++ back') := by
  obtain ⟨front, reached, later, rfl, closed, rest, replace⟩ := outer.append
  cases rest with
  | @row _ after _ _ opened back moves rest =>
    refine ⟨front, opened, back, by rw [append_assoc], closed, moves.kinds, ?_⟩
    cases included with
    | done =>
      rcases skip moves rest narrow with kept | ⟨rfl, back', rfl, fewer⟩
      · exact .inl (spliced.unique (replace kept))
      · exact .inr ⟨rfl, rfl, back', rfl, spliced.unique (replace fewer)⟩
    | @row _ outerLevels first rows _ kinds movesFirst laterRows =>
      left
      have flush : first.width = 0 := level first rfl
      obtain ⟨closed, split, -, -, rfl⟩ := movesFirst.closing (Nat.le_of_eq (flush.trans rfl))
      obtain ⟨rfl, rfl⟩ := append_eq_nil_iff.1 split.symm
      have shifted := laterRows.inset (by simp [Indented]) rest moves.current narrow
      have moved : Moves reached (LogicalLine.inset row.width first).width opened after := by
        rw [LogicalLine.inset, flush]
        exact moves
      have whole := Spells.row moved shifted
      apply spliced.unique
      apply replace
      simpa only [map_cons, LogicalLine.inset, length_nil, replicate_zero,
        nil_append, append_assoc, cons_append] using whole

end Spells

end PugTemplate.Token
