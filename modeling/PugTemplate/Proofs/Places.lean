import PugTemplate.Proofs.Counterparts
import PugTemplate.Proofs.Structure

/-!
# Places in a template

A token stands where the lexer came by, and so does a fault. A text corresponds to itself, with the
cursors that reading reaches, so the places follow from what is known about corresponding texts. The
builder reports its faults at tokens.
-/

namespace PugTemplate

open Cursor Token

/-- The place of a cursor that is reached. -/
def Cursor.Visits (start : Cursor) (position : Position) : Prop :=
  ∃ cursor, Reaches start cursor ∧ cursor.position = position

/-- A text beside itself. -/
def Cursor.visiting (start : Cursor) : Pairing where
  words := .same
  cursors := fun cursor cursor' => cursor' = cursor ∧ Reaches start cursor
  positions := fun position position' => position' = position ∧ start.Visits position
  bound := none

variable {cursor : Cursor}

lemma Cursor.readExpression_place {breaks failure}
    (failed : cursor.readExpression breaks = .error failure) : cursor.Visits failure.error.position := by
  unfold readExpression at failed
  split at failed
  all_goals cases failed
  all_goals exact ⟨_, cursor.reaches_skip _, rfl⟩

lemma Cursor.readString_place {failure} (failed : cursor.readString = .error failure) :
    cursor.Visits failure.error.position := by
  unfold readString at failed
  split at failed
  · split at failed
    · split at failed
      · cases failed
      · cases failed
        exact ⟨_, .refl cursor, rfl⟩
    · cases failed
  · cases failed

lemma Cursor.visiting_read {start} (reached : Reaches start cursor) {α : Type}
    {change : α → α} (kept : ∀ value, change value = value) {result : Except ReadFailure (α × Cursor)}
    (further : ∀ value rest, result = .ok (value, rest) → Reaches cursor rest)
    (placed : ∀ failure, result = .error failure → cursor.Visits failure.error.position) :
    Concurs start.visiting.Faults (start.visiting.SameRead change)
      (result.mapError fun failure => failure.error.diagnose)
      (result.mapError fun failure => failure.error.diagnose) := by
  cases result with
  | ok read => exact .ok ⟨(kept read.1).symm, rfl, reached.trans (further read.1 read.2 rfl)⟩
  | error failure =>
    obtain ⟨later, reaches, place⟩ := placed failure rfl
    exact .error ⟨rfl, rfl, later, reached.trans reaches, place⟩

def Cursor.visited (start : Cursor) : Correspondence where
  toPairing := start.visiting
  place := by
    rintro _ cursor ⟨rfl, reached⟩
    exact ⟨rfl, cursor, reached, rfl⟩
  step := by
    rintro _ cursor ⟨rfl, reached⟩
    by_cases ended : cursor.atLineEnd = true
    · exact .inl ⟨ended, ended⟩
    · simp only [atLineEnd_iff, not_forall] at ended
      obtain ⟨c, first, inside⟩ := ended
      exact .inr ⟨c, Bool.eq_false_iff.2 inside, first, first, rfl, reached.trans cursor.reaches_advance⟩
  shorter := by
    rintro _ cursor _ later ⟨rfl, -⟩ ⟨rfl, -⟩
    rfl
  upTo := by
    rintro _ cursor _ later ⟨rfl, -⟩ ⟨rfl, -⟩ -
    rfl
  gap := by
    rintro _ cursor keep ⟨rfl, reached⟩ - -
    exact ⟨rfl, reached.trans (cursor.reaches_readWhile keep)⟩
  line := by
    rintro _ cursor breaks ⟨rfl, reached⟩ - - -
    rw [readBalanced_eq]
    exact visiting_read reached (fun _ => rfl) (fun _ _ => readExpression_reaches)
      fun _ => readExpression_place
  value := by
    rintro _ cursor ⟨rfl, reached⟩ -
    rw [readBalanced_eq]
    exact visiting_read reached (fun _ => rfl) (fun _ _ => readExpression_reaches)
      fun _ => readExpression_place
  string := by
    rintro _ cursor ⟨rfl, reached⟩ - -
    exact visiting_read reached (fun value => Option.map_id') (fun _ _ => readString_reaches)
      fun _ => readString_place

lemma Cursor.visited_whole (start : Cursor) : start.visited.Whole where
  bound := rfl
  atEnd := by
    rintro _ cursor ⟨rfl, -⟩
    rfl
  skipBlankLines := by
    rintro _ cursor ⟨rfl, reached⟩
    exact ⟨rfl, reached.trans (cursor.reaches_skip _)⟩
  skipLineEnd := by
    rintro _ cursor ⟨rfl, reached⟩
    exact ⟨rfl, reached.trans cursor.reaches_skipLineEnd⟩
  readBlock := by
    rintro _ cursor width ⟨rfl, reached⟩ -
    exact ⟨rfl, rfl, reached.trans (readBlock_reaches width cursor)⟩

lemma Token.stream_visited (source) : (ofText source).visited.Streams (stream source) (stream source) := by
  have begun : (ofText source).visited.cursors (ofText source) (ofText source) := ⟨rfl, .refl _⟩
  exact (visited_whole _).lexLines begun .none

lemma Token.token_visited (mem : token ∈ (stream source).tokens) : (ofText source).Visits token.position := by
  have paired := List.forall₂_same.1 (stream_visited source).tokens
  exact (paired token mem).position.2

lemma Token.failure_visited (failed : (stream source).failure = some diag) :
    (ofText source).Visits diag.position := by
  have paired := (stream_visited source).failure
  rw [failed] at paired
  cases paired with
  | some same => exact same.position.2

namespace Builder

variable {builder : Builder} {pos : Position} {diag : Diagnostic}

lemma ascend_fault (failed : builder.ascend levels pos = .error diag) : diag.position = pos := by
  induction levels generalizing builder with
  | zero => cases failed
  | succ levels ih =>
    unfold ascend at failed
    split at failed
    · cases failed
      rfl
    · exact ih failed

lemma descend_fault (failed : builder.descend climb pos = .error diag) : diag.position = pos := by
  unfold descend at failed
  split at failed
  · cases failed
    rfl
  · split at failed
    · cases failed
    · cases failed
      rfl

lemma addShorthand_fault (failed : builder.addShorthand name value pos = .error diag) : diag.position = pos := by
  unfold addShorthand at failed
  split at failed
  · cases failed
    rfl
  · cases failed

lemma selfClose_fault (failed : builder.selfClose pos = .error diag) : diag.position = pos := by
  unfold selfClose at failed
  split at failed
  · cases failed
    rfl
  · split at failed
    · cases failed
    · cases failed
      rfl

lemma step_fault (failed : builder.step token indentFollows = .error diag) : diag.position = token.position := by
  obtain ⟨kind, pos⟩ := token
  cases kind with
  | indent => exact descend_fault failed
  | newLine =>
    cases indentFollows with
    | true => cases failed
    | false => exact ascend_fault failed
  | classShorthand | idShorthand => exact addShorthand_fault failed
  | selfClosing => exact selfClose_fault failed
  | outdent =>
    unfold step at failed
    dsimp only at failed
    split at failed
    · cases failed
      rfl
    · exact ascend_fault failed
  | text | expression | tag | statement => cases failed
  | _ =>
    unfold step at failed
    dsimp only at failed
    split at failed
    · cases failed
      rfl
    · cases failed

lemma run_fault (failed : builder.run tokens = .error diag) : ∃ token ∈ tokens, diag.position = token.position := by
  induction tokens generalizing builder with
  | nil => cases failed
  | cons token more ih =>
    unfold run at failed
    split at failed
    · rename_i fault
      cases failed
      exact ⟨token, List.mem_cons_self, step_fault fault⟩
    · obtain ⟨later, mem, place⟩ := ih failed
      exact ⟨later, List.mem_cons_of_mem _ mem, place⟩

end Builder

lemma Document.parse_visited (failed : parse source = .error diag) : (ofText source).Visits diag.position := by
  rcases parse_eq_error failed with built | read
  · obtain ⟨token, mem, place⟩ := Builder.run_fault built
    rw [place]
    exact token_visited mem
  · exact failure_visited read

end PugTemplate
