import Mathlib.Tactic.Lemma

/-!
# Successful results

What the success of a computation, or its failure, says about its parts.
-/

namespace PugTemplate

variable {ε α β : Type} {first : Except ε α}

lemma ok_of_bind {next} {result : β} (success : first >>= next = .ok result) :
    ∃ value, first = .ok value ∧ next value = .ok result := by
  cases first with
  | error failure => cases success
  | ok value => exact ⟨value, rfl, success⟩

lemma ok_of_pure {change : α → β} {result} (success : (first >>= fun value => pure (change value)) = .ok result) :
    ∃ value, first = .ok value ∧ change value = result := by
  obtain ⟨value, made, same⟩ := ok_of_bind success
  exact ⟨value, made, Except.ok.inj same⟩

lemma ok_of_map {change} {result : β} (success : first.map change = .ok result) :
    ∃ value, first = .ok value ∧ change value = result := by
  cases first with
  | error failure => cases success
  | ok value => exact ⟨value, rfl, Except.ok.inj success⟩

lemma ok_of_mapError {δ : Type} {change : ε → δ} {result}
    (success : first.mapError change = .ok result) : first = .ok result := by
  cases first with
  | error failure => cases success
  | ok value => exact congrArg Except.ok (Except.ok.inj success)

lemma ok_of_any {result : Except ε α} {test} (passes : result.toOption.any test) :
    ∃ value, result = .ok value ∧ test value := by
  cases result with
  | error failure => cases passes
  | ok value => exact ⟨value, rfl, passes⟩

lemma error_of_mapError {δ : Type} {change} {failure : δ}
    (failed : first.mapError change = .error failure) :
    ∃ cause, first = .error cause ∧ change cause = failure := by
  cases first with
  | error cause => exact ⟨cause, rfl, Except.error.inj failed⟩
  | ok value => cases failed

lemma error_of_bind {next : α → Except ε β} {failure} (failed : first >>= next = .error failure) :
    first = .error failure ∨ ∃ value, first = .ok value ∧ next value = .error failure := by
  cases first with
  | error cause => exact .inl (congrArg _ (Except.error.inj failed))
  | ok value => exact .inr ⟨value, rfl, failed⟩

lemma foldlM_invariant {step : β → α → Except ε β} {invariant : β → Prop}
    (kept : ∀ state item after, invariant state → step state item = .ok after → invariant after)
    (items : List α) {state after} (start : invariant state)
    (ok : items.foldlM step state = .ok after) : invariant after := by
  induction items generalizing state with
  | nil =>
    rw [← Except.ok.inj ok]
    exact start
  | cons item more ih =>
    obtain ⟨middle, stepped, rest⟩ := ok_of_bind ok
    exact ih (kept state item middle start stepped) rest

/-- Two computations succeed together, with related results. -/
def Agrees {ε α β : Type} (related : α → β → Prop) (left : Except ε α) (right : Except ε β) : Prop :=
  Option.Rel related left.toOption right.toOption

section Agrees

variable {γ δ : Type} {related : α → β → Prop} {after : γ → δ → Prop} {left : Except ε α}
  {right : Except ε β} (agrees : Agrees related left right)

include agrees

lemma Agrees.outcomes : (∃ failure other, left = .error failure ∧ right = .error other) ∨
      ∃ one other, left = .ok one ∧ right = .ok other ∧ related one other := by
  cases left with
  | error failure =>
    cases right with
    | error other => exact .inl ⟨failure, other, rfl, rfl⟩
    | ok value => cases agrees
  | ok value =>
    cases right with
    | error failure => cases agrees
    | ok other =>
      cases agrees with
      | some isRelated => exact .inr ⟨value, other, rfl, rfl, isRelated⟩

lemma Agrees.bind {leftNext rightNext} (next : ∀ one other, left = .ok one → related one other →
      Agrees after (leftNext one) (rightNext other)) :
    Agrees after (left >>= leftNext) (right >>= rightNext) := by
  rcases agrees.outcomes with ⟨failure, other, rfl, rfl⟩ | ⟨one, other, rfl, rfl, isRelated⟩
  · exact .none
  · exact next one other rfl isRelated

lemma Agrees.map_eq {view} {sight : β → γ}
    (same : ∀ one other, related one other → sight other = view one) :
    right.toOption.map sight = left.toOption.map view := by
  rcases agrees.outcomes with ⟨failure, other, rfl, rfl⟩ | ⟨one, other, rfl, rfl, isRelated⟩
  · rfl
  · exact congrArg some (same one other isRelated)

end Agrees

end PugTemplate
