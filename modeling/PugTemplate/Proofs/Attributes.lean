import Mathlib.Tactic.Lemma
import PugTemplate.Fragment.Attributes

/-!
# Merged attributes

The nodes of an element name attributes and give them values, in any order. What becomes of one attribute
depends on what is given for its name only. The values of `class` and `style` are joined, but a flag takes
the place of all that was given before it.
-/

namespace PugTemplate.AttributeSet

open MergedAttribute List

variable (target : Target) (name separator : String)

/-- What a node gives for an attribute. A name without a value and a bare word are flags. -/
def given? (tree : Tree) : Option MergedValue :=
  match tree.kind with
  | .attr ⟨some other, value, escaped, checked⟩ =>
    if other = name then value? target name (value.getD "true") escaped checked else none
  | .attr ⟨none, some value, _, _⟩ =>
    if Expression.classify value = .literal name then some .flag else none
  | _ => none

def given (trees : List Tree) : List MergedValue :=
  trees.filterMap (given? target name)

def written (trees : List Tree) : List String :=
  ((ofTrees target trees).merged.filter (·.name = name)).map (mergedText target)

def texts (values : List MergedValue) : List String :=
  values.filterMap fun
    | .parts parts => some (String.join (parts.map partText))
    | _ => none

/-- An attribute with joined values, or a flag if there are none. -/
def joined (values : List String) : String :=
  if values = [] then flagText target name
  else " " ++ name ++ "=" ++ target.format.quote (separator.intercalate values)

def held (merged : List MergedAttribute) : List MergedValue :=
  (merged.filter (·.name = name)).map (·.value)

/-- What an attribute that joins its values holds when it is given one more. -/
def hold (held : List MergedValue) (value : MergedValue) : List MergedValue :=
  match held with
  | [] => [value]
  | old :: more => combine name old value :: more

variable {target name separator} {values : List MergedValue}

lemma held_set (value merged) : held name (MergedAttribute.set other value merged) =
    if other = name then hold name (held name merged) value else held name merged := by
  induction merged with
  | nil => by_cases same : other = name <;> simp [MergedAttribute.set, held, hold, same]
  | cons entry more ih =>
    unfold held at ih ⊢
    rw [MergedAttribute.set]
    by_cases found : entry.name = other
    · by_cases same : other = name <;> simp [found, same, hold]
    · rw [if_neg (by simpa using found), filter_cons, filter_cons]
      by_cases same : other = name
      · subst same
        simpa [found] using ih
      · split <;> simpa [same] using ih

lemma held_merge (merged other value escaped checked) :
    held name (merge target merged other value escaped checked) =
      if other = name then (value? target name value escaped checked).elim
        (if (separator? name).isSome then held name merged else []) (hold name (held name merged))
      else held name merged := by
  unfold MergedAttribute.merge
  by_cases same : other = name
  · subst same
    rw [if_pos rfl]
    cases value? target other value escaped checked with
    | some incoming => rw [held_set, if_pos rfl, Option.elim_some]
    | none =>
      dsimp only [Option.elim_none]
      split
      · rfl
      · simp [held, filter_filter]
  · rw [if_neg same]
    cases value? target other value escaped checked with
    | some incoming => rw [held_set, if_neg same]
    | none =>
      dsimp only
      split
      · rfl
      · have kept : ∀ entry : MergedAttribute, (decide (entry.name = name) && entry.name != other) =
            decide (entry.name = name) := by
          intro entry
          by_cases named : entry.name = name <;> simp [named, Ne.symm same]
        simp [held, kept]

lemma written_held (trees) : written target name trees =
    (held name (ofTrees target trees).merged).map fun value => mergedText target ⟨name, value⟩ := by
  rw [held, written, map_map]
  refine map_congr_left fun entry mem => ?_
  rw [← of_decide_eq_true (mem_filter.1 mem).2]
  rfl

variable (joins : separator? name = some separator)

include joins

lemma held_add (attrs tree) : held name (add target attrs tree).merged =
    (given? target name tree).elim (held name attrs.merged) (hold name (held name attrs.merged)) := by
  unfold add given?
  cases tree.kind with
  | attr entry =>
    obtain ⟨other, value, escaped, checked⟩ := entry
    cases other with
    | some other =>
      rw [held_merge, joins]
      by_cases same : other = name <;> simp [same]
    | none =>
      cases value with
      | none => rfl
      | some value =>
        dsimp only
        cases Expression.classify value with
        | literal other =>
          have flag : value? target name "true" true true = some .flag := rfl
          by_cases same : other = name <;> simp [held_merge, flag, same]
        | _ => rfl
  | _ => rfl

/-- What an attribute that joins its values holds depends on what is given for it alone. -/
lemma held_ofTrees (trees) :
    held name (ofTrees target trees).merged = (given target name trees).foldl (hold name) [] := by
  have run : ∀ attrs : AttributeSet, held name (trees.foldl (add target) attrs).merged =
      (given target name trees).foldl (hold name) (held name attrs.merged) := by
    induction trees with
    | nil => exact fun _ => rfl
    | cons tree more ih =>
      intro attrs
      rw [foldl_cons, ih, held_add joins, given, given, filterMap_cons]
      cases given? target name tree <;> rfl
  exact run empty

lemma written_eq (trees) : written target name trees =
    ((given target name trees).foldl (hold name) []).map fun value => mergedText target ⟨name, value⟩ := by
  rw [written_held, held_ofTrees joins]

lemma given_form {tree value} (given : given? target name tree = some value) :
    value = .flag ∨ ∃ part, value = .parts [part] := by
  have noFlag : Markup.isBoolean name = false := by
    unfold separator? at joins
    split at joins
    · rename_i isClass
      rw [beq_iff_eq.1 isClass]
      decide +kernel
    · split at joins
      · rename_i isStyle
        rw [beq_iff_eq.1 isStyle]
        decide +kernel
      · cases joins
  unfold given? at given
  split at given
  · split at given
    · unfold value? at given
      split at given <;> simp [noFlag] at given <;> simp [← given]
    · cases given
  · split at given
    · exact .inl (Option.some.inj given).symm
    · cases given
  · cases given

lemma hold_parts (forms : ∀ value ∈ values, ∃ part, value = .parts [part]) (parts) :
    ∃ all, values.foldl (hold name) [.parts parts] = [.parts all] ∧ String.join (all.map partText) =
      separator.intercalate (String.join (parts.map partText) :: texts values) := by
  induction values generalizing parts with
  | nil => exact ⟨parts, rfl, String.intercalate_singleton.symm⟩
  | cons value more ih =>
    obtain ⟨part, rfl⟩ := forms value mem_cons_self
    obtain ⟨all, joined, same⟩ := ih (forall_mem_cons.1 forms).2 (parts ++ [.literal separator, part])
    refine ⟨all, ?_, ?_⟩
    · rw [← joined]
      simp [hold, combine, joins]
    · have first : texts (.parts [part] :: more) = partText part :: texts more := by simp [texts]
      rw [same, first]
      cases texts more <;> simp [partText, String.append_assoc]

lemma hold_joined {held} (none : held = [] ∨ held = [.flag])
    (forms : ∀ value ∈ values, ∃ part, value = .parts [part]) (given : held = [] → values ≠ []) :
    (values.foldl (hold name) held).map (fun value => mergedText target ⟨name, value⟩) =
      [joined target name separator (texts values)] := by
  cases values with
  | nil =>
    rw [none.resolve_left fun nothing => given nothing rfl]
    rfl
  | cons value more =>
    obtain ⟨part, rfl⟩ := forms value mem_cons_self
    obtain ⟨all, run, same⟩ := hold_parts joins (forall_mem_cons.1 forms).2 [part]
    have first : hold name held (.parts [part]) = [.parts [part]] := by
      rcases none with rfl | rfl <;> rfl
    rw [foldl_cons, first, run, texts, filterMap_cons, joined, ← texts, ← same]
    rfl

omit joins in
lemma hold_flag : hold name (values.foldl (hold name) []) .flag = [.flag] := by
  have single : ∀ held : List MergedValue, held.length ≤ 1 → (values.foldl (hold name) held).length ≤ 1 := by
    induction values with
    | nil => exact fun _ => id
    | cons value more ih =>
      intro held short
      apply ih
      cases held with
      | nil => exact Nat.le_refl 1
      | cons old others => exact short
  have short := single [] (Nat.zero_le 1)
  generalize values.foldl (hold name) [] = held at short
  match held with
  | [] => rfl
  | [old] =>
    unfold hold combine
    cases old <;> cases separator? name <;> rfl

variable (target) in
/-- Where values are joined, all that are given are written, in their order, as long as no flag stands
behind one of them. Otherwise those behind the last flag are written, or the flag if there are none. -/
theorem values_are_joined_unless_flagged (trees : List Tree) (some : texts (given target name trees) ≠ []) :
    ((∀ before after, given target name trees = before ++ .flag :: after → texts before = []) →
      written target name trees = [joined target name separator (texts (given target name trees))]) ∧
    ∀ before after, given target name trees = before ++ .flag :: after → .flag ∉ after →
      written target name trees = [joined target name separator (texts after)] := by
  have forms : ∀ value ∈ given target name trees, value ≠ .flag → ∃ part, value = .parts [part] := by
    intro value mem noFlag
    obtain ⟨tree, -, given⟩ := mem_filterMap.1 mem
    exact (given_form joins given).resolve_left noFlag
  have behind : ∀ before after, given target name trees = before ++ .flag :: after → .flag ∉ after →
      written target name trees = [joined target name separator (texts after)] := by
    intro before after split last
    rw [written_eq joins, split, foldl_append, foldl_cons, hold_flag]
    refine hold_joined joins (.inr rfl) (fun value mem => forms value ?_ (ne_of_mem_of_not_mem mem last)) ?_
    · simp [split, mem]
    · exact fun nothing => absurd nothing (cons_ne_nil _ _)
  refine ⟨fun unflagged => ?_, behind⟩
  by_cases flagged : .flag ∈ given target name trees
  · obtain ⟨after, before, split, last⟩ := eq_append_cons_of_mem (mem_reverse.2 flagged)
    have split : given target name trees = before.reverse ++ .flag :: after.reverse := by
      rw [← reverse_reverse (given target name trees), split]
      simp
    have same : texts (given target name trees) = texts after.reverse := by
      rw [split, texts, filterMap_append]
      exact congrArg (· ++ texts after.reverse) (unflagged _ _ split)
    rw [same]
    exact behind _ _ split (mt mem_reverse.1 last)
  · rw [written_eq joins]
    refine hold_joined joins (.inl rfl) (fun value mem => forms value mem (ne_of_mem_of_not_mem mem flagged)) ?_
    intro _ nothing
    rw [nothing] at some
    exact some rfl

omit joins

def classNode (value : Option String) : Tree :=
  .node (.attr ⟨some "class", value, true, true⟩) .start [] []

/-- A flag hides the value before it. One in front does not, and neither do values that mean none. -/
theorem flagged_class_is_lost :
    written ⟨.standard, [], .html, ""⟩ "class" [classNode (some "a"), classNode none] = [" class"] ∧
      written ⟨.standard, [], .html, ""⟩ "class"
        [classNode none, classNode (some "a"), classNode (some "false"), classNode (some "2")] =
          [" class=\"a 2\""] := by
  have lost := @values_are_joined_unless_flagged ⟨.standard, [], .html, ""⟩ "class" " " rfl
    [classNode (some "a"), classNode none] (by decide +kernel)
  have kept := @values_are_joined_unless_flagged ⟨.standard, [], .html, ""⟩ "class" " " rfl
    [classNode none, classNode (some "a"), classNode (some "false"), classNode (some "2")] (by decide +kernel)
  exact ⟨lost.2 [.parts [.literal "a"]] [] (by decide +kernel) (by simp),
    kept.2 [] [.parts [.literal "a"], .parts [.literal "2"]] (by decide +kernel) (by simp)⟩

end PugTemplate.AttributeSet
