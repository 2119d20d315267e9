import PugTemplate.Proofs.Loading
import PugTemplate.Proofs.Outcome

/-!
# Expansion of mixins

Calls are expanded level by level: those that are in the tree at the start, then those that came
with them, and so on. It is shown that no call is missed or expanded twice, so that a document
becomes what its tree expands to, and fails where the tree has no expansion.
-/

namespace PugTemplate

open List NodeKind

lemma NodeKind.call_kinds {kind : NodeKind} (called : kind.isCall) :
    kind.isAttribute = false ∧ kind.isMixin = false := by
  unfold isCall at called
  split at called
  · exact ⟨rfl, rfl⟩
  · cases called

namespace Tree

lemma fill_kind (content) (tree : Tree) : (tree.fill content).kind = tree.kind := by
  cases tree with
  | node kind pos attrs children =>
    unfold fill
    split
    · rfl
    · split
      · rfl
      · rfl

lemma replacement_kinds (kinds : ∀ tree ∈ defn.children, tree.kind.isAttribute = false) :
    ∀ tree ∈ replacement defn call stash quote, tree.kind.isAttribute = false := by
  intro tree mem
  rcases mem_append.1 mem with early | late
  · rcases mem_append.1 early with front | inside
    · unfold opening at front
      dsimp only at front
      split at front
      · cases front
      · rcases mem_cons.1 front with same | binding
        · rw [same]
          rfl
        · obtain ⟨pair, -, same⟩ := mem_map.1 binding
          rw [← same]
          rfl
    · unfold body at inside
      split at inside
      · exact kinds tree inside
      · rw [fillAll_eq_map] at inside
        obtain ⟨child, isChild, same⟩ := mem_map.1 inside
        rw [← same, fill_kind]
        exact kinds child isChild
  · unfold closing at late
    dsimp only at late
    split at late
    · cases late
    · rw [mem_singleton.1 late]
      rfl

end Tree

namespace Document

variable {id call owner bound : Nat} {doc after : Document} {name : String}

/-- A document after some expansions: nodes only leave the tree, and mixins stay the same. -/
structure Advances (before after : Document) : Prop where
  well_formed : after.WellFormed
  size_le : before.size ≤ after.size
  kind : ∀ id : Nat, id < before.size → after.kind id = before.kind id
  live : ∀ id : Nat, id < before.size → after.isLive id → before.isLive id = true
  mixin : ∀ id : Nat, id < before.size → (before.kind id).isMixin → after.treeAt id = before.treeAt id

lemma Advances.refl (wf : doc.WellFormed) : Advances doc doc :=
  ⟨wf, Nat.le_refl _, fun _ _ => rfl, fun _ _ live => live, fun _ _ _ => rfl⟩

lemma Advances.trans (early : Advances first second)
    (late : Advances second third) : Advances first third := by
  have larger : ∀ {id : Nat}, id < first.size → id < second.size := fun inside =>
    Nat.lt_of_lt_of_le inside early.size_le
  refine ⟨late.well_formed, Nat.le_trans early.size_le late.size_le, ?_, ?_, ?_⟩
  · intro id inside
    rw [late.kind id (larger inside), early.kind id inside]
  · intro id inside live
    exact early.live id inside (late.live id (larger inside) live)
  · intro id inside isMixin
    have stillMixin : (second.kind id).isMixin := by
      rw [early.kind id inside]
      exact isMixin
    rw [late.mixin id (larger inside) stillMixin, early.mixin id inside isMixin]

lemma live_ancestors (live : doc.isLive id) : doc.isAttached id ∧
    ∀ above ∈ doc.ancestors id, (doc.kind above).isMixin = false := by
  simp only [isLive, isInMixin, Bool.and_eq_true, Bool.not_eq_true', any_eq_false, Bool.not_eq_true] at live
  exact live

lemma Sheds.live (sheds : Sheds before after) (wf : before.WellFormed) (inside : id < before.size)
    (live : after.isLive id) : before.isLive id := by
  obtain ⟨attached, noMixin⟩ := live_ancestors live
  obtain ⟨wasAttached, ancestors⟩ := sheds.attached wf inside attached
  have outside : before.isInMixin id = false := by
    rw [isInMixin, any_eq_false, ← ancestors]
    intro above mem
    have early := wf.ancestors_before (ancestors ▸ mem)
    rw [← sheds.kind above (Nat.lt_trans early inside), noMixin above mem]
    exact Bool.false_ne_true
  rw [isLive, wasAttached, outside]
  rfl

def expandAt (doc : Document) (definition call : Nat) (stash : String) (quote : Char) :
    Document :=
  (doc.instantiate definition call stash quote).1.replace call
    (doc.instantiate definition call stash quote).2

lemma spliceAt_split (replacements) (notFront : id ∉ front) :
    spliceAt id replacements (front ++ [id] ++ back) = front ++ replacements ++ back := by
  induction front with
  | nil => simp [spliceAt]
  | cons first more ih =>
    have different : first ≠ id := fun same => notFront (by simp [same])
    have rest := ih fun mem => notFront (by simp [mem])
    simp only [cons_append, spliceAt, beq_iff_eq, different, if_false]
    rw [rest]

section ExpandAt

variable (wf : doc.WellFormed) {defn : Nat}
  (parent : doc.parent call = some owner) (callKind : (doc.kind call).isCall)
  (defnInside : defn < doc.size) (stash : String) (quote : Char)

include wf parent defnInside

lemma expandAt_supplies : Supplies doc (doc.instantiate defn call stash quote).1
    (doc.instantiate defn call stash quote).2
    (Tree.replacement (doc.treeAt defn) (doc.treeAt call) stash quote) :=
  instantiate_supplies wf defnInside (parent_inside parent) stash quote

include callKind

lemma expandAt_relinks : Relinks (doc.instantiate defn call stash quote).1
    (doc.expandAt defn call stash quote) owner
    (spliceAt call (doc.instantiate defn call stash quote).2 (doc.children owner)) := by
  have supplies := expandAt_supplies wf parent defnInside stash quote
  have noAttribute := (call_kinds callKind).1
  have ownerInside := Nat.lt_trans (wf.ordered parent) (parent_inside parent)
  have relinks := supplies.replace_relinks parent noAttribute
  rw [(supplies.grows.content ownerInside).children] at relinks
  exact relinks

lemma expandAt_sheds : Sheds doc (doc.expandAt defn call stash quote) := by
  have supplies := expandAt_supplies wf parent defnInside stash quote
  apply supplies.sheds wf parent (call_kinds callKind).1
  apply Tree.replacement_kinds
  rw [children_treeAt wf]
  exact wf.child_trees_kinds defn

lemma expandAt_well_formed : (doc.expandAt defn call stash quote).WellFormed :=
  (expandAt_sheds wf parent callKind defnInside stash quote).well_formed

lemma expandAt_split : ∃ front back, doc.children owner = front ++ [call] ++ back ∧ call ∉ front ++ back ∧
    Differs doc (doc.expandAt defn call stash quote) owner front
      (doc.instantiate defn call stash quote).2 back := by
  have supplies := expandAt_supplies wf parent defnInside stash quote
  have relinks := expandAt_relinks wf parent callKind defnInside stash quote
  have noAttribute := (call_kinds callKind).1
  have ownerInside := Nat.lt_trans (wf.ordered parent) (parent_inside parent)
  have ownerContent := supplies.grows.content ownerInside
  obtain ⟨front, back, split⟩ := append_of_mem (wf.child_of_parent parent noAttribute)
  have shape : doc.children owner = front ++ [call] ++ back := by simp [split]
  have distinct := wf.children_distinct owner
  rw [split] at distinct
  obtain ⟨-, backDistinct, apart⟩ := nodup_append.1 distinct
  have notFront : call ∉ front := fun mem =>
    apart call mem call mem_cons_self rfl
  have notBack : call ∉ back := (nodup_cons.1 backDistinct).1
  have outside : call ∉ front ++ back := by
    rw [mem_append, not_or]
    exact ⟨notFront, notBack⟩
  refine ⟨front, back, shape, outside, ?_⟩
  constructor
  · exact expandAt_well_formed wf parent callKind defnInside stash quote
  · intro id inside other
    exact (supplies.grows.content inside).trans (relinks.content other)
  · rw [relinks.kind, ownerContent.kind]
  · rw [relinks.position, ownerContent.position]
  · rw [relinks.attributes, ownerContent.attributes]
  · rw [relinks.children_eq, if_pos rfl, shape, spliceAt_split _ notFront]

lemma expandAt_parent (inside : id < doc.size) : (doc.expandAt defn call stash quote).parent id =
    if id = call then none else doc.parent id :=
  (expandAt_supplies wf parent defnInside stash quote).replace_parent wf parent
    (call_kinds callKind).1 inside

lemma expandAt_advances (live : doc.isLive call) : Advances doc (doc.expandAt defn call stash quote) := by
  have supplies := expandAt_supplies wf parent defnInside stash quote
  have relinks := expandAt_relinks wf parent callKind defnInside stash quote
  have sheds := expandAt_sheds wf parent callKind defnInside stash quote
  refine ⟨sheds.well_formed, sheds.size_le, sheds.kind, fun id => sheds.live wf, ?_⟩
  intro id inside isMixin
  have outside : id ∉ (doc.instantiate defn call stash quote).1.lineage owner := by
    have ownerInside := Nat.lt_trans (wf.ordered parent) (parent_inside parent)
    intro above
    rw [lineage, supplies.grows.ancestors wf supplies.well_formed ownerInside, ← wf.ancestors_some parent] at above
    rw [(live_ancestors live).2 id above] at isMixin
    cases isMixin
  rw [relinks.treeAt_outside supplies.well_formed sheds.well_formed outside,
    supplies.grows.treeAt wf supplies.well_formed inside]

lemma expandAt_trees : (doc.instantiate defn call stash quote).2.map (doc.expandAt defn call stash quote).treeAt =
      Tree.replacement (doc.treeAt defn) (doc.treeAt call) stash quote := by
  have supplies := expandAt_supplies wf parent defnInside stash quote
  have relinks := expandAt_relinks wf parent callKind defnInside stash quote
  have after := expandAt_well_formed wf parent callKind defnInside stash quote
  exact supplies.trees_relinked relinks after (Nat.lt_trans (wf.ordered parent) (parent_inside parent))

end ExpandAt

lemma lookup_map {α β : Type} (change : α → β) (name) (entries : List (String × α)) :
    lookup name (entries.map fun (title, value) => (title, change value)) = (lookup name entries).map change := by
  induction entries with
  | nil => rfl
  | cons entry more ih =>
    obtain ⟨title, value⟩ := entry
    simp only [map_cons, lookup_cons, ih]
    cases name == title with
    | true | false => rfl

lemma definition_tree (wf : doc.WellFormed) (name : String) :
    lookup name doc.tree.definitions.reverse = (definition? doc.definitions name).map doc.treeAt := by
  rw [definitions_tree wf, ← map_reverse, lookup_map]
  rfl

lemma definition_inside (wf : doc.WellFormed) (found : definition? doc.definitions name = some id) :
    id < doc.size ∧ (doc.kind id).isMixin := by
  obtain ⟨before, after, split, -⟩ := lookup_eq_some_iff.1 found
  have mem : (name, id) ∈ doc.definitions := by
    rw [← mem_reverse, split]
    simp
  obtain ⟨below, inTree, kind⟩ := mem_filterMap.1 mem
  split at kind
  · rename_i title isMixin
    cases kind
    exact ⟨wf.descendants_inside wf.root_inside inTree, by rw [isMixin]; rfl⟩
  · cases kind

section Outcome

lemma call_becomes_iff (kind : doc.kind call = .statement (.call name)) (early : call < bound) :
    Becomes defs quote doc bound fuel [call] names out ↔ ∃ defn stash inner expanded,
        lookup name defs.reverse = some defn ∧
        Tree.Expands defs quote fuel (Tree.body defn (doc.treeAt call)) inner expanded ∧
        names = stash :: inner ∧ out = Tree.opening defn (doc.treeAt call) stash quote ++ expanded ++
          Tree.closing defn (doc.treeAt call) stash quote := by
  have treeKind : (doc.treeAt call).kind = .statement (.call name) := by
    rw [kind_treeAt]
    exact kind
  constructor
  · intro becomes
    cases becomes with
    | mixin isMixin rest =>
      rw [kind] at isMixin
      cases isMixin
    | other noMixin noCall below rest =>
      rw [kind] at noCall
      cases noCall
    | call isCall inside rest =>
      cases rest
      rw [if_pos early] at inside
      cases inside with
      | mixin isMixin rest =>
        rw [treeKind] at isMixin
        cases isMixin
      | other noMixin noCall below rest =>
        rw [treeKind] at noCall
        cases noCall
      | call stash called found inside rest =>
        cases rest
        rw [treeKind] at called
        cases called
        exact ⟨_, stash, _, _, found, inside, by simp, by simp⟩
  · rintro ⟨defn, stash, inner, expanded, found, inside, rfl, rfl⟩
    have called : (doc.treeAt call).kind.calledName? = some name := by
      rw [treeKind]
      rfl
    have expands := Tree.Expands.call stash called found inside .nil
    have isCall : (doc.kind call).isCall := by
      rw [kind]
      rfl
    have whole := Becomes.call isCall (by rw [if_pos early]; exact expands) .nil
    simpa using whole

variable (wf : doc.WellFormed) (parent : doc.parent call = some owner)
  (kind : doc.kind call = .statement (.call name)) (live : doc.isLive call)
  (early : call < bound)
  (outermost : ∀ above ∈ doc.ancestors call, (doc.kind above).isCall = false)

include wf parent kind live outermost

lemma exchange_call (shape : doc.children owner = front ++ [call] ++ back)
    (leftDiffers : Differs doc left owner front hole back)
    (rightDiffers : Differs doc right owner front filling back) :
    Exchanges defs quote bound fuel left right hole filling [root] [root] := by
  have callKind : (doc.kind call).isAttribute = false := by
    rw [kind]
    rfl
  have lineage : doc.lineage owner = doc.ancestors call := (wf.ancestors_some parent).symm
  obtain ⟨attached, noMixin⟩ := live_ancestors live
  apply exchange_root wf leftDiffers rightDiffers
  · intro id mem
    apply wf.child_parent
    rw [shape]
    simp only [mem_append] at mem ⊢
    rcases mem with inFront | inBack
    · exact .inl (.inl inFront)
    · exact .inr inBack
  · exact wf.parent_no_attribute parent callKind
  · exact (wf.attached_iff parent).1 attached
  · intro id above
    rw [lineage] at above
    exact ⟨noMixin id above, outermost id above⟩
  · exact Nat.lt_trans (wf.ordered parent) (parent_inside parent)

lemma no_outcome (notDefined : lookup name defs.reverse = none) (early : call < bound)
    (becomes : Becomes defs quote doc bound fuel [root] names out) : False := by
  have callKind : (doc.kind call).isAttribute = false := by
    rw [kind]
    rfl
  obtain ⟨front, back, split⟩ := append_of_mem (wf.child_of_parent parent callKind)
  have shape : doc.children owner = front ++ [call] ++ back := by simp [split]
  have itself : Differs doc doc owner front [call] back := ⟨wf, fun id _ _ => .refl doc id, rfl, rfl, rfl, shape⟩
  obtain ⟨-, -, inner, expanded, -, -, -, inside, -⟩ :=
    exchange_call wf parent kind live outermost shape itself itself names out becomes
  obtain ⟨defn, -, -, -, found, -⟩ := (call_becomes_iff kind early).1 inside
  rw [notDefined] at found
  cases found

lemma expandAt_outcome (defnInside : defn < doc.size)
    (found : lookup name defs.reverse = some (doc.treeAt defn)) (early : call < bound)
    (bounded : bound ≤ doc.size) (stash) :
    (∀ names out, Becomes defs quote (doc.expandAt defn call stash quote) bound
        fuel [root] names out → ∃ front inner back, names = front ++ inner ++ back ∧
        Becomes defs quote doc bound fuel [root] (front ++ (stash :: inner) ++ back) out) ∧
    ((∃ names out, Becomes defs quote doc bound fuel [root] names out) →
      ∃ names out, Becomes defs quote (doc.expandAt defn call stash quote) bound fuel [root] names out) := by
  have callKind : (doc.kind call).isCall := by
    rw [kind]
    rfl
  have supplies := expandAt_supplies wf parent defnInside stash quote
  have after := expandAt_well_formed wf parent callKind defnInside stash quote
  obtain ⟨front, back, shape, -, expanded⟩ := expandAt_split wf parent callKind defnInside stash quote
  have itself : Differs doc doc owner front [call] back := ⟨wf, fun id _ _ => .refl doc id, rfl, rfl, rfl, shape⟩
  -- the new nodes are behind the bound, so their calls are of the next level
  have newNodes : ∀ {names : List String} {out : List Tree},
      Becomes defs quote (doc.expandAt defn call stash quote) bound fuel
        (doc.instantiate defn call stash quote).2 names out ↔
      ∃ inside, Tree.Expands defs quote fuel (Tree.body (doc.treeAt defn) (doc.treeAt call)) names inside ∧
        out = Tree.opening (doc.treeAt defn) (doc.treeAt call) stash quote ++
          inside ++ Tree.closing (doc.treeAt defn) (doc.treeAt call) stash quote := by
    intro names out
    have late : ∀ id : Nat, doc.size ≤ id → (if id < bound then fuel + 1 else fuel) = fuel := by
      intro id beyond
      rw [if_neg (by omega)]
    rw [Becomes.expands_iff after fuel (fun id => doc.size ≤ id) _
      (fun id beyond _ => late id beyond) supplies.fresh,
      expandAt_trees wf parent callKind defnInside stash quote,
      Tree.Expands.replacement_iff]
    intro id beyond _ child isChild
    have later := after.child_after isChild
    omega
  constructor
  · intro names out becomes
    obtain ⟨before, behind, inner, trees, around, rfl, rfl, inside, again⟩ :=
      exchange_call wf parent kind live outermost shape expanded itself names out becomes
    obtain ⟨expansion, expands, same⟩ := newNodes.1 inside
    refine ⟨before, inner, behind, rfl, again _ _ ?_⟩
    exact (call_becomes_iff kind early).2
      ⟨doc.treeAt defn, stash, inner, expansion, found, expands, rfl, same⟩
  · rintro ⟨names, out, becomes⟩
    obtain ⟨before, behind, inner, trees, around, rfl, rfl, inside, again⟩ :=
      exchange_call wf parent kind live outermost shape itself expanded names out becomes
    obtain ⟨other, name, names, expansion, foundOther, expands, rfl, rfl⟩ := (call_becomes_iff kind early).1 inside
    rw [found] at foundOther
    cases foundOther
    exact ⟨_, _, again _ _ (newNodes.2 ⟨expansion, expands, rfl⟩)⟩

end Outcome

lemma WellFormed.live_above (wf : doc.WellFormed) (live : doc.isLive id)
    (mem : above ∈ doc.ancestors id) : doc.isLive above :=
  wf.lineage_up (doc.isLive · = true) (fun parent live => ((wf.live_iff parent).1 live).1) (mem_cons_of_mem _ mem) live

lemma pendingName_some (pending : doc.pendingName? call = some name) :
    doc.kind call = .statement (.call name) ∧ doc.isLive call := by
  unfold pendingName? at pending
  split at pending
  · rename_i title kind
    split at pending
    · rename_i live
      cases pending
      exact ⟨kind, live⟩
    · cases pending
  · cases pending

lemma pendingName_none (pending : doc.pendingName? call = none)
    (isCall : (doc.kind call).isCall) : doc.isLive call = false := by
  unfold NodeKind.isCall at isCall
  split at isCall
  · rename_i name kind
    unfold pendingName? at pending
    rw [kind] at pending
    simpa using pending
  · cases isCall

/-- The queue of a level holds the calls of the tree before the bound, each before those in its
content. -/
structure Pending (doc : Document) (bound : Nat) (queue : List Nat) : Prop where
  sorted : queue.Pairwise (· < ·)
  early : ∀ id ∈ queue, id < bound
  complete : ∀ id : Nat, id < bound → (doc.kind id).isCall → doc.isLive id → id ∈ queue

namespace Pending

lemma outermost (pending : Pending doc bound (call :: more))
    (wf : doc.WellFormed) (live : doc.isLive call) :
    ∀ above ∈ doc.ancestors call, (doc.kind above).isCall = false := by
  intro above mem
  have before := wf.ancestors_before mem
  have callEarly := pending.early call mem_cons_self
  cases isCall : (doc.kind above).isCall with
  | false => rfl
  | true =>
    have queued := pending.complete above (Nat.lt_trans before callEarly) isCall (wf.live_above live mem)
    rcases mem_cons.1 queued with same | later
    · exact absurd same (Nat.ne_of_lt before)
    · have after := (pairwise_cons.1 pending.sorted).1 above later
      exact absurd after (Nat.lt_asymm before)

lemma rest (pending : Pending doc bound (call :: more))
    (kind : ∀ id : Nat, id < bound → after.kind id = doc.kind id)
    (live : ∀ id : Nat, id < bound → after.isLive id → doc.isLive id)
    (done : (after.kind call).isCall → after.isLive call = false) : Pending after bound more where
  sorted := (pairwise_cons.1 pending.sorted).2
  early := (forall_mem_cons.1 pending.early).2
  complete := by
    intro id inside isCall afterLive
    have queued := pending.complete id inside (kind id inside ▸ isCall) (live id inside afterLive)
    rcases mem_cons.1 queued with same | later
    · rw [same] at isCall afterLive
      rw [done isCall] at afterLive
      cases afterLive
    · exact later

end Pending

lemma calls_drop (wf : before.WellFormed) (advances : Advances before after) :
    after.calls.drop before.calls.length =
      (range' before.size (after.size - before.size)).filter fun id => (after.kind id).isCall := by
  have ranges : range after.size = range before.size ++ range' before.size (after.size - before.size) := by
    have whole := @range'_append_1 0 before.size (after.size - before.size)
    rw [Nat.zero_add, Nat.add_sub_cancel' advances.size_le] at whole
    rw [range_eq_range', range_eq_range', whole]
  have old : (range before.size).filter (fun id => (after.kind id).isCall) = before.calls := by
    rw [wf.indexed.calls]
    apply filter_congr
    intro id mem
    rw [advances.kind id (mem_range.1 mem)]
  rw [advances.well_formed.indexed.calls, listed, ranges, filter_append, old, drop_left]

/-- A level is done: its calls are gone, and the next one is known. -/
structure LevelDone (bound : Nat) (before after : Document) (next : List Nat) : Prop where
  advances : Advances before after
  settled : ∀ id : Nat, id < bound → (after.kind id).isCall → after.isLive id = false
  sorted : next.Pairwise (· < ·)
  fresh : ∀ id ∈ next, before.size ≤ id ∧ id < after.size
  complete : ∀ id : Nat, before.size ≤ id → id < after.size → (after.kind id).isCall → after.isLive id → id ∈ next

lemma LevelDone.nothing (wf : doc.WellFormed) (pending : Pending doc bound []) : LevelDone bound doc doc [] := by
  refine ⟨.refl wf, ?_, .nil, by simp, ?_⟩
  · intro id inside isCall
    cases live : doc.isLive id with
    | false => rfl
    | true => cases pending.complete id inside isCall live
  · intro id late inside
    omega

lemma LevelDone.cons {before middle others}
    (wf : before.WellFormed) (first : Advances before middle) (rest : LevelDone bound middle after others) :
    LevelDone bound before after
      ((middle.calls.drop before.calls.length).filter middle.isLive ++ others) := by
  rw [calls_drop wf first]
  have added : ∀ {id : Nat}, id ∈ ((range' before.size (middle.size - before.size)).filter
      fun id => (middle.kind id).isCall).filter middle.isLive ↔
        (before.size ≤ id ∧ id < middle.size) ∧ (middle.kind id).isCall = true ∧ middle.isLive id = true := by
    intro id
    simp only [mem_filter, mem_range'_1, and_assoc]
    constructor
    all_goals
      rintro ⟨low, high, rest⟩
      exact ⟨low, by omega, rest⟩
  have larger := rest.advances.size_le
  refine ⟨first.trans rest.advances, rest.settled, ?_, ?_, ?_⟩
  · refine pairwise_append.2 ⟨?_, rest.sorted, ?_⟩
    · apply List.Pairwise.filter
      apply List.Pairwise.filter
      exact pairwise_lt_range'
    · intro id inFirst other inRest
      have early := (added.1 inFirst).1.2
      have late := (rest.fresh other inRest).1
      omega
  · intro id mem
    rcases mem_append.1 mem with inFirst | inRest
    · obtain ⟨⟨low, high⟩, -⟩ := added.1 inFirst
      exact ⟨low, by omega⟩
    · obtain ⟨low, high⟩ := rest.fresh id inRest
      exact ⟨Nat.le_trans first.size_le low, high⟩
  · intro id low high isCall live
    by_cases early : id < middle.size
    · apply mem_append_left
      rw [rest.advances.kind id early] at isCall
      exact added.2 ⟨⟨low, early⟩, isCall, rest.advances.live id early live⟩
    · apply mem_append_right
      exact rest.complete id (by omega) high isCall live

section Level

variable {original : Document} (originalWf : original.WellFormed) {state : Expanding}
  (advances : Advances original state.document)

include originalWf advances

lemma call_not_defined (pending : Pending state.document bound (call :: more))
    (named : state.document.pendingName? call = some name)
    (notFound : definition? original.definitions name = none)
    (becomes : Becomes original.tree.definitions quote state.document bound fuel [root] names
      out) : False := by
  have wf := advances.well_formed
  obtain ⟨kind, live⟩ := pendingName_some named
  obtain ⟨owner, parent⟩ := wf.placed (live_ancestors live).1 (by simp [kind])
  have lookup := definition_tree originalWf name
  rw [notFound] at lookup
  exact no_outcome wf parent kind live (pending.outermost wf live) lookup
    (pending.early call mem_cons_self) becomes

lemma call_defined (bounded : bound ≤ state.document.size)
    (pending : Pending state.document bound (call :: more))
    (named : state.document.pendingName? call = some name)
    (found : definition? original.definitions name = some defn) (fuel)
    (expanded : state.document.expandAt defn call stash quote = after) :
    Advances state.document after ∧ Pending after bound more ∧
    (∀ names out, Becomes original.tree.definitions quote after bound fuel [root] names out →
      ∃ front inner back, names = front ++ inner ++ back ∧
        Becomes original.tree.definitions quote state.document bound fuel [root]
          (front ++ (stash :: inner) ++ back) out) ∧
    ((∃ names out, Becomes original.tree.definitions quote state.document bound fuel [root] names out) →
      ∃ names out, Becomes original.tree.definitions quote after bound fuel [root] names out) := by
  subst expanded
  have wf := advances.well_formed
  obtain ⟨kind, live⟩ := pendingName_some named
  have callKind : (state.document.kind call).isCall := by
    rw [kind]
    rfl
  obtain ⟨owner, parent⟩ := wf.placed (live_ancestors live).1 (by simp [kind])
  obtain ⟨inOriginal, isMixin⟩ := definition_inside originalWf found
  have defnInside : defn < state.document.size := Nat.lt_of_lt_of_le inOriginal advances.size_le
  have lookup : lookup name original.tree.definitions.reverse = some (state.document.treeAt defn) := by
    rw [definition_tree originalWf, found, advances.mixin defn inOriginal isMixin]
    rfl
  have step := expandAt_advances wf parent callKind defnInside stash quote live
  have larger : ∀ {id : Nat}, id < bound → id < state.document.size := fun inside =>
    Nat.lt_of_lt_of_le inside bounded
  have gone : (state.document.expandAt defn call stash quote).isLive call = false := by
    have alone := expandAt_parent wf parent callKind defnInside stash quote (parent_inside parent)
    rw [if_pos rfl] at alone
    simp [isLive, not_attached alone (wf.not_root (by simp [kind]))]
  refine ⟨step, ?_, ?_⟩
  · exact pending.rest (fun id inside => step.kind id (larger inside))
      (fun id inside => step.live id (larger inside)) (fun _ => gone)
  · exact expandAt_outcome wf parent kind live (pending.outermost wf live)
      defnInside lookup (pending.early call mem_cons_self) bounded stash

end Level

lemma expandCall_found (quote) (state : Expanding) (call)
    (found : definition? defs name = some defn) :
    ∃ after, state.document.expandAt defn call (Mixin.stashName (state.scopes + 1)) quote = after ∧
      expandCall defs quote state call name = .ok (⟨after, state.scopes + 1⟩,
        (after.calls.drop state.document.calls.length).filter after.isLive) := by
  refine ⟨_, rfl, ?_⟩
  unfold expandCall
  rw [found]
  rfl

variable {original : Document} (originalWf : original.WellFormed) (queue : List Nat) {state : Expanding}
  (advances : Advances original state.document) (bounded : bound ≤ state.document.size)
  (pending : Pending state.document bound queue)

include originalWf advances bounded pending

/-- A level that succeeds. Its calls save variables under numbers that have not been in use. -/
theorem expandAll_done {done next}
    (ok : expandAll original.definitions quote state queue = .ok (done, next)) (fuel) :
    LevelDone bound state.document done.document next ∧
      ∃ count, done.scopes = state.scopes + count ∧ ∀ (numbers : List Nat) (out : List Tree),
        Becomes original.tree.definitions quote done.document bound fuel [root]
          (numbers.map Mixin.stashName) out →
        ∃ all : List Nat, all.Perm (range' (state.scopes + 1) count ++ numbers) ∧
          Becomes original.tree.definitions quote state.document bound fuel [root]
            (all.map Mixin.stashName) out := by
  induction queue generalizing state next with
  | nil =>
    cases ok
    refine ⟨.nothing advances.well_formed pending, 0, rfl, ?_⟩
    intro numbers out becomes
    exact ⟨numbers, .refl _, becomes⟩
  | cons call more ih =>
    unfold expandAll at ok
    cases named : state.document.pendingName? call with
    | none =>
      rw [named] at ok
      have skipped := pending.rest (fun _ _ => rfl) (fun _ _ live => live) (pendingName_none named)
      exact ih advances bounded skipped ok
    | some name =>
      rw [named] at ok
      obtain ⟨⟨expanded, added⟩, stepped, ok⟩ := ok_of_bind ok
      obtain ⟨⟨final, others⟩, looped, ⟨⟩⟩ := ok_of_pure ok
      cases found : definition? original.definitions name with
      | none =>
        unfold expandCall at stepped
        rw [found] at stepped
        cases stepped
      | some defn =>
        obtain ⟨after, isAfter, ok⟩ := expandCall_found quote state call found
        rw [ok] at stepped
        cases stepped
        obtain ⟨step, rest, back, -⟩ := call_defined originalWf advances bounded
          pending named found fuel isAfter
        obtain ⟨level, count, scopes, numbering⟩ := ih (advances.trans step)
          (Nat.le_trans bounded step.size_le) rest looped
        refine ⟨.cons advances.well_formed step level, count + 1, ?_, ?_⟩
        · rw [scopes]
          exact Nat.add_right_comm state.scopes 1 count
        · intro numbers out becomes
          obtain ⟨all, perm, stepBecomes⟩ := numbering numbers out becomes
          obtain ⟨front, inner, last, split, becomesBefore⟩ := back _ _ stepBecomes
          obtain ⟨early, lastNumbers, rfl, earlyNames, rfl⟩ := map_eq_append_iff.1 split
          obtain ⟨frontNumbers, innerNumbers, rfl, rfl, rfl⟩ := map_eq_append_iff.1 earlyNames
          refine ⟨frontNumbers ++ (state.scopes + 1) :: (innerNumbers ++ lastNumbers), ?_, ?_⟩
          · refine perm_middle.trans (List.Perm.cons _ ?_)
            rw [← append_assoc]
            exact perm
          · simpa using becomesBefore

lemma expandAll_total
    (becomes : ∃ names out, Becomes original.tree.definitions quote state.document bound fuel
      [root] names out) : ∃ done next, expandAll original.definitions quote state queue = .ok (done, next) ∧
      ∃ names out, Becomes original.tree.definitions quote done.document bound fuel [root] names out := by
  induction queue generalizing state with
  | nil => exact ⟨state, [], rfl, becomes⟩
  | cons call more ih =>
    unfold expandAll
    cases named : state.document.pendingName? call with
    | none =>
      have skipped := pending.rest (fun _ _ => rfl) (fun _ _ live => live) (pendingName_none named)
      exact ih advances bounded skipped becomes
    | some name =>
      cases found : definition? original.definitions name with
      | none =>
        obtain ⟨names, out, becomes⟩ := becomes
        exact (call_not_defined originalWf advances pending named found becomes).elim
      | some defn =>
        obtain ⟨after, isAfter, ok⟩ := expandCall_found quote state call found
        obtain ⟨step, rest, -, forth⟩ := call_defined originalWf advances bounded
          pending named found fuel isAfter
        obtain ⟨done, next, looped, doneBecomes⟩ := @ih ⟨after, state.scopes + 1⟩
          (advances.trans step) (Nat.le_trans bounded step.size_le) rest (forth becomes)
        refine ⟨done, ?_, ?_, doneBecomes⟩
        · exact (after.calls.drop state.document.calls.length).filter after.isLive ++ next
        dsimp only
        rw [ok]
        dsimp only [bind, Except.bind]
        rw [looped]
        rfl

end Document

end PugTemplate
