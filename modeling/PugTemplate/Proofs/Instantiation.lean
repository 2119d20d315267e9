import PugTemplate.Proofs.Refilling
import PugTemplate.Proofs.Substitution

/-!
# What a call is replaced by, on documents

A document creates the nodes that replace a call in several steps: lines in front, copies of the
body, copies of the content for every slot, a line behind. The trees of these nodes are the ones
that replace the call on trees.
-/

namespace PugTemplate.Document

open List PugTemplate.Tree

section Reading

variable {doc : Document} (wf : doc.WellFormed)

include wf

lemma attributes_treeAt (id) : (doc.treeAt id).attributes = (doc.attributes id).map doc.treeAt := by
  rw [wf.treeAt_eq id]
  rfl

lemma children_treeAt (id) : (doc.treeAt id).children = (doc.children id).map doc.treeAt := by
  rw [wf.treeAt_eq id]
  rfl

lemma position_treeAt (id) : (doc.treeAt id).position = doc.position id := by
  rw [wf.treeAt_eq id]
  rfl

lemma parameters_treeAt (defn) : (doc.treeAt defn).parameters = doc.parameters defn := by
  unfold Tree.parameters parameters
  rw [attributes_treeAt wf, filterMap_map]
  simp only [Function.comp_def, kind_treeAt]
  rfl

lemma arguments_treeAt (call) : (doc.treeAt call).arguments = doc.arguments call := by
  unfold Tree.arguments arguments
  rw [attributes_treeAt wf]
  congr 1
  iterate 2
    · rw [filterMap_map]
      simp only [Function.comp_def, kind_treeAt]
      rfl
  · rw [flatMap_map]
    apply flatMap_congr
    intro id _
    rw [kind_treeAt, attributes_treeAt wf, filterMap_map]
    cases doc.kind id with
    | assignment name =>
      simp only [Function.comp_def, kind_treeAt]
      rfl
    | _ => rfl

lemma readsAttributes_treeAt (defn) : (doc.treeAt defn).readsAttributes = doc.readsAttributes defn := by
  unfold Tree.readsAttributes readsAttributes
  rw [← wf.descendants_treeAt]
  simp only [Function.comp_def, kind_treeAt, attributes_treeAt wf, any_map]

lemma callBindings_treeAt (defn call quote) :
    Tree.callBindings (doc.treeAt defn) (doc.treeAt call) quote = doc.callBindings defn call quote := by
  unfold Tree.callBindings callBindings
  rw [parameters_treeAt wf, arguments_treeAt wf, readsAttributes_treeAt wf]

lemma definitions_tree : doc.tree.definitions = doc.definitions.map fun (name, id) => (name, doc.treeAt id) := by
  unfold Tree.definitions definitions tree
  rw [← wf.descendants_treeAt, filterMap_map, map_filterMap]
  apply filterMap_congr
  intro id _
  simp only [Function.comp_apply, kind_treeAt]
  cases doc.kind id with
  | statement line =>
    cases line with
    | _ => rfl
  | _ => rfl

end Reading

variable {doc : Document} {copies : List Nat}

lemma mem_slots_iff {id} : id ∈ doc.slots copies ↔ (∃ copy ∈ copies, id ∈ doc.descendants copy) ∧
    (doc.kind id).isSlot ∧ doc.isInMixin id = false := by
  simp only [slots, mem_filter, mem_flatMap, Bool.and_eq_true, Bool.not_eq_true']
  rfl

lemma slot_kinds {kind : NodeKind} (isSlot : kind.isSlot) : kind.isMixin = false ∧ kind.isAttribute = false := by
  unfold NodeKind.isSlot at isSlot
  split at isSlot
  · exact ⟨rfl, rfl⟩
  · cases isSlot

namespace WellFormed

variable (wf : doc.WellFormed)

include wf

lemma descendants_distinct (id) : (doc.descendants id).Nodup := wf.preorder_distinct.sublist wf.descendants_sublist

lemma slots_distinct (distinct : copies.Nodup) (orphan : ∀ id ∈ copies, doc.parent id = none) :
    (doc.slots copies).Nodup := by
  apply List.Pairwise.filter
  refine pairwise_flatMap.2 ⟨fun copy _ => wf.descendants_distinct copy, ?_⟩
  refine distinct.imp_of_mem ?_
  intro first second isFirst isSecond different below inFirst other inSecond same
  rw [← same] at inSecond
  apply different
  apply wf.orphan_unique
  · exact wf.descendants_lineage inFirst
  · exact wf.descendants_lineage inSecond
  · exact orphan first isFirst
  · exact orphan second isSecond

end WellFormed

lemma Refilled.treeAt_mixin {after}
    (refilled : Refilled before after (before.slots copies) mode content) (wf : before.WellFormed)
    {id} (inside : id < before.size)
    (isMixin : (before.kind id).isMixin) : after.treeAt id = before.treeAt id := by
  refine refilled.treeAt_free wf (fun below => below < before.size ∧ id ∈ before.lineage below) ?_ ?_
    ⟨inside, before.self_lineage id⟩
  · rintro above ⟨-, mem⟩ below owned
    have parent := wf.owned_iff.1 owned
    exact ⟨parent_inside parent, (wf.mem_lineage_iff parent).2 (.inr mem)⟩
  · rintro below ⟨belowInside, mem⟩
    refine ⟨belowInside, fun isTarget => ?_⟩
    obtain ⟨-, isSlot, notInMixin⟩ := mem_slots_iff.1 isTarget
    rcases mem_cons.1 mem with same | higher
    · rw [same, (slot_kinds isSlot).1] at isMixin
      cases isMixin
    · have inMixin : before.isInMixin below := any_eq_true.2 ⟨id, higher, isMixin⟩
      rw [notInMixin] at inMixin
      cases inMixin

lemma Refilled.treeAt_fill {after}
    (refilled : Refilled before after (before.slots copies) .replace content)
    (wf : before.WellFormed) (isCopy : copy ∈ copies) (copyInside : copy < before.size) {id}
    (below : id ∈ before.descendants copy)
    (notInMixin : before.isInMixin id = false) : after.treeAt id = (before.treeAt id).fill content := by
  induction id using wf.owned_induction with
  | step id ih =>
    have inside := wf.descendants_inside copyInside below
    have attrs : (before.attributes id).map after.treeAt = (before.attributes id).map before.treeAt := by
      apply map_congr_left
      intro owned mem
      apply refilled.treeAt_attribute wf _ mem
      intro slot isTarget
      exact (slot_kinds (mem_slots_iff.1 isTarget).2.1).2
    cases isMixin : (before.kind id).isMixin with
    | true =>
      rw [refilled.treeAt_mixin wf inside isMixin, wf.treeAt_eq, fill, if_pos isMixin]
    | false =>
      rw [wf.treeAt_eq, refilled.well_formed.treeAt_eq, refilled.kind id inside,
        refilled.position id inside, refilled.attributes id inside, attrs, fill,
        isMixin]
      cases isSlot : (before.kind id).isSlot with
      | true =>
        obtain ⟨filling, trees, -, filled⟩ :=
          refilled.filled id (mem_slots_iff.2 ⟨⟨copy, isCopy, below⟩, isSlot, notInMixin⟩)
        rw [filled, ← trees]
        rfl
      | false =>
        have notTarget : id ∉ before.slots copies := by
          intro isTarget
          rw [(mem_slots_iff.1 isTarget).2.1] at isSlot
          cases isSlot
        rw [refilled.others id inside notTarget, fillAll_eq_map, map_map]
        congr 1
        apply map_congr_left
        intro child isChild
        have parent := wf.child_parent isChild
        apply ih child (mem_append_right _ isChild)
        · exact wf.descendants_child below isChild
        · rw [Bool.eq_false_iff, Ne, wf.inMixin_iff parent, isMixin, notInMixin]
          simp

lemma Relinks.grows {after children}
    (relinks : Relinks before after owner children) (wf : before.WellFormed)
    (grows : Grows original before) (newOwner : original.size ≤ owner)
    (newChildren : ∀ id ∈ children, original.size ≤ id) : Grows original after where
  size_le := by
    rw [relinks.size]
    exact grows.size_le
  shape := by
    intro id inside
    have notOwner : id ≠ owner := by omega
    have notChild : id ∉ children := by
      intro mem
      have late := newChildren id mem
      omega
    have notLost : id ∉ before.children owner := by
      intro mem
      have late := wf.child_after mem
      omega
    rw [relinks.shape, if_neg notChild, if_neg notLost, if_neg notOwner, grows.shape id inside]

section

variable {original : Document} (originalWf : original.WellFormed) (content : List Nat)
  (contentInside : ∀ id ∈ content, id < original.size)
  (contentKinds : ∀ id ∈ content, (original.kind id).isAttribute = false)

include originalWf contentInside contentKinds

lemma fillSlots_refilled (slots)
    (wf : doc.WellFormed) (grows : Grows original doc) (distinct : slots.Nodup)
    (inside : ∀ slot ∈ slots, slot < doc.size) (late : ∀ slot ∈ slots, original.size ≤ slot)
    (kinds : ∀ slot ∈ slots, (doc.kind slot).isAttribute = false) :
    Refilled doc (doc.fillSlots content slots) slots .replace (content.map original.treeAt) ∧
      Grows original (doc.fillSlots content slots) := by
  induction slots generalizing doc with
  | nil => exact ⟨.nothing wf .replace _, grows⟩
  | cons slot more ih =>
    have slotInside := inside slot (by simp)
    have supplies : Supplies doc (doc.duplicateAll content).1
        (doc.duplicateAll content).2 (content.map original.treeAt) := by
      have copied := wf.duplicateAll_supplies content fun id mem =>
        Nat.lt_of_lt_of_le (contentInside id mem) grows.size_le
      have same : content.map doc.treeAt = content.map original.treeAt := by
        apply map_congr_left
        intro id mem
        exact grows.treeAt originalWf wf (contentInside id mem)
      rw [same] at copied
      exact copied
    have treeKinds : ∀ tree ∈ content.map original.treeAt, tree.kind.isAttribute = false := by
      intro tree mem
      obtain ⟨id, idMember, same⟩ := mem_map.1 mem
      rw [← same, kind_treeAt]
      exact contentKinds id idMember
    have first : Refilled doc ((doc.duplicateAll content).1.setChildren slot
        (doc.duplicateAll content).2) [slot] .replace (content.map original.treeAt) :=
      supplies.refilled .replace wf slotInside (kinds slot (by simp)) treeKinds
    have relinks : Relinks (doc.duplicateAll content).1
        ((doc.duplicateAll content).1.setChildren slot (doc.duplicateAll content).2)
        slot (doc.duplicateAll content).2 :=
      supplies.merge_relinks .replace slotInside
    have firstGrows := relinks.grows supplies.well_formed (grows.trans supplies.grows)
      (late slot (by simp)) fun id mem =>
        Nat.le_trans grows.size_le (supplies.fresh id mem)
    obtain ⟨moreInside, moreKinds⟩ := first.still (forall_mem_cons.1 inside).2 (forall_mem_cons.1 kinds).2
    obtain ⟨rest, restGrows⟩ := ih first.well_formed firstGrows (nodup_cons.1 distinct).2 moreInside
      (forall_mem_cons.1 late).2 moreKinds
    exact ⟨first.cons rest inside distinct, restGrows⟩

lemma Supplies.filled {trees} (supplies : Supplies original copied copies trees) :
    Supplies original (copied.fillSlots content (copied.slots copies)) copies
      (trees.map (fill (content.map original.treeAt))) := by
  have wf := supplies.well_formed
  have slotsInside : ∀ slot ∈ copied.slots copies, slot < copied.size := by
    intro slot mem
    obtain ⟨⟨copy, isCopy, below⟩, -, -⟩ := mem_slots_iff.1 mem
    exact wf.descendants_inside (supplies.inside copy isCopy) below
  have slotsLate : ∀ slot ∈ copied.slots copies, original.size ≤ slot := by
    intro slot mem
    obtain ⟨⟨copy, isCopy, below⟩, -, -⟩ := mem_slots_iff.1 mem
    have above := wf.descendants_lineage below
    exact Nat.le_trans (supplies.fresh copy isCopy) (wf.lineage_le above)
  obtain ⟨refilled, grows⟩ := fillSlots_refilled originalWf content contentInside
    contentKinds (copied.slots copies) wf supplies.grows
    (wf.slots_distinct supplies.distinct supplies.orphan) slotsInside
    slotsLate fun slot mem => (slot_kinds (mem_slots_iff.1 mem).2.1).2
  refine ⟨refilled.well_formed, grows, ?_, supplies.distinct, supplies.fresh, ?_, ?_⟩
  · rw [← supplies.trees, map_map]
    apply map_congr_left
    intro copy isCopy
    have inside := supplies.inside copy isCopy
    have notInMixin : copied.isInMixin copy = false := by
      simp [isInMixin, ancestors_none (supplies.orphan copy isCopy)]
    exact refilled.treeAt_fill wf isCopy inside wf.self_descendants notInMixin
  · intro copy isCopy
    exact Nat.lt_of_lt_of_le (supplies.inside copy isCopy) refilled.size_le
  · intro copy isCopy
    exact refilled.orphan copy (supplies.inside copy isCopy) (supplies.orphan copy isCopy)

end

lemma body_supplies (wf : doc.WellFormed) (opening : Supplies doc opened early lines)
    (defnInside : defn < doc.size) (callInside : call < doc.size)
    (copied : opened.duplicateAll (opened.children defn) = copying) : Supplies opened
      (if (copying.1.children call).isEmpty then copying.1
        else copying.1.fillSlots (copying.1.children call) (copying.1.slots copying.2))
      copying.2 (body (doc.treeAt defn) (doc.treeAt call)) := by
  have grows := opening.grows
  have openedInside : ∀ id ∈ opened.children defn, id < opened.size :=
    fun id mem => opening.well_formed.child_inside mem
  have oldTrees : ∀ owner : Nat, owner < doc.size →
      (opened.children owner).map opened.treeAt = (doc.treeAt owner).children := by
    intro owner inside
    rw [(grows.content inside).children, children_treeAt wf]
    apply map_congr_left
    intro id mem
    exact grows.treeAt wf opening.well_formed (wf.child_inside mem)
  have supplies := opening.well_formed.duplicateAll_supplies _ openedInside
  rw [copied, oldTrees defn defnInside] at supplies
  have callOpened : call < opened.size := Nat.lt_of_lt_of_le callInside grows.size_le
  have content : copying.1.children call = opened.children call := (supplies.grows.content callOpened).children
  have contentTrees := oldTrees call callInside
  rw [content]
  unfold body
  rw [← contentTrees]
  cases empty : opened.children call with
  | nil => exact supplies
  | cons first more =>
    have filled := supplies.filled opening.well_formed (first :: more)
      (fun id mem => opening.well_formed.child_inside (empty ▸ mem))
      (fun id mem => opening.well_formed.child_kind (empty ▸ mem))
    rw [← fillAll_eq_map] at filled
    exact filled

/-- The nodes that a document creates for a call have the trees that replace the call. -/
theorem instantiate_supplies (wf : doc.WellFormed) (defnInside : defn < doc.size)
    (callInside : call < doc.size) (stash)
    (quote) : Supplies doc (doc.instantiate defn call stash quote).1
      (doc.instantiate defn call stash quote).2
      (Tree.replacement (doc.treeAt defn) (doc.treeAt call) stash quote) := by
  have bindings := callBindings_treeAt wf defn call quote
  have pos := position_treeAt wf call
  let bound := doc.callBindings defn call quote
  let head : List NodeKind := if bound.isEmpty then [] else
    .statement (.code (Mixin.saveCode (bound.map Prod.fst) stash quote) false) ::
      bound.map fun binding => .statement (.binding binding.1 binding.2)
  let tail : List NodeKind := if bound.isEmpty then [] else
    [.statement (.code (Mixin.restoreCode (bound.map Prod.fst) stash) false)]
  have headTrees : head.map (fun kind => .node kind (doc.position call) [] []) =
      Tree.opening (doc.treeAt defn) (doc.treeAt call) stash quote := by
    unfold Tree.opening Tree.line
    rw [bindings, pos]
    dsimp only [head, bound]
    split
    · rfl
    · simp [Mixin.saveCode]
  have tailTrees : tail.map (fun kind => .node kind (doc.position call) [] []) =
      Tree.closing (doc.treeAt defn) (doc.treeAt call) stash quote := by
    unfold Tree.closing Tree.line
    rw [bindings, pos]
    dsimp only [tail]
    split
    · rfl
    · rfl
  have front := wf.createAll_supplies (doc.position call) head
  rw [headTrees] at front
  have middle := body_supplies wf front defnInside callInside rfl
  have back := middle.well_formed.createAll_supplies (doc.position call) tail
  rw [tailTrees] at back
  have whole := (front.append middle).append back
  exact whole

end PugTemplate.Document
