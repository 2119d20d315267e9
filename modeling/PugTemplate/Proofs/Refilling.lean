import PugTemplate.Document.Inheritance
import PugTemplate.Proofs.Supply

/-!
# New content for several nodes

Blocks that are merged and slots that are filled get new content one after the other, each its
own copy. What comes out does not depend on the order: every target keeps, loses or extends the
children it had, and nothing else changes.
-/

namespace PugTemplate.Document

open List

/-- Every node of `targets` got copies of `content`, combined with its children as `mode` says. -/
structure Refilled (before after : Document) (targets : List Nat) (mode : BlockMode)
    (content : List Tree) : Prop where
  well_formed : after.WellFormed
  size_le : before.size ≤ after.size
  kind : ∀ id, id < before.size → after.kind id = before.kind id
  position : ∀ id, id < before.size → after.position id = before.position id
  attributes : ∀ id, id < before.size → after.attributes id = before.attributes id
  others : ∀ id, id < before.size → id ∉ targets → after.children id = before.children id
  filled : ∀ id ∈ targets, ∃ filling : List Nat, filling.map after.treeAt = content ∧
    (∀ new ∈ filling, before.size ≤ new) ∧
    after.children id = mode.merge (before.children id) filling
  orphan : ∀ id, id < before.size → before.parent id = none → after.parent id = none

variable {id : Nat}

namespace Refilled

variable {before after : Document} {targets : List Nat} {mode : BlockMode} {content : List Tree}

lemma nothing (wf : doc.WellFormed) (mode content) : Refilled doc doc [] mode content :=
  ⟨wf, Nat.le_refl _, fun _ _ => rfl, fun _ _ => rfl, fun _ _ => rfl, fun _ _ _ => rfl,
    by simp, fun _ _ orphan => orphan⟩

section Filled

variable (refilled : Refilled before after targets mode content)

include refilled

lemma same_content (inside : id < before.size) (other : id ∉ targets) : SameContent before after id where
  kind := refilled.kind id inside
  position := refilled.position id inside
  attributes := refilled.attributes id inside
  children := refilled.others id inside other

lemma still {ids : List Nat} {test : NodeKind → Bool} {value} (inside : ∀ id ∈ ids, id < before.size)
    (kinds : ∀ id ∈ ids, test (before.kind id) = value) :
    (∀ id ∈ ids, id < after.size) ∧ ∀ id ∈ ids, test (after.kind id) = value := by
  refine ⟨fun id mem => Nat.lt_of_lt_of_le (inside id mem) refilled.size_le, fun id mem => ?_⟩
  rw [refilled.kind id (inside id mem)]
  exact kinds id mem

variable (wf : before.WellFormed)

include wf

lemma treeAt_free (kept : Nat → Prop) (closed : ∀ id, kept id → ∀ below ∈ (before.node id).owned, kept below)
    (free : ∀ id, kept id → id < before.size ∧ id ∉ targets) (start : kept id) :
    after.treeAt id = before.treeAt id :=
  treeAt_congr wf refilled.well_formed kept closed
    (fun id keptId => refilled.same_content (free id keptId).1 (free id keptId).2) id start

lemma treeAt_behind (behind : ∀ target ∈ targets, target < bound) (beyond : bound ≤ id)
    (inside : id < before.size) : after.treeAt id = before.treeAt id := by
  refine refilled.treeAt_free wf (fun id => bound ≤ id ∧ id < before.size) ?_ ?_ ⟨beyond, inside⟩
  · rintro id ⟨idBeyond, _⟩ below owned
    have after := wf.ordered (wf.owned_iff.1 owned)
    exact ⟨by omega, wf.owned_inside owned⟩
  · rintro id ⟨idBeyond, idInside⟩
    refine ⟨idInside, fun mem => ?_⟩
    have target := behind id mem
    omega

lemma treeAt_attribute (targetKinds : ∀ target ∈ targets, (before.kind target).isAttribute = false)
    (owned : id ∈ before.attributes owner) : after.treeAt id = before.treeAt id := by
  refine refilled.treeAt_free wf (fun id => id < before.size ∧ (before.kind id).isAttribute = true) ?_ ?_
    ⟨parent_inside (wf.attribute_parent owned), wf.attribute_kind owned⟩
  · rintro id ⟨_, kind⟩ below mem
    refine ⟨wf.owned_inside mem, ?_⟩
    rcases mem_append.1 mem with asAttribute | asChild
    · exact wf.attribute_kind asAttribute
    · change below ∈ before.children id at asChild
      rw [wf.leaf kind] at asChild
      cases asChild
  · rintro id ⟨inside, kind⟩
    refine ⟨inside, fun mem => ?_⟩
    rw [targetKinds id mem] at kind
    cases kind

end Filled

lemma cons {first second third target more}
    (early : Refilled first second [target] mode content) (late : Refilled second third more mode content)
    (inside : ∀ id ∈ target :: more, id < first.size) (distinct : (target :: more).Nodup) :
    Refilled first third (target :: more) mode content := by
  obtain ⟨targetInside, moreInside⟩ := forall_mem_cons.1 inside
  have alone := (nodup_cons.1 distinct).1
  have larger : ∀ {id : Nat}, id < first.size → id < second.size := fun inside =>
    Nat.lt_of_lt_of_le inside early.size_le
  refine ⟨late.well_formed, Nat.le_trans early.size_le late.size_le, ?_, ?_, ?_, ?_, ?_, ?_⟩
  · intro id inside
    rw [late.kind id (larger inside), early.kind id inside]
  · intro id inside
    rw [late.position id (larger inside), early.position id inside]
  · intro id inside
    rw [late.attributes id (larger inside), early.attributes id inside]
  · intro id inside other
    obtain ⟨notTarget, notMore⟩ := not_or.1 (mt mem_cons.2 other)
    rw [late.others id (larger inside) notMore, early.others id inside (mt mem_singleton.1 notTarget)]
  · intro id mem
    rcases mem_cons.1 mem with rfl | later
    · obtain ⟨filling, trees, fresh, children⟩ := early.filled id (mem_singleton_self id)
      refine ⟨filling, ?_, fresh, ?_⟩
      · rw [← trees]
        apply map_congr_left
        intro new newMember
        have inside : new < second.size := by
          by_contra outside
          have child : new ∈ second.children id := by
            rw [children]
            cases mode with
            | replace => exact newMember
            | append => exact mem_append_right _ newMember
            | prepend => exact mem_append_left _ newMember
          exact outside (early.well_formed.child_inside child)
        exact late.treeAt_behind early.well_formed moreInside (fresh new newMember) inside
      · rw [late.others id (larger targetInside) alone, children]
    · obtain ⟨filling, trees, fresh, children⟩ := late.filled id later
      refine ⟨filling, trees, fun new mem => Nat.le_trans early.size_le (fresh new mem), ?_⟩
      rw [children, early.others id (moreInside id later)]
      exact mt mem_singleton.1 (ne_of_mem_of_not_mem later alone)
  · intro id inside orphan
    exact late.orphan id (larger inside) (early.orphan id inside orphan)

end Refilled

lemma mem_merge {mode : BlockMode} {existing content}
    (mem : id ∈ mode.merge existing content) : id ∈ existing ∨ id ∈ content := by
  cases mode with
  | replace => exact .inr mem
  | append => exact mem_append.1 mem
  | prepend => exact (mem_append.1 mem).symm

lemma merge_distinct (mode : BlockMode) (old : existing.Nodup) (new : content.Nodup)
    (disjoint : ∀ id ∈ existing, id ∉ content) : (mode.merge existing content).Nodup := by
  cases mode with
  | replace => exact new
  | append =>
    refine nodup_append.2 ⟨old, new, ?_⟩
    intro id oldMember other newMember same
    exact disjoint id oldMember (same ▸ newMember)
  | prepend =>
    refine nodup_append.2 ⟨new, old, ?_⟩
    intro id newMember other oldMember same
    exact disjoint other oldMember (same ▸ newMember)

section One

variable {before after : Document} {filling : List Nat} {content : List Tree}
  (supplies : Supplies before after filling content) {target : Nat} (mode : BlockMode)

include supplies

lemma Supplies.merge_relinks (inside : target < before.size) :
    Relinks after (after.setChildren target (mode.merge (after.children target) filling)) target
      (mode.merge (after.children target) filling) := by
  refine setChildren_relinks (Nat.lt_of_lt_of_le inside supplies.grows.size_le)
    (fun id mem => supplies.well_formed.child_inside mem) ?_
  intro id mem
  rcases mem_merge mem with old | new
  · exact supplies.well_formed.child_inside old
  · exact supplies.inside id new

variable (wf : before.WellFormed) (inside : target < before.size)
  (targetKind : (before.kind target).isAttribute = false)
  (kinds : ∀ tree ∈ content, tree.kind.isAttribute = false)

include wf inside targetKind kinds

lemma Supplies.merge_may_own : MayOwn after target (mode.merge (after.children target) filling) := by
  have targetContent := supplies.grows.content inside
  have oldInside : ∀ id : Nat, id ∈ after.children target → id < before.size := by
    intro id mem
    rw [targetContent.children] at mem
    exact wf.child_inside mem
  constructor
  · rw [targetContent.kind]
    exact targetKind
  · refine merge_distinct mode (supplies.well_formed.children_distinct target) supplies.distinct ?_
    intro id old new
    have early := oldInside id old
    have late := supplies.fresh id new
    omega
  · intro id mem
    rcases mem_merge mem with old | new
    · exact .inr old
    · exact .inl (supplies.orphan id new)
  · intro id mem
    rcases mem_merge mem with old | new
    · exact supplies.well_formed.child_after old
    · have late := supplies.fresh id new
      omega
  · intro id mem
    rcases mem_merge mem with old | new
    · exact supplies.well_formed.child_kind old
    · exact supplies.kinds (fun kind => kind.isAttribute = false) kinds id new

lemma Supplies.refilled : Refilled before (after.setChildren target (mode.merge (after.children target) filling))
      [target] mode content := by
  have relinks := supplies.merge_relinks mode inside
  have mayOwn := supplies.merge_may_own mode wf inside targetKind kinds
  have refilledWf := supplies.well_formed.relinked relinks mayOwn
  have grows := supplies.grows
  refine ⟨refilledWf, ?_, ?_, ?_, ?_, ?_, ?_, ?_⟩
  · rw [relinks.size]
    exact grows.size_le
  · intro id idInside
    rw [relinks.kind, (grows.content idInside).kind]
  · intro id idInside
    rw [relinks.position, (grows.content idInside).position]
  · intro id idInside
    rw [relinks.attributes, (grows.content idInside).attributes]
  · intro id idInside other
    rw [relinks.children_other (by simpa using other), (grows.content idInside).children]
  · intro id mem
    rw [mem_singleton.1 mem]
    refine ⟨filling, supplies.trees_relinked relinks refilledWf inside, supplies.fresh, ?_⟩
    rw [relinks.children_eq, if_pos rfl, (grows.content inside).children]
  · intro id idInside orphan
    have afterOrphan : after.parent id = none := by
      rw [grows.parent idInside]
      exact orphan
    have notChild : id ∉ after.children target := by
      intro child
      rw [supplies.well_formed.child_parent child] at afterOrphan
      cases afterOrphan
    have notNew : id ∉ mode.merge (after.children target) filling := by
      intro mem
      rcases mem_merge mem with old | new
      · exact notChild old
      · have late := supplies.fresh id new
        omega
    rw [relinks.parent, if_neg notNew, if_neg notChild]
    exact afterOrphan

end One

end PugTemplate.Document
