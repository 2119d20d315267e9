import PugTemplate.Proofs.Copies
import PugTemplate.Proofs.Creation

/-!
# Supplies of new nodes

Before nodes go into the tree they are created or copied one after the other. What such a series
of steps comes to is always the same: the document grows, and there are new nodes without a
parent whose trees are known.
-/

namespace PugTemplate.Document

open List

lemma kind_treeAt (doc : Document) (id) : (doc.treeAt id).kind = doc.kind id := by
  unfold treeAt
  cases doc.size with
  | zero | succ => rfl

/-- `after` is `before` with new nodes, among them the roots `ids` of the given trees. -/
structure Supplies (before after : Document) (ids : List Nat) (trees : List Tree) : Prop where
  well_formed : after.WellFormed
  grows : Grows before after
  trees : ids.map after.treeAt = trees
  distinct : ids.Nodup
  fresh : ∀ id ∈ ids, before.size ≤ id
  inside : ∀ id ∈ ids, id < after.size
  orphan : ∀ id ∈ ids, after.parent id = none

namespace Supplies

lemma nothing (wf : doc.WellFormed) : Supplies doc doc [] [] :=
  ⟨wf, .refl doc, rfl, nodup_nil, by simp, by simp, by simp⟩

lemma append (early : Supplies first second left leftTrees) (late : Supplies second third right rightTrees) :
    Supplies first third (left ++ right) (leftTrees ++ rightTrees) where
  well_formed := late.well_formed
  grows := early.grows.trans late.grows
  trees := by
    have kept : left.map third.treeAt = left.map second.treeAt := by
      apply map_congr_left
      intro id mem
      exact late.grows.treeAt early.well_formed late.well_formed (early.inside id mem)
    rw [map_append, kept, early.trees, late.trees]
  distinct := by
    refine nodup_append.2 ⟨early.distinct, late.distinct, ?_⟩
    intro id leftMember other rightMember
    have before := early.inside id leftMember
    have after := late.fresh other rightMember
    omega
  fresh := by
    intro id mem
    rcases mem_append.1 mem with leftMember | rightMember
    · exact early.fresh id leftMember
    · exact Nat.le_trans early.grows.size_le (late.fresh id rightMember)
  inside := by
    intro id mem
    rcases mem_append.1 mem with leftMember | rightMember
    · exact Nat.lt_of_lt_of_le (early.inside id leftMember) late.grows.size_le
    · exact late.inside id rightMember
  orphan := by
    intro id mem
    rcases mem_append.1 mem with leftMember | rightMember
    · rw [late.grows.parent (early.inside id leftMember)]
      exact early.orphan id leftMember
    · exact late.orphan id rightMember

lemma kinds {after : Document} {trees} (supplies : Supplies before after ids trees)
    (prop : NodeKind → Prop)
    (known : ∀ tree ∈ trees, prop tree.kind) : ∀ id ∈ ids, prop (after.kind id) := by
  intro id mem
  rw [← after.kind_treeAt id]
  apply known
  rw [← supplies.trees]
  exact mem_map_of_mem mem

lemma earlier {trees} (grows : Grows first second)
    (supplies : Supplies second third ids trees) : Supplies first third ids trees where
  well_formed := supplies.well_formed
  grows := grows.trans supplies.grows
  trees := supplies.trees
  distinct := supplies.distinct
  fresh := fun id mem => Nat.le_trans grows.size_le (supplies.fresh id mem)
  inside := supplies.inside
  orphan := supplies.orphan

section Replace

variable {before after : Document} {ids : List Nat} {trees : List Tree}
  (supplies : Supplies before after ids trees) {owner id : Nat}

include supplies

lemma trees_relinked (relinks : Relinks after final owner linked) (wf : final.WellFormed)
    (inside : owner < before.size) : ids.map final.treeAt = trees := by
  rw [← supplies.trees]
  apply map_congr_left
  intro id mem
  apply relinks.treeAt_outside supplies.well_formed wf
  intro above
  have late := supplies.fresh id mem
  have early := supplies.well_formed.lineage_le above
  omega

variable (wf : before.WellFormed) (parent : before.parent id = some owner)
  (kind : (before.kind id).isAttribute = false)

include parent kind

lemma replace_relinks : Relinks after (after.replace id ids) owner (spliceAt id ids (after.children owner)) := by
  have inside := parent_inside parent
  have afterParent : after.parent id = some owner := by
    rw [supplies.grows.parent inside]
    exact parent
  have afterKind : (after.kind id).isAttribute = false := by
    rw [(supplies.grows.content inside).kind]
    exact kind
  refine Document.replace_relinks supplies.well_formed afterParent afterKind supplies.inside ?_
  intro mem
  have fresh := supplies.fresh id mem
  omega

include wf

lemma replace_may_own (kinds : ∀ tree ∈ trees, tree.kind.isAttribute = false) :
    MayOwn after owner (spliceAt id ids (after.children owner)) := by
  have inside := parent_inside parent
  have before := wf.ordered parent
  have ownerContent := supplies.grows.content (Nat.lt_trans before inside)
  have distinct := supplies.well_formed.children_distinct owner
  have found : id ∈ after.children owner := by
    rw [ownerContent.children]
    exact wf.child_of_parent parent kind
  have members := mem_spliceAt ids distinct found
  have disjoint : ∀ new ∈ ids, new ∉ after.children owner := by
    intro new mem child
    rw [ownerContent.children] at child
    have old := wf.child_inside child
    have fresh := supplies.fresh new mem
    omega
  constructor
  · rw [ownerContent.kind]
    exact wf.parent_no_attribute parent kind
  · exact spliceAt_distinct id distinct supplies.distinct disjoint
  · intro other mem
    rcases (members other).1 mem with new | ⟨old, _⟩
    · exact .inl (supplies.orphan other new)
    · exact .inr old
  · intro other mem
    rcases (members other).1 mem with new | ⟨old, _⟩
    · have fresh := supplies.fresh other new
      omega
    · exact supplies.well_formed.child_after old
  · intro other mem
    rcases (members other).1 mem with new | ⟨old, _⟩
    · exact supplies.kinds (fun kind => kind.isAttribute = false) kinds other new
    · exact supplies.well_formed.child_kind old

lemma replace_well_formed
    (kinds : ∀ tree ∈ trees, tree.kind.isAttribute = false) : (after.replace id ids).WellFormed :=
  supplies.well_formed.relinked (supplies.replace_relinks parent kind)
    (supplies.replace_may_own wf parent kind kinds)

lemma replace_parent (inside : other < before.size) :
    (after.replace id ids).parent other = if other = id then none else before.parent other := by
  have earlier := wf.ordered parent
  have ownerInside := Nat.lt_trans earlier (parent_inside parent)
  have children := (supplies.grows.content ownerInside).children
  have found := wf.child_of_parent parent kind
  have notNew : other ∉ ids := by
    intro mem
    have fresh := supplies.fresh other mem
    omega
  have kept := mem_spliceAt ids (wf.children_distinct owner) found other
  rw [(supplies.replace_relinks parent kind).parent, children, supplies.grows.parent inside]
  by_cases same : other = id
  · have lost : other ∉ spliceAt id ids (before.children owner) := by
      intro isKept
      rcases kept.1 isKept with new | ⟨_, different⟩
      · exact notNew new
      · exact different (mem_singleton.2 same)
    rw [if_neg lost, same, if_pos found, if_pos rfl]
  · rw [if_neg same]
    by_cases sibling : other ∈ before.children owner
    · have stays : other ∈ spliceAt id ids (before.children owner) := by
        simp [kept, sibling, same]
      rw [if_pos stays, wf.child_parent sibling]
    · have outside : other ∉ spliceAt id ids (before.children owner) := by
        simp [kept, notNew, sibling]
      rw [if_neg outside, if_neg sibling]

end Replace

end Supplies

namespace WellFormed

variable {doc : Document} (wf : doc.WellFormed)

include wf

lemma create_supplies (kind pos) : Supplies doc (doc.create kind pos).1 [doc.size] [.node kind pos [] []] := by
  have created := wf.create kind pos
  have shape : (doc.create kind pos).1.shape doc.size = Node.single kind pos := by
    rw [create_shape, if_pos rfl]
  have tree : (doc.create kind pos).1.treeAt doc.size = .node kind pos [] [] := by
    rw [created.treeAt_eq, kind_eq_shape, position_eq_shape, attributes_eq_shape, children_eq_shape, shape]
    rfl
  refine ⟨created, ⟨?_, ?_⟩, by simp [tree], by simp, by simp, ?_, ?_⟩
  · rw [create_size]
    omega
  · intro id inside
    rw [create_shape, if_neg (Nat.ne_of_lt inside)]
  · simp [create_size]
  · intro id mem
    rw [mem_singleton.1 mem, parent_eq_shape, shape]
    rfl

lemma createAll_supplies (pos kinds) : Supplies doc (doc.createAll pos kinds).1 (doc.createAll pos kinds).2
    (kinds.map fun kind => .node kind pos [] []) := by
  induction kinds generalizing doc with
  | nil => exact .nothing wf
  | cons kind more ih =>
    have first := wf.create_supplies kind pos
    exact first.append (ih first.well_formed)

variable {source : Document}

lemma graft_supplies (sourceWf : source.WellFormed) (id) :
    Supplies doc (doc.graft (source.subtree id)).1 [doc.size] [source.treeAt id] := by
  have mem : id ∈ source.preorder id := sourceWf.self_preorder
  have place : doc.copyPlace source id id = doc.size := sourceWf.copyPlace_root
  refine ⟨sourceWf.graft_well_formed wf, graft_grows, ?_, by simp, by simp, ?_, ?_⟩
  · have tree := sourceWf.graft_treeAt_new wf mem
    rw [place] at tree
    simp [tree]
  · intro new newMember
    rw [mem_singleton.1 newMember, ← place]
    exact copyPlace_inside mem
  · intro new newMember
    rw [mem_singleton.1 newMember, ← place, sourceWf.graft_parent_new mem, if_pos rfl]

lemma graftAll_supplies (sourceWf : source.WellFormed) (ids : List Nat) :
    Supplies doc (doc.graftAll (ids.map source.subtree)).1
      (doc.graftAll (ids.map source.subtree)).2 (ids.map source.treeAt) := by
  induction ids generalizing doc with
  | nil => exact .nothing wf
  | cons id more ih =>
    have first := wf.graft_supplies sourceWf id
    exact first.append (ih first.well_formed)

lemma graftChildren_supplies (sourceWf : source.WellFormed) (parent) :
    Supplies doc (doc.graftChildren source parent).1
      (doc.graftChildren source parent).2 ((source.children parent).map source.treeAt) :=
  wf.graftAll_supplies sourceWf (source.children parent)

lemma duplicateAll_supplies (ids) (inside : ∀ id ∈ ids, id < doc.size) :
    Supplies doc (doc.duplicateAll ids).1 (doc.duplicateAll ids).2 (ids.map doc.treeAt) := by
  induction ids generalizing doc with
  | nil => exact .nothing wf
  | cons id more ih =>
    have first : Supplies doc (doc.duplicate id).1 [doc.size] [doc.treeAt id] := wf.graft_supplies wf id
    have moreInside : ∀ other ∈ more, other < (doc.duplicate id).1.size := by
      intro other mem
      exact Nat.lt_of_lt_of_le (inside other (by simp [mem])) first.grows.size_le
    have kept : more.map (doc.duplicate id).1.treeAt = more.map doc.treeAt := by
      apply map_congr_left
      intro other mem
      exact first.grows.treeAt wf first.well_formed (inside other (by simp [mem]))
    have rest := ih first.well_formed moreInside
    rw [kept] at rest
    exact first.append rest

lemma child_trees_kinds (parent : Nat) :
    ∀ tree ∈ (doc.children parent).map doc.treeAt, tree.kind.isAttribute = false := by
  intro tree mem
  obtain ⟨child, childMember, same⟩ := mem_map.1 mem
  rw [← same, kind_treeAt]
  exact wf.child_kind childMember

end WellFormed

/-- A document with new nodes, where old ones have at most lost their parent. -/
structure Sheds (before after : Document) : Prop where
  well_formed : after.WellFormed
  size_le : before.size ≤ after.size
  kind : ∀ id, id < before.size → after.kind id = before.kind id
  parent : ∀ id, id < before.size → after.parent id = before.parent id ∨ after.parent id = none

variable {id : Nat} {after : Document}

namespace Sheds

lemma refl (wf : doc.WellFormed) : Sheds doc doc := ⟨wf, Nat.le_refl _, fun _ _ => rfl, fun _ _ => .inl rfl⟩

lemma trans (early : Sheds first second) (late : Sheds second third) : Sheds first third where
  well_formed := late.well_formed
  size_le := Nat.le_trans early.size_le late.size_le
  kind := fun id inside =>
    (late.kind id (Nat.lt_of_lt_of_le inside early.size_le)).trans (early.kind id inside)
  parent := by
    intro id inside
    rcases late.parent id (Nat.lt_of_lt_of_le inside early.size_le) with same | none
    · rw [same]
      exact early.parent id inside
    · exact .inr none

variable {before : Document} (sheds : Sheds before after) (wf : before.WellFormed)

include sheds wf

lemma parent_attached (inside : id < before.size) (attached : after.isAttached id) :
    after.parent id = before.parent id := by
  by_cases isRoot : id = root
  · rw [isRoot, sheds.well_formed.root_parent, wf.root_parent]
  · obtain ⟨owner, parent⟩ := attached_parent attached isRoot
    exact (sheds.parent id inside).resolve_right (by simp [parent])

lemma attached (inside : id < before.size) (attached : after.isAttached id) :
    before.isAttached id ∧ after.ancestors id = before.ancestors id := by
  induction id using wf.parent_induction with
  | step id ih =>
    by_cases isRoot : id = root
    · rw [isRoot, ancestors_none sheds.well_formed.root_parent, ancestors_none wf.root_parent]
      exact ⟨before.root_attached, rfl⟩
    · obtain ⟨owner, parent⟩ := attached_parent attached isRoot
      have same := (sheds.parent_attached wf inside attached).symm.trans parent
      have ownerInside := Nat.lt_trans (wf.ordered same) inside
      obtain ⟨ownerAttached, ancestors⟩ := ih owner same ownerInside
        ((sheds.well_formed.attached_iff parent).1 attached)
      refine ⟨(wf.attached_iff same).2 ownerAttached, ?_⟩
      rw [sheds.well_formed.ancestors_some parent, wf.ancestors_some same, ancestors]

end Sheds

lemma Supplies.sheds {trees} (supplies : Supplies before after ids trees)
    (wf : before.WellFormed) (parent : before.parent id = some owner)
    (kind : (before.kind id).isAttribute = false)
    (kinds : ∀ tree ∈ trees, tree.kind.isAttribute = false) : Sheds before (after.replace id ids) where
  well_formed := supplies.replace_well_formed wf parent kind kinds
  size_le := by
    rw [(supplies.replace_relinks parent kind).size]
    exact supplies.grows.size_le
  kind := by
    intro other inside
    rw [(supplies.replace_relinks parent kind).kind, (supplies.grows.content inside).kind]
  parent := by
    intro other inside
    rw [supplies.replace_parent wf parent kind inside]
    split
    · exact .inr rfl
    · exact .inl rfl

end PugTemplate.Document
