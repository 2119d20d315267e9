import PugTemplate.Proofs.Lineage
import PugTemplate.Proofs.Relinking

/-!
# What a change leaves alone

The tree below a node depends on the nodes of that tree only. A document that merely grows keeps
every tree it had, and a node that gets other children changes only the trees it lies in.
-/

namespace PugTemplate.Document

/-- Two documents agree on what the tree at a node takes from the node itself. -/
structure SameContent (before after : Document) (id : Nat) : Prop where
  kind : after.kind id = before.kind id
  position : after.position id = before.position id
  attributes : after.attributes id = before.attributes id
  children : after.children id = before.children id

variable {before after : Document} {id : Nat}

lemma SameContent.of_shape (same : after.shape id = before.shape id) : SameContent before after id where
  kind := by rw [kind_eq_shape, kind_eq_shape, same]
  position := by rw [position_eq_shape, position_eq_shape, same]
  attributes := by rw [attributes_eq_shape, attributes_eq_shape, same]
  children := by rw [children_eq_shape, children_eq_shape, same]

lemma SameContent.refl (doc id) : SameContent doc doc id := ⟨rfl, rfl, rfl, rfl⟩

lemma SameContent.symm (same : SameContent before after id) : SameContent after before id :=
  ⟨same.kind.symm, same.position.symm, same.attributes.symm, same.children.symm⟩

lemma SameContent.trans (left : SameContent first second id)
    (right : SameContent second third id) : SameContent first third id :=
  ⟨right.kind.trans left.kind, right.position.trans left.position,
    right.attributes.trans left.attributes, right.children.trans left.children⟩

lemma SameContent.owned (same : SameContent before after id) : (after.node id).owned = (before.node id).owned := by
  change after.attributes id ++ after.children id = before.attributes id ++ before.children id
  rw [same.attributes, same.children]

section

variable (beforeWf : before.WellFormed) (afterWf : after.WellFormed)
  (kept : Nat → Prop) (closed : ∀ id, kept id → ∀ below ∈ (before.node id).owned, kept below)

include beforeWf afterWf closed

/-- Trees are the same on a set of nodes that holds all that its nodes own, also when the nodes are in other
places. -/
theorem treeAt_moved (place : Nat → Nat) (same : ∀ id, kept id → after.kind (place id) = before.kind id ∧
      after.position (place id) = before.position id ∧
      after.attributes (place id) = (before.attributes id).map place ∧
      after.children (place id) = (before.children id).map place) (id) (start : kept id) :
    after.treeAt (place id) = before.treeAt id := by
  induction id using beforeWf.owned_induction with
  | step id ih =>
    obtain ⟨kind, position, attributes, children⟩ := same id start
    have below : ∀ ids, ids ⊆ (before.node id).owned →
        (ids.map place).map after.treeAt = ids.map before.treeAt := by
      intro ids owned
      rw [List.map_map]
      refine List.map_congr_left fun below mem => ?_
      exact ih below (owned mem) (closed id start below (owned mem))
    rw [beforeWf.treeAt_eq, afterWf.treeAt_eq, kind, position, attributes, children,
      below (before.attributes id) (List.subset_append_left _ _),
      below (before.children id) (List.subset_append_right _ _)]

lemma treeAt_congr (same : ∀ id, kept id → SameContent before after id) (id) (start : kept id) :
    after.treeAt id = before.treeAt id := by
  refine treeAt_moved beforeWf afterWf kept closed (fun id => id) (fun id isKept => ?_) id start
  obtain ⟨kind, position, attributes, children⟩ := same id isKept
  exact ⟨kind, position, by rw [attributes, List.map_id'], by rw [children, List.map_id']⟩

end

/-- All nodes are kept, and new ones come behind them. -/
structure Grows (before after : Document) : Prop where
  size_le : before.size ≤ after.size
  shape : ∀ id, id < before.size → after.shape id = before.shape id

lemma ancestors_congr (beforeWf : before.WellFormed) (afterWf : after.WellFormed)
    (parents : ∀ id, id < before.size → after.parent id = before.parent id) (inside : id < before.size) :
    after.ancestors id = before.ancestors id := by
  induction id using beforeWf.parent_induction with
  | step id ih =>
    have sameParent := parents id inside
    cases parent : before.parent id with
    | none => rw [ancestors_none parent, ancestors_none (sameParent.trans parent)]
    | some owner =>
      have earlier := beforeWf.ordered parent
      rw [beforeWf.ancestors_some parent, afterWf.ancestors_some (sameParent.trans parent),
        ih owner parent (Nat.lt_trans earlier inside)]

namespace Grows

lemma refl (doc) : Grows doc doc := ⟨Nat.le_refl _, fun _ _ => rfl⟩

lemma trans (left : Grows first second) (right : Grows second third) : Grows first third where
  size_le := Nat.le_trans left.size_le right.size_le
  shape := by
    intro id inside
    have further := Nat.lt_of_lt_of_le inside left.size_le
    rw [right.shape id further, left.shape id inside]

variable (grows : Grows before after)

include grows

lemma content (inside : id < before.size) : SameContent before after id := .of_shape (grows.shape id inside)

lemma parent (inside : id < before.size) : after.parent id = before.parent id := by
  rw [parent_eq_shape, parent_eq_shape, grows.shape id inside]

lemma treeAt (beforeWf : before.WellFormed) (afterWf : after.WellFormed)
    (inside : id < before.size) : after.treeAt id = before.treeAt id :=
  treeAt_congr beforeWf afterWf (fun id => id < before.size)
    (fun _ _ _ owned => beforeWf.owned_inside owned)
    (fun _ inside => grows.content inside) id inside

lemma ancestors (beforeWf : before.WellFormed) (afterWf : after.WellFormed)
    (inside : id < before.size) : after.ancestors id = before.ancestors id :=
  ancestors_congr beforeWf afterWf (fun _ => grows.parent) inside

end Grows

namespace Relinks

variable {owner : Nat} {children : List Nat} (relinks : Relinks before after owner children)

include relinks

lemma content (other : id ≠ owner) : SameContent before after id where
  kind := relinks.kind id
  position := relinks.position id
  attributes := relinks.attributes id
  children := relinks.children_other other

lemma treeAt_outside (beforeWf : before.WellFormed) (afterWf : after.WellFormed)
    (outside : id ∉ before.lineage owner) : after.treeAt id = before.treeAt id := by
  refine treeAt_congr beforeWf afterWf (fun id => id ∉ before.lineage owner) ?_ ?_ id outside
  · intro id notAbove below owned above
    exact notAbove (beforeWf.lineage_parent above (beforeWf.owned_iff.1 owned))
  · intro id notAbove
    refine relinks.content ?_
    intro same
    rw [same] at notAbove
    exact notAbove (before.self_lineage owner)

end Relinks

end PugTemplate.Document
