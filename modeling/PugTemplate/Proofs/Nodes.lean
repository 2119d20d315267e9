import Mathlib.Tactic.Lemma
import PugTemplate.Document.Copy

/-!
# What the operations on documents do to nodes

Every operation is described by the nodes of the document it gives. Levels are left out: they
depend on the rest of the tree, and nothing but a listing reads them. The shape of a node is all
of it but its level.
-/

namespace PugTemplate

def Node.unlevelled (node : Node) : Node :=
  { node with level := 0 }

namespace Document

variable (doc : Document)

def shape (id : Nat) : Node :=
  (doc.node id).unlevelled

lemma kind_eq_shape (id) : doc.kind id = (doc.shape id).kind := rfl

lemma parent_eq_shape (id) : doc.parent id = (doc.shape id).parent := rfl

lemma children_eq_shape (id) : doc.children id = (doc.shape id).children := rfl

lemma attributes_eq_shape (id) : doc.attributes id = (doc.shape id).attributes := rfl

lemma position_eq_shape (id) : doc.position id = (doc.shape id).position := rfl

lemma owned_eq_shape (id) : (doc.node id).owned = (doc.shape id).owned := rfl

variable {id : Nat}

lemma node_beyond (beyond : doc.size ≤ id) : doc.node id = Node.single .document .start := by
  simp only [node, Array.getD_eq_getD_getElem?]
  rw [Array.getElem?_eq_none beyond]
  rfl

lemma shape_beyond (beyond : doc.size ≤ id) : doc.shape id = Node.single .document .start := by
  rw [shape, doc.node_beyond beyond]
  rfl

lemma inside_of_kind {doc : Document} {test : NodeKind → Bool} (passes : test (doc.kind id))
    (fails : test .document = false) : id < doc.size := by
  apply Nat.lt_of_not_le
  intro beyond
  rw [kind_eq_shape, doc.shape_beyond beyond] at passes
  exact Bool.false_ne_true (fails.symm.trans passes)

lemma node_modify (id) (change : Node → Node) : (doc.modify id change).node other =
    if other = id ∧ id < doc.size then change (doc.node id) else doc.node other := by
  simp only [node, modify, size, Array.getD_eq_getD_getElem?, Array.getElem?_modify]
  by_cases same : id = other
  · subst same
    by_cases inside : id < doc.nodes.size
    · simp [inside]
    · simp [inside]
  · have different : ¬ other = id := fun equal => same equal.symm
    simp [same, different]

lemma node_modify_same (inside : id < doc.size) (change : Node → Node) :
    (doc.modify id change).node id = change (doc.node id) := by
  rw [node_modify, if_pos ⟨rfl, inside⟩]

lemma node_modify_other (different : other ≠ id) (change : Node → Node) :
    (doc.modify id change).node other = doc.node other := by
  rw [node_modify, if_neg (fun both => different both.1)]

@[simp] lemma size_modify (id) (change : Node → Node) :
    (doc.modify id change).size = doc.size := by
  simp [modify, size]

/-- Two documents with as many nodes and with the same index lists. -/
structure SameIndex (left right : Document) : Prop where
  size : left.size = right.size
  blocks : left.blocks = right.blocks
  imports : left.imports = right.imports
  mixins : left.mixins = right.mixins
  calls : left.calls = right.calls

lemma SameIndex.refl : SameIndex doc doc := ⟨rfl, rfl, rfl, rfl, rfl⟩

lemma SameIndex.trans (left : SameIndex first second)
    (right : SameIndex second third) : SameIndex first third :=
  ⟨left.size.trans right.size, left.blocks.trans right.blocks, left.imports.trans right.imports,
    left.mixins.trans right.mixins, left.calls.trans right.calls⟩

lemma modify_same_index (id) (change : Node → Node) : SameIndex (doc.modify id change) doc :=
  ⟨doc.size_modify id change, rfl, rfl, rfl, rfl⟩

/-- Two documents that differ in nothing but levels. -/
structure Alike (left right : Document) : Prop where
  index : SameIndex left right
  shape : ∀ id, left.shape id = right.shape id

lemma Alike.refl : Alike doc doc := ⟨.refl doc, fun _ => rfl⟩

lemma Alike.trans (left : Alike first second) (right : Alike second third) : Alike first third :=
  ⟨left.index.trans right.index, fun id => (left.shape id).trans (right.shape id)⟩

lemma modify_level_alike (id level) : Alike (doc.modify id fun node => { node with level := level }) doc := by
  refine ⟨doc.modify_same_index id _, fun other => ?_⟩
  rw [shape, node_modify]
  split
  · rename_i both
    rw [both.1]
    rfl
  · rfl

lemma relevelWithin_alike (bound) : ∀ (doc : Document) (id : Nat) (level : Nat),
    Alike (relevelWithin bound doc id level) doc := by
  induction bound with
  | zero => exact fun doc _ _ => .refl doc
  | succ bound ih =>
    intro doc id level
    have fold : ∀ (ids : List Nat) (changed : Document),
        Alike (ids.foldl (fun changed child => relevelWithin bound changed child (level + 1))
          changed) changed := by
      intro ids
      induction ids with
      | nil => exact fun changed => .refl changed
      | cons child more inner =>
        intro changed
        exact (inner _).trans (ih changed child (level + 1))
    exact (fold _ _).trans (doc.modify_level_alike id level)

lemma relevel_alike (id level) : Alike (doc.relevel id level) doc := relevelWithin_alike doc.size doc id level

lemma modify_shape (inside : target < doc.size) (change : Node → Node)
    (levelless : ∀ node, (change node).unlevelled = change node.unlevelled) (id) :
    (doc.modify target change).shape id = if id = target then change (doc.shape id) else doc.shape id := by
  rw [shape, node_modify]
  by_cases same : id = target
  · rw [if_pos ⟨same, inside⟩, if_pos same, levelless, same]
    rfl
  · rw [if_neg (fun both => same both.1), if_neg same]
    rfl

lemma modify_parent_shape (inside : child < doc.size) (parent id) :
    (doc.modify child fun node => { node with parent := parent }).shape id =
      if id = child then { doc.shape id with parent := parent } else doc.shape id :=
  doc.modify_shape inside (fun node => { node with parent := parent }) (fun _ => rfl) id

lemma attach_same_index (parent child) : SameIndex (doc.attach parent child) doc :=
  (relevel_alike _ _ _).index.trans (doc.modify_same_index child _)

lemma attach_shape (inside : child < doc.size) (parent id) :
    (doc.attach parent child).shape id = if id = child then { doc.shape id with parent := some parent }
      else doc.shape id := by
  unfold attach
  rw [(relevel_alike _ _ _).shape id]
  exact doc.modify_parent_shape inside (some parent) id

lemma attachAll_same_index (parent ids) : SameIndex (doc.attachAll parent ids) doc := by
  induction ids generalizing doc with
  | nil => exact .refl doc
  | cons id more ih =>
    exact (ih (doc.attach parent id)).trans (doc.attach_same_index parent id)

lemma attachAll_shape (parent ids) (inside : ∀ id ∈ ids, id < doc.size) (id) :
    (doc.attachAll parent ids).shape id = if id ∈ ids then { doc.shape id with parent := some parent }
      else doc.shape id := by
  induction ids generalizing doc with
  | nil => simp [attachAll]
  | cons first more ih =>
    have firstInside : first < doc.size := inside first (by simp)
    have sameSize := (doc.attach_same_index parent first).size
    have moreInside : ∀ id ∈ more, id < (doc.attach parent first).size := by
      intro id mem
      rw [sameSize]
      exact inside id (by simp [mem])
    have step := ih (doc.attach parent first) moreInside
    rw [attachAll, List.foldl_cons, ← attachAll, step, doc.attach_shape firstInside]
    by_cases isFirst : id = first
    · subst isFirst
      simp
    · simp [isFirst]

/-- The links from children to their parent are cut. -/
def release (ids : List Nat) : Document :=
  ids.foldl (fun changed child => changed.modify child fun node => { node with parent := none })
    doc

lemma release_same_index (ids) : SameIndex (doc.release ids) doc := by
  induction ids generalizing doc with
  | nil => exact .refl doc
  | cons id more ih =>
    exact (ih (doc.modify id _)).trans (doc.modify_same_index id _)

lemma release_shape (ids) (inside : ∀ id ∈ ids, id < doc.size) (id) :
    (doc.release ids).shape id = if id ∈ ids then { doc.shape id with parent := none } else doc.shape id := by
  induction ids generalizing doc with
  | nil => simp [release]
  | cons first more ih =>
    have firstInside : first < doc.size := inside first (by simp)
    have moreInside : ∀ id ∈ more, id < (doc.modify first fun node => { node with parent := none }).size := by
      intro id mem
      rw [size_modify]
      exact inside id (by simp [mem])
    have step := ih _ moreInside
    rw [release, List.foldl_cons, ← release, step, doc.modify_parent_shape firstInside]
    by_cases isFirst : id = first
    · subst isFirst
      simp
    · simp [isFirst]

lemma modify_children_shape (inside : owner < doc.size) (change : List Nat → List Nat)
    (id) : (doc.modify owner fun node => { node with children := change node.children }).shape id =
      if id = owner then { doc.shape id with children := change (doc.children id) }
      else doc.shape id :=
  doc.modify_shape inside (fun node => { node with children := change node.children }) (fun _ => rfl) id

@[simp] lemma size_push (node) : (doc.push node).size = doc.size + 1 := by
  simp [push, size]

lemma node_push (node : Node) (id) : (doc.push node).node id = if id = doc.size then node else doc.node id := by
  simp only [Document.node, push, size, Array.getD_eq_getD_getElem?, Array.getElem?_push]
  by_cases last : id = doc.nodes.size
  · simp [last]
  · simp [last]

lemma shape_push (node id) : (doc.push node).shape id =
    if id = doc.size then node.unlevelled else doc.shape id := by
  rw [shape, node_push]
  split
  · rfl
  · rfl

end Document

end PugTemplate
