import Mathlib.Data.List.Basic
import PugTemplate.Document.Tree
import PugTemplate.Mixin.Expansion
import PugTemplate.Proofs.WellFormed

/-!
# Views of a document

The walks up and down a document are bounded by the size of its store. In a well-formed document
the bound is never met, so each walk satisfies the equation it is meant to satisfy.
-/

namespace PugTemplate

open List

namespace Tree

mutual

/-- A tree and all trees below it, each before its children. Attributes are not among them. -/
def descendants : Tree → List Tree
  | node kind position attributes children =>
    node kind position attributes children :: allDescendants children

def allDescendants : List Tree → List Tree
  | [] => []
  | tree :: more => tree.descendants ++ allDescendants more

end

lemma allDescendants_eq_flatMap : allDescendants trees = trees.flatMap descendants := by
  induction trees with
  | nil => rfl
  | cons tree more ih => simp [allDescendants, ih]

mutual

def decEq : (left right : Tree) → Decidable (left = right)
  | node kind position attributes children, node kind' position' attributes' children' =>
    have nodes : (kind = kind' ∧ position = position') ∧ attributes = attributes' ∧ children = children' ↔
          node kind position attributes children = node kind' position' attributes' children' := by
      rw [node.injEq, and_assoc]
    letI := decEqAll attributes attributes'
    letI := decEqAll children children'
    decidable_of_iff _ nodes

def decEqAll : (left right : List Tree) → Decidable (left = right)
  | [], [] => isTrue rfl
  | [], _ :: _ => isFalse (by simp)
  | _ :: _, [] => isFalse (by simp)
  | tree :: more, tree' :: more' =>
    have lists : tree = tree' ∧ more = more' ↔ tree :: more = tree' :: more' := by
      rw [List.cons.injEq]
    letI := decEq tree tree'
    letI := decEqAll more more'
    decidable_of_iff _ lists

end

instance : DecidableEq Tree :=
  decEq

mutual

/-- The tree with its positions as a view shows them. -/
def reposition (view : Position → Position) : Tree → Tree
  | node kind position attributes children =>
    node kind (view position) (repositionAll view attributes) (repositionAll view children)

def repositionAll (view : Position → Position) : List Tree → List Tree
  | [] => []
  | tree :: more => tree.reposition view :: repositionAll view more

end

lemma repositionAll_eq_map (view : Position → Position) :
    repositionAll view trees = trees.map (reposition view) := by
  induction trees with
  | nil => rfl
  | cons tree more ih => rw [repositionAll, ih, map_cons]

end Tree

namespace Document

variable {doc : Document} {id : Nat}

lemma ancestors_none (parent : doc.parent id = none) : doc.ancestors id = [] := by
  unfold ancestors
  cases doc.size with
  | zero => rfl
  | succ bound => simp only [ancestorsWithin, parent]

lemma root_attached (doc : Document) : doc.isAttached root := by
  simp [isAttached]

lemma not_attached (parent : doc.parent id = none) (notRoot : id ≠ root) : doc.isAttached id = false := by
  simp only [isAttached, ancestors_none parent]
  simpa using fun equal => notRoot equal.symm

lemma attached_parent (attached : doc.isAttached id) (notRoot : id ≠ root) :
    ∃ owner, doc.parent id = some owner := by
  cases parent : doc.parent id with
  | none =>
    rw [not_attached parent notRoot] at attached
    cases attached
  | some owner => exact ⟨owner, rfl⟩

namespace WellFormed

variable (wf : doc.WellFormed)

include wf

lemma not_root (kind : doc.kind id ≠ .document) : id ≠ root := by
  rintro rfl
  exact kind wf.root_kind

lemma placed (attached : doc.isAttached id) (kind : doc.kind id ≠ .document) :
    ∃ owner, doc.parent id = some owner :=
  attached_parent attached (wf.not_root kind)

lemma ancestorsWithin_stable (first second id) (enough : id ≤ first) (alsoEnough : id ≤ second) :
    ancestorsWithin first doc id = ancestorsWithin second doc id := by
  induction first generalizing second id with
  | zero =>
    have isRoot : id = root := Nat.le_zero.1 enough
    cases second with
    | zero => rfl
    | succ second => simp only [ancestorsWithin, isRoot, wf.root_parent]
  | succ first ih =>
    cases second with
    | zero =>
      have isRoot : id = root := Nat.le_zero.1 alsoEnough
      simp only [ancestorsWithin, isRoot, wf.root_parent]
    | succ second =>
      simp only [ancestorsWithin]
      cases parent : doc.parent id with
      | none => rfl
      | some owner =>
        have before := wf.ordered parent
        simp only [ih second owner (by omega) (by omega)]

variable {owner : Nat}

lemma ancestors_some (parent : doc.parent id = some owner) : doc.ancestors id = owner :: doc.ancestors owner := by
  have before := wf.ordered parent
  have inside := parent_inside parent
  unfold ancestors
  cases size : doc.size with
  | zero => omega
  | succ bound =>
    simp only [ancestorsWithin, parent]
    rw [wf.ancestorsWithin_stable bound (bound + 1) owner (by omega) (by omega)]
    simp only [ancestorsWithin]

lemma ancestors_before {above : Nat} (mem : above ∈ doc.ancestors id) : above < id := by
  induction id using wf.parent_induction with
  | step id ih =>
    cases parent : doc.parent id with
    | none =>
      rw [ancestors_none parent] at mem
      cases mem
    | some owner =>
      have before := wf.ordered parent
      rw [wf.ancestors_some parent] at mem
      rcases mem_cons.1 mem with same | higher
      · omega
      · have := ih owner parent higher
        omega

lemma attached_iff (parent : doc.parent id = some owner) : doc.isAttached id ↔ doc.isAttached owner := by
  have before := wf.ordered parent
  have notRoot : id ≠ root := Nat.ne_of_gt (Nat.lt_of_le_of_lt (Nat.zero_le _) before)
  simp only [isAttached, contains_iff_mem, wf.ancestors_some parent]
  rw [mem_cons]
  constructor
  · rintro (isRoot | above)
    · exact absurd isRoot.symm notRoot
    · exact above
  · exact .inr

lemma inMixin_iff (parent : doc.parent id = some owner) : doc.isInMixin id ↔
    (doc.kind owner).isMixin ∨ doc.isInMixin owner := by
  simp [isInMixin, wf.ancestors_some parent]

lemma root_live : doc.isLive root := by
  simp [isLive, root_attached, isInMixin, ancestors_none wf.root_parent]

lemma live_iff (parent : doc.parent id = some owner) : doc.isLive id ↔
    doc.isLive owner ∧ (doc.kind owner).isMixin = false := by
  have attached := wf.attached_iff parent
  have inMixin := wf.inMixin_iff parent
  simp only [isLive, Bool.and_eq_true, Bool.not_eq_true', ← Bool.not_eq_true, attached, inMixin, not_or]
  constructor
  · rintro ⟨isAttached, notMixin, notIn⟩
    exact ⟨⟨isAttached, notIn⟩, notMixin⟩
  · rintro ⟨⟨isAttached, notIn⟩, notMixin⟩
    exact ⟨isAttached, notMixin, notIn⟩

section Walk

variable (within : Nat → Nat → List Nat) {below : Nat → List Nat}
  (step : ∀ bound id, within (bound + 1) id = id :: (below id).flatMap (within bound))
  (further : ∀ {id next}, next ∈ below id → id < next ∧ next < doc.size)

include step further

omit wf

/-- A walk that lists a node and then all below it, for a number of levels, does not depend on that number
once it passes all nodes. -/
lemma within_stable (inside : id < doc.size) (enough : doc.size ≤ id + bound)
    (alsoEnough : doc.size ≤ id + bound') : within bound id = within bound' id := by
  induction bound generalizing bound' id with
  | zero => omega
  | succ bound ih =>
    cases bound' with
    | zero => omega
    | succ bound' =>
      rw [step, step]
      refine congrArg _ (flatMap_congr fun next mem => ?_)
      obtain ⟨after, nextInside⟩ := further mem
      exact ih nextInside (by omega) (by omega)

lemma within_eq (inside : 0 < doc.size) : within doc.size id = id :: (below id).flatMap (within doc.size) := by
  obtain ⟨bound, size⟩ := Nat.exists_eq_add_one.2 inside
  conv_lhs => rw [size, step]
  refine congrArg _ (flatMap_congr fun next mem => ?_)
  obtain ⟨after, nextInside⟩ := further mem
  exact within_stable within step further nextInside (by omega) (by omega)

end Walk

lemma descendants_eq : doc.descendants id = id :: (doc.children id).flatMap doc.descendants :=
  within_eq (descendantsWithin · doc) (fun _ _ => rfl)
    (fun mem => ⟨wf.child_after mem, wf.child_inside mem⟩) wf.inside_root

lemma preorder_eq : doc.preorder id = id :: (doc.node id).owned.flatMap doc.preorder :=
  within_eq (preorderWithin · doc) (fun _ _ => rfl)
    (fun mem => ⟨wf.ordered (wf.owned_iff.1 mem), wf.owned_inside mem⟩) wf.inside_root

lemma treeWithin_stable (first second id) (enough : doc.size ≤ id + first)
    (alsoEnough : doc.size ≤ id + second) : treeWithin first doc id = treeWithin second doc id := by
  have leaf : ∀ id : Nat, doc.size ≤ id → doc.children id = [] ∧ doc.attributes id = [] := by
    intro id beyond
    rw [children_eq_shape, attributes_eq_shape, doc.shape_beyond beyond]
    exact ⟨rfl, rfl⟩
  induction first generalizing second id with
  | zero =>
    have none := leaf id (by omega)
    cases second with
    | zero => rfl
    | succ second => simp [treeWithin, none.1, none.2]
  | succ first ih =>
    cases second with
    | zero =>
      have none := leaf id (by omega)
      simp [treeWithin, none.1, none.2]
    | succ second =>
      simp only [treeWithin, Tree.node.injEq, true_and]
      constructor
      · apply map_congr_left
        intro below mem
        have after := wf.ordered (wf.attribute_parent mem)
        exact ih second below (by omega) (by omega)
      · apply map_congr_left
        intro below mem
        have after := wf.child_after mem
        exact ih second below (by omega) (by omega)

lemma treeAt_eq (id) : doc.treeAt id = .node (doc.kind id) (doc.position id)
    ((doc.attributes id).map doc.treeAt) ((doc.children id).map doc.treeAt) :=
  wf.treeWithin_stable doc.size (doc.size + 1) id (by omega) (by omega)

lemma reposition_treeAt (view : Position → Position) (id) :
    (doc.treeAt id).reposition view = .node (doc.kind id) (view (doc.position id))
      ((doc.attributes id).map fun below => (doc.treeAt below).reposition view)
      ((doc.children id).map fun below => (doc.treeAt below).reposition view) := by
  rw [wf.treeAt_eq, Tree.reposition, Tree.repositionAll_eq_map, Tree.repositionAll_eq_map, map_map, map_map]
  rfl

lemma descendants_treeAt : (doc.descendants id).map doc.treeAt = (doc.treeAt id).descendants := by
  induction id using wf.owned_induction with
  | step id ih =>
    have below : ((doc.children id).flatMap doc.descendants).map doc.treeAt =
        Tree.allDescendants ((doc.children id).map doc.treeAt) := by
      rw [Tree.allDescendants_eq_flatMap, map_flatMap, flatMap_map]
      apply flatMap_congr
      intro child mem
      exact ih child (mem_append_right _ mem)
    rw [wf.descendants_eq, map_cons, below, wf.treeAt_eq id]
    rfl

end WellFormed

end Document

end PugTemplate
