import PugTemplate.Proofs.Framing

/-!
# Copies of subtrees

A copy has its nodes at the end of the store, in the order of the subtree. Its tree is that of
the original, nothing that was there before changes, and the copy's root has no parent.
-/

namespace PugTemplate.Document

open List

section PushAll

variable (doc : Document) (nodes : List Node)

def pushAll : Document :=
  nodes.foldl push doc

lemma pushAll_cons (node) : doc.pushAll (node :: nodes) = (doc.push node).pushAll nodes := rfl

lemma pushAll_size : (doc.pushAll nodes).size = doc.size + nodes.length := by
  induction nodes generalizing doc with
  | nil => rfl
  | cons node more ih =>
    rw [pushAll_cons, ih, size_push, length_cons]
    omega

lemma pushAll_node_old {id} (inside : id < doc.size) : (doc.pushAll nodes).node id = doc.node id := by
  induction nodes generalizing doc with
  | nil => rfl
  | cons node more ih =>
    have further : id < (doc.push node).size := by
      rw [size_push]
      omega
    rw [pushAll_cons, ih (doc.push node) further, node_push, if_neg (Nat.ne_of_lt inside)]

lemma pushAll_shape_old {id} (inside : id < doc.size) : (doc.pushAll nodes).shape id = doc.shape id := by
  rw [shape, pushAll_node_old _ _ inside, shape]

lemma pushAll_shape_new {node} (found : nodes[index]? = some node) :
    (doc.pushAll nodes).shape (doc.size + index) = node.unlevelled := by
  induction nodes generalizing doc index with
  | nil => cases found
  | cons first more ih =>
    rw [pushAll_cons]
    cases index with
    | zero =>
      have same : first = node := by simpa using found
      have inside : doc.size < (doc.push first).size := by
        rw [size_push]
        omega
      rw [Nat.add_zero, pushAll_shape_old _ _ inside, shape_push, if_pos rfl, same]
    | succ index =>
      have later : more[index]? = some node := by simpa using found
      have step := ih (doc.push first) later
      rw [size_push] at step
      rw [← step]
      congr 1
      omega

lemma pushAll_indexed (indexed : doc.Indexed) : (doc.pushAll nodes).Indexed := by
  induction nodes generalizing doc with
  | nil => exact indexed
  | cons node more ih => exact ih (doc.push node) (indexed.push node)

end PushAll

lemma idxOf?_of_mem {ids : List Nat} {id} (mem : id ∈ ids) : ids.idxOf? id = some (ids.idxOf id) :=
  findIdx?_eq_some_of_exists ⟨id, mem, beq_self_eq_true id⟩

/-- The place of the copy of `old` when the subtree at `id` is copied to the end of `document`. -/
def copyPlace (doc source : Document) (id old : Nat) : Nat :=
  doc.size + (source.preorder id).idxOf old

section Graft

variable {doc source : Document} {id : Nat}

lemma rename_twice (node : Node) (order : List Nat) (base) :
    (node.rename order.idxOf?).rename (fun old => some (old + base)) =
      node.rename fun old => (order.idxOf? old).map (· + base) := by
  have option : ∀ link : Option Nat, (link.bind order.idxOf?).bind (fun old => some (old + base)) =
        link.bind fun old => (order.idxOf? old).map (· + base) := by
    intro link
    cases link with
    | none => rfl
    | some old =>
      simp only [Option.bind_some]
      cases order.idxOf? old with
      | none | some => rfl
  have list : ∀ links : List Nat, (links.filterMap order.idxOf?).filterMap (fun old => some (old + base)) =
        links.filterMap fun old => (order.idxOf? old).map (· + base) := by
    intro links
    rw [filterMap_filterMap]
    apply filterMap_congr
    intro old _
    cases order.idxOf? old with
    | none | some => rfl
  simp only [Node.rename, option, list]

lemma graft_alike : Alike (doc.graft (source.subtree id)).1
    (doc.pushAll ((source.preorder id).map fun old => (source.node old).rename
      fun link => ((source.preorder id).idxOf? link).map (· + doc.size))) := by
  have same : ((source.subtree id).nodes.foldl (fun changed node =>
      changed.push (node.rename fun old => some (old + doc.size))) doc) =
      doc.pushAll ((source.preorder id).map fun old => (source.node old).rename
        fun link => ((source.preorder id).idxOf? link).map (· + doc.size)) := by
    simp only [subtree, pushAll, foldl_map, rename_twice]
  rw [← same]
  exact relevel_alike _ _ _

lemma graft_size : (doc.graft (source.subtree id)).1.size = doc.size + (source.preorder id).length := by
  rw [graft_alike.index.size, pushAll_size, length_map]

lemma graft_grows : Grows doc (doc.graft (source.subtree id)).1 where
  size_le := by
    rw [graft_size]
    omega
  shape := by
    intro old inside
    rw [graft_alike.shape, pushAll_shape_old _ _ inside]

lemma graft_new (beyond : doc.size ≤ new) (inside : new < (doc.graft (source.subtree id)).1.size)
    (order : (source.preorder id).Nodup) :
    ∃ old ∈ source.preorder id, new = copyPlace doc source id old := by
  rw [graft_size] at inside
  have bound : new - doc.size < (source.preorder id).length := by omega
  refine ⟨(source.preorder id)[new - doc.size], getElem_mem bound, ?_⟩
  rw [copyPlace, order.idxOf_getElem]
  omega

variable {old : Nat}

lemma copyPlace_inside (mem : old ∈ source.preorder id) :
    copyPlace doc source id old < (doc.graft (source.subtree id)).1.size := by
  have bound := idxOf_lt_length_of_mem mem
  rw [graft_size, copyPlace]
  omega

lemma copyPlace_injective {first second : Nat} (firstMember : first ∈ source.preorder id)
    (secondMember : second ∈ source.preorder id)
    (same : copyPlace doc source id first = copyPlace doc source id second) : first = second := by
  have indices : (source.preorder id).idxOf first = (source.preorder id).idxOf second := by
    unfold copyPlace at same
    omega
  have firstBound := idxOf_lt_length_of_mem firstMember
  have secondBound := idxOf_lt_length_of_mem secondMember
  calc
    first = (source.preorder id)[(source.preorder id).idxOf first] := (getElem_idxOf firstBound).symm
    _ = (source.preorder id)[(source.preorder id).idxOf second] := by simp only [indices]
    _ = second := getElem_idxOf secondBound

namespace WellFormed

variable (sourceWf : source.WellFormed)

include sourceWf

section Copied

variable {old : Nat} (mem : old ∈ source.preorder id)

include mem

lemma renamed_owned (doc : Document) (links : List Nat)
    (owned : ∀ link ∈ links, link ∈ (source.node old).owned) :
    links.filterMap (fun link => ((source.preorder id).idxOf? link).map (· + doc.size)) =
      links.map (copyPlace doc source id) := by
  rw [← filterMap_eq_map]
  apply filterMap_congr
  intro link linkMember
  have inOrder := sourceWf.preorder_owned mem (owned link linkMember)
  simp [idxOf?_of_mem inOrder, copyPlace, Nat.add_comm]

lemma renamed_parent (doc) :
    ((source.parent old).bind fun link => ((source.preorder id).idxOf? link).map (· + doc.size)) =
      if old = id then none else (source.parent old).map (copyPlace doc source id) := by
  cases parent : source.parent old with
  | none => simp
  | some owner =>
    have before := sourceWf.ordered parent
    by_cases isRoot : old = id
    · have outside : owner ∉ source.preorder id := by
        intro inOrder
        have ge := sourceWf.preorder_ge inOrder
        omega
      rw [if_pos isRoot, Option.bind_some, idxOf?_eq_none_iff.2 outside]
      rfl
    · have above := sourceWf.mem_preorder_iff.1 mem
      have higher : id ∈ source.lineage owner := by
        rcases (sourceWf.mem_lineage_iff parent).1 above with same | higher
        · exact absurd same.symm isRoot
        · exact higher
      have inOrder := sourceWf.mem_preorder_iff.2 higher
      simp [isRoot, idxOf?_of_mem inOrder, copyPlace, Nat.add_comm]

lemma graft_shape_new : (doc.graft (source.subtree id)).1.shape (copyPlace doc source id old) =
      { kind := source.kind old
        parent := if old = id then none else (source.parent old).map (copyPlace doc source id)
        outer := (source.node old).outer.bind fun link =>
          ((source.preorder id).idxOf? link).map (· + doc.size)
        children := (source.children old).map (copyPlace doc source id)
        attributes := (source.attributes old).map (copyPlace doc source id)
        position := source.position old
        level := 0 } := by
  have bound := idxOf_lt_length_of_mem mem
  have found : ((source.preorder id).map fun old => (source.node old).rename
      fun link => ((source.preorder id).idxOf? link).map (· + doc.size))[ (source.preorder id).idxOf old]? =
      some ((source.node old).rename fun link => ((source.preorder id).idxOf? link).map (· + doc.size)) := by
    rw [getElem?_map, getElem?_eq_getElem bound, getElem_idxOf bound]
    rfl
  rw [graft_alike.shape, copyPlace, pushAll_shape_new _ _ found]
  have children := renamed_owned sourceWf mem doc
    (source.children old) (fun link child => mem_append_right _ child)
  have attrs := renamed_owned sourceWf mem doc
    (source.attributes old) (fun link owned => mem_append_left _ owned)
  have parent := renamed_parent sourceWf mem doc
  simp only [Node.rename, Node.unlevelled, Node.mk.injEq, true_and, and_true]
  exact ⟨rfl, parent, children, attrs, rfl⟩

lemma graft_kind_new : (doc.graft (source.subtree id)).1.kind (copyPlace doc source id old) = source.kind old := by
  rw [kind_eq_shape, sourceWf.graft_shape_new mem]

lemma graft_parent_new : (doc.graft (source.subtree id)).1.parent (copyPlace doc source id old) =
      if old = id then none else (source.parent old).map (copyPlace doc source id) := by
  rw [parent_eq_shape, sourceWf.graft_shape_new mem]

lemma graft_children_new : (doc.graft (source.subtree id)).1.children (copyPlace doc source id old) =
      (source.children old).map (copyPlace doc source id) := by
  rw [children_eq_shape, sourceWf.graft_shape_new mem]

lemma graft_attributes_new : (doc.graft (source.subtree id)).1.attributes (copyPlace doc source id old) =
      (source.attributes old).map (copyPlace doc source id) := by
  rw [attributes_eq_shape, sourceWf.graft_shape_new mem]

lemma graft_owned_new : ((doc.graft (source.subtree id)).1.node (copyPlace doc source id old)).owned =
      (source.node old).owned.map (copyPlace doc source id) := by
  change (doc.graft (source.subtree id)).1.attributes _ ++ (doc.graft (source.subtree id)).1.children _ = _
  rw [sourceWf.graft_attributes_new mem, sourceWf.graft_children_new mem, ← map_append]
  rfl

end Copied

variable {owner : Nat}

lemma graft_parent_some (beyond : doc.size ≤ new)
    (parent : (doc.graft (source.subtree id)).1.parent new = some owner) :
    ∃ old oldOwner, old ∈ source.preorder id ∧ oldOwner ∈ source.preorder id ∧
      source.parent old = some oldOwner ∧ new = copyPlace doc source id old ∧
      owner = copyPlace doc source id oldOwner := by
  obtain ⟨old, mem, same⟩ := graft_new beyond (parent_inside parent) sourceWf.preorder_distinct
  rw [same, sourceWf.graft_parent_new mem] at parent
  by_cases isRoot : old = id
  · rw [if_pos isRoot] at parent
    cases parent
  · rw [if_neg isRoot] at parent
    obtain ⟨oldOwner, oldParent, place⟩ := Option.map_eq_some_iff.1 parent
    have above := sourceWf.mem_preorder_iff.1 mem
    have higher : id ∈ source.lineage oldOwner := by
      rcases (sourceWf.mem_lineage_iff oldParent).1 above with equal | higher
      · exact absurd equal.symm isRoot
      · exact higher
    exact ⟨old, oldOwner, mem, sourceWf.mem_preorder_iff.2 higher, oldParent, same, place.symm⟩

lemma copyPlace_ordered (mem : old ∈ source.preorder id)
    (ownerMember : owner ∈ source.preorder id) (parent : source.parent old = some owner) :
    copyPlace doc source id owner < copyPlace doc source id old := by
  have bound := idxOf_lt_length_of_mem mem
  have ownerBound := idxOf_lt_length_of_mem ownerMember
  have different : (source.preorder id).idxOf owner ≠ (source.preorder id).idxOf old := by
    intro same
    have before := sourceWf.ordered parent
    have places : copyPlace doc source id owner = copyPlace doc source id old := by
      rw [copyPlace, copyPlace, same]
    have equal := copyPlace_injective ownerMember mem places
    omega
  have notAfter : ¬ (source.preorder id).idxOf old < (source.preorder id).idxOf owner := by
    intro after
    have pairwise := pairwise_iff_getElem.1 sourceWf.preorder_parents_first
      _ _ bound ownerBound after
    rw [getElem_idxOf bound, getElem_idxOf ownerBound] at pairwise
    exact pairwise parent
  unfold copyPlace
  omega

lemma graft_owned_iff (wf : doc.WellFormed) {below : Nat} :
    below ∈ ((doc.graft (source.subtree id)).1.node owner).owned ↔
      (doc.graft (source.subtree id)).1.parent below = some owner := by
  have grows := @graft_grows doc source id
  have oldOwned : ∀ {other : Nat}, other < doc.size →
      ((doc.graft (source.subtree id)).1.node other).owned = (doc.node other).owned := by
    intro other otherInside
    rw [owned_eq_shape, owned_eq_shape, grows.shape other otherInside]
  constructor
  · intro owned
    by_cases ownerOld : owner < doc.size
    · rw [oldOwned ownerOld] at owned
      rw [grows.parent (wf.owned_inside owned)]
      exact wf.owned_iff.1 owned
    · by_cases ownerInside : owner < (doc.graft (source.subtree id)).1.size
      · obtain ⟨old, mem, same⟩ := graft_new (Nat.le_of_not_lt ownerOld) ownerInside
          sourceWf.preorder_distinct
        rw [same, sourceWf.graft_owned_new mem] at owned
        obtain ⟨oldBelow, oldOwned, place⟩ := mem_map.1 owned
        have parent := sourceWf.owned_iff.1 oldOwned
        have after := sourceWf.ordered parent
        have ge := sourceWf.preorder_ge mem
        have notRoot : oldBelow ≠ id := by omega
        rw [← place, sourceWf.graft_parent_new
          (sourceWf.preorder_owned mem oldOwned), if_neg notRoot, parent, same]
        rfl
      · rw [owned_eq_shape, shape_beyond _ (Nat.le_of_not_lt ownerInside)] at owned
        cases owned
  · intro parent
    by_cases belowOld : below < doc.size
    · rw [grows.parent belowOld] at parent
      have before := wf.ordered parent
      rw [oldOwned (by omega)]
      exact wf.owned_iff.2 parent
    · obtain ⟨old, oldOwner, mem, ownerMember, oldParent, belowPlace, ownerPlace⟩ :=
        sourceWf.graft_parent_some (Nat.le_of_not_lt belowOld) parent
      rw [belowPlace, ownerPlace, sourceWf.graft_owned_new ownerMember]
      exact mem_map_of_mem (sourceWf.owned_iff.2 oldParent)

lemma graft_places (place) : place < doc.size ∨ (∃ old ∈ source.preorder id, place = copyPlace doc source id old) ∨
    (doc.graft (source.subtree id)).1.size ≤ place := by
  have order := @sourceWf.preorder_distinct
  by_cases isOld : place < doc.size
  · exact .inl isOld
  · by_cases isInside : place < (doc.graft (source.subtree id)).1.size
    · exact .inr (.inl (graft_new (Nat.le_of_not_lt isOld) isInside order))
    · exact .inr (.inr (Nat.le_of_not_lt isInside))

lemma graft_ordered (wf : doc.WellFormed) {below}
    (parent : (doc.graft (source.subtree id)).1.parent below = some owner) : owner < below := by
  by_cases belowOld : below < doc.size
  · rw [graft_grows.parent belowOld] at parent
    exact wf.ordered parent
  · obtain ⟨old, oldOwner, mem, ownerMember, oldParent, belowPlace, ownerPlace⟩ :=
      sourceWf.graft_parent_some (Nat.le_of_not_lt belowOld) parent
    rw [belowPlace, ownerPlace]
    exact sourceWf.copyPlace_ordered mem ownerMember oldParent

lemma graft_distinct (wf : doc.WellFormed) (owner) :
    ((doc.graft (source.subtree id)).1.node owner).owned.Nodup := by
  rcases sourceWf.graft_places owner with isOld | ⟨old, mem, same⟩ | beyond
  · rw [owned_eq_shape, graft_grows.shape owner isOld]
    exact wf.distinct owner
  · rw [same, sourceWf.graft_owned_new mem]
    refine pairwise_map.2 ((sourceWf.distinct old).imp_of_mem ?_)
    intro first second firstOwned secondOwned different equal
    exact different (copyPlace_injective (sourceWf.preorder_owned mem firstOwned)
      (sourceWf.preorder_owned mem secondOwned) equal)
  · rw [owned_eq_shape, shape_beyond _ beyond]
    exact nodup_nil

lemma graft_leaf (wf : doc.WellFormed)
    (isAttribute : ((doc.graft (source.subtree id)).1.kind place).isAttribute) :
    (doc.graft (source.subtree id)).1.children place = [] := by
  rcases sourceWf.graft_places place with isOld | ⟨old, mem, same⟩ | beyond
  · rw [(graft_grows.content isOld).kind] at isAttribute
    rw [(graft_grows.content isOld).children]
    exact wf.leaf isAttribute
  · rw [same, sourceWf.graft_kind_new mem] at isAttribute
    rw [same, sourceWf.graft_children_new mem, sourceWf.leaf isAttribute]
    rfl
  · rw [children_eq_shape, shape_beyond _ beyond]
    rfl

lemma graft_well_formed (wf : doc.WellFormed) : (doc.graft (source.subtree id)).1.WellFormed where
  root_kind := (graft_grows.content wf.inside_root).kind.trans wf.root_kind
  inside_root := Nat.lt_of_lt_of_le wf.inside_root graft_grows.size_le
  owned_iff := sourceWf.graft_owned_iff wf
  ordered := sourceWf.graft_ordered wf
  distinct := sourceWf.graft_distinct wf
  attribute_kind := by
    intro owner below owned
    rcases sourceWf.graft_places owner with isOld | ⟨old, mem, same⟩ | beyond
    · rw [(graft_grows.content isOld).attributes] at owned
      rw [(graft_grows.content (parent_inside (wf.attribute_parent owned))).kind]
      exact wf.attribute_kind owned
    · rw [same, sourceWf.graft_attributes_new mem] at owned
      obtain ⟨oldBelow, oldOwned, place⟩ := mem_map.1 owned
      have belowMember := sourceWf.preorder_owned mem (mem_append_left _ oldOwned)
      rw [← place, sourceWf.graft_kind_new belowMember]
      exact sourceWf.attribute_kind oldOwned
    · rw [attributes_eq_shape, shape_beyond _ beyond] at owned
      cases owned
  child_kind := by
    intro owner below owned
    rcases sourceWf.graft_places owner with isOld | ⟨old, mem, same⟩ | beyond
    · rw [(graft_grows.content isOld).children] at owned
      rw [(graft_grows.content (wf.child_inside owned)).kind]
      exact wf.child_kind owned
    · rw [same, sourceWf.graft_children_new mem] at owned
      obtain ⟨oldBelow, oldOwned, place⟩ := mem_map.1 owned
      have belowMember := sourceWf.preorder_owned mem (mem_append_right _ oldOwned)
      rw [← place, sourceWf.graft_kind_new belowMember]
      exact sourceWf.child_kind oldOwned
    · rw [children_eq_shape, shape_beyond _ beyond] at owned
      cases owned
  leaf := sourceWf.graft_leaf wf
  indexed := by
    have same := @graft_alike doc source id
    apply (pushAll_indexed _ _ wf.indexed).transfer same.index
    intro place
    rw [kind_eq_shape, kind_eq_shape, same.shape]

lemma graft_position_new (mem : old ∈ source.preorder id) :
    (doc.graft (source.subtree id)).1.position (copyPlace doc source id old) = source.position old := by
  rw [position_eq_shape, sourceWf.graft_shape_new mem]

lemma graft_treeAt_new (wf : doc.WellFormed) (mem : old ∈ source.preorder id) :
    (doc.graft (source.subtree id)).1.treeAt (copyPlace doc source id old) = source.treeAt old := by
  refine treeAt_moved sourceWf (sourceWf.graft_well_formed wf) (· ∈ source.preorder id)
    (fun _ mem _ => sourceWf.preorder_owned mem) (copyPlace doc source id) (fun _ mem => ?_) old mem
  exact ⟨sourceWf.graft_kind_new mem, sourceWf.graft_position_new mem, sourceWf.graft_attributes_new mem,
    sourceWf.graft_children_new mem⟩

lemma copyPlace_root : copyPlace doc source id id = doc.size := by
  rw [copyPlace, sourceWf.preorder_eq, idxOf_cons_self, Nat.add_zero]

end WellFormed

end Graft

end PugTemplate.Document
