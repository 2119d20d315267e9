import PugTemplate.Document.Builder
import PugTemplate.Proofs.Relinking

/-!
# New nodes

A created node stands alone at the end of the store. It becomes part of the tree as the last
child or the last attribute of another node.
-/

namespace PugTemplate

open List

/-- A node that has another one, as an attribute or as a child. -/
def Node.adopt (node : Node) (made : NodeKind) (id : NodeId) : Node :=
  if made.isAttribute then { node with attributes := node.attributes ++ [id] }
  else { node with children := node.children ++ [id] }

namespace Document

lemma empty_node (id) : empty.node id = Node.single .document .start := by
  by_cases first : id = 0
  · rw [first]
    rfl
  · exact node_beyond _ (Nat.one_le_iff_ne_zero.2 first)

lemma empty_well_formed : empty.WellFormed := by
  have owned : ∀ id, (empty.node id).owned = [] := by
    intro id
    rw [empty_node]
    rfl
  have parent : ∀ id, empty.parent id = none := by
    intro id
    rw [parent, empty_node]
    rfl
  have children : ∀ id, empty.children id = [] := by
    intro id
    rw [children, empty_node]
    rfl
  have attrs : ∀ id, empty.attributes id = [] := by
    intro id
    rw [attributes, empty_node]
    rfl
  constructor
  · rfl
  · decide
  · simp [owned, parent]
  · simp [parent]
  · simp [owned]
  · simp [attrs]
  · simp [children]
  · simp [children]
  · exact ⟨rfl, rfl, rfl, rfl⟩

section Create

variable {doc : Document} (kind : NodeKind) (pos : Position)

lemma create_size : (doc.create kind pos).1.size = doc.size + 1 := doc.size_push _

lemma create_shape (id) : (doc.create kind pos).1.shape id =
    if id = doc.size then Node.single kind pos else doc.shape id :=
  doc.shape_push _ id

lemma create_kind (id) : (doc.create kind pos).1.kind id =
    if id = doc.size then kind else doc.kind id :=
  kind_push _ id

lemma create_links (id) : (doc.create kind pos).1.parent id = doc.parent id ∧
    (doc.create kind pos).1.children id = doc.children id ∧
    (doc.create kind pos).1.attributes id = doc.attributes id := by
  simp only [parent_eq_shape, children_eq_shape, attributes_eq_shape, create_shape]
  by_cases last : id = doc.size
  · subst last
    rw [if_pos rfl, doc.shape_beyond (Nat.le_refl _)]
    exact ⟨rfl, rfl, rfl⟩
  · rw [if_neg last]
    exact ⟨rfl, rfl, rfl⟩

lemma WellFormed.create (wf : doc.WellFormed) : (doc.create kind pos).1.WellFormed := by
  have parents := fun id => (@create_links doc kind pos id).1
  have children := fun id => (@create_links doc kind pos id).2.1
  have attrs := fun id => (@create_links doc kind pos id).2.2
  have owned : ∀ id, ((doc.create kind pos).1.node id).owned = (doc.node id).owned := by
    intro id
    change (doc.create kind pos).1.attributes id ++ (doc.create kind pos).1.children id = _
    rw [children, attrs]
    rfl
  have oldKind : ∀ id, id < doc.size → (doc.create kind pos).1.kind id = doc.kind id := by
    intro id inside
    rw [create_kind, if_neg (Nat.ne_of_lt inside)]
  have noLinks : doc.children doc.size = [] := by
    rw [children_eq_shape, doc.shape_beyond (Nat.le_refl _)]
    rfl
  constructor
  · rw [oldKind root wf.inside_root]
    exact wf.root_kind
  · rw [create_size]
    exact Nat.succ_pos _
  · intro owner id
    rw [owned, parents]
    exact wf.owned_iff
  · intro owner id parent
    rw [parents] at parent
    exact wf.ordered parent
  · intro owner
    rw [owned]
    exact wf.distinct owner
  · intro owner id mem
    rw [attrs] at mem
    rw [oldKind id (parent_inside (wf.attribute_parent mem))]
    exact wf.attribute_kind mem
  · intro owner id mem
    rw [children] at mem
    rw [oldKind id (wf.child_inside mem)]
    exact wf.child_kind mem
  · intro id isAttribute
    rw [children]
    by_cases last : id = doc.size
    · rw [last]
      exact noLinks
    · rw [create_kind, if_neg last] at isAttribute
      exact wf.leaf isAttribute
  · exact wf.indexed.push _

end Create

/-- A document with one more node, which `owner` has behind its attributes or behind its children. -/
structure Gains (before after : Document) (owner : Nat) (made : NodeKind) (position : Position)
    (outer : Option Nat) : Prop where
  inside : owner < before.size
  fits : made.isAttribute = false → (before.kind owner).isAttribute = false
  index : SameIndex after (before.create made position).1
  node : ∀ id, after.node id =
    if id = before.size then ⟨made, some owner, outer, [], [], position, (before.node owner).level + 1⟩
    else if id = owner then (before.node id).adopt made before.size else before.node id

section Gains

variable {before after doc : Document} {owner id : Nat} {made : NodeKind} {pos : Position}
  {outer : Option Nat}

lemma push_attach_size (node : Node) : ((doc.push node).attach owner doc.size).size = doc.size + 1 :=
  (attach_same_index _ _ _).size.trans (doc.size_push node)

lemma push_attach_node (inside : owner < doc.size) (made pos id) :
    ((doc.push (Node.single made pos)).attach owner doc.size).node id =
      if id = doc.size then ⟨made, some owner, none, [], [], pos, (doc.node owner).level + 1⟩
      else doc.node id := by
  have notNew : owner ≠ doc.size := Nat.ne_of_lt inside
  have newInside : doc.size < (doc.push (Node.single made pos)).size := by
    rw [size_push]
    exact Nat.lt_succ_self _
  unfold attach relevel
  dsimp only
  rw [size_modify, size_push, relevelWithin, node_modify_same _ newInside, node_push, if_pos rfl]
  change ((modify _ _ _).modify _ _).node id = _
  rw [node_modify, node_modify_same _ newInside, node_modify_other _ notNew, size_modify, node_push, node_push,
    if_pos rfl, if_neg notNew]
  by_cases isNew : id = doc.size
  · rw [if_pos ⟨isNew, newInside⟩, if_pos isNew]
    rfl
  · rw [if_neg fun both => isNew both.1, if_neg isNew, node_modify_other _ isNew, node_push, if_neg isNew]

lemma append_gains (inside : owner < doc.size) (fits : (doc.kind owner).isAttribute = false)
    (newKind : made.isAttribute = false) (pos) :
    Gains doc (doc.append owner made pos).1 owner made pos none := by
  refine ⟨inside, fun _ => fits, (modify_same_index _ _ _).trans (attach_same_index _ _ _), fun id => ?_⟩
  change (modify _ _ _).node id = _
  rw [node_modify, push_attach_size, push_attach_node inside, push_attach_node inside, if_neg (Nat.ne_of_lt inside)]
  by_cases isOwner : id = owner
  · subst isOwner
    rw [if_pos ⟨rfl, Nat.lt_succ_of_lt inside⟩, if_neg (Nat.ne_of_lt inside), if_pos rfl, Node.adopt, newKind]
    rfl
  · rw [if_neg fun both => isOwner both.1, if_neg isOwner]

lemma append_attribute_gains (inside : owner < doc.size) (newKind : made.isAttribute)
    (pos) :
    Gains doc (doc.appendAttribute owner made pos).1 owner made pos (some owner) := by
  have notNew : owner ≠ doc.size := Nat.ne_of_lt inside
  refine ⟨inside, by simp [newKind], (modify_same_index _ _ _).trans ((modify_same_index _ _ _).trans
    (attach_same_index _ _ _)), fun id => ?_⟩
  change ((modify _ _ _).modify _ _).node id = _
  rw [node_modify, size_modify, push_attach_size, node_modify_other _ notNew, push_attach_node inside,
    if_neg notNew]
  by_cases isOwner : id = owner
  · subst isOwner
    rw [if_pos ⟨rfl, Nat.lt_succ_of_lt inside⟩, if_neg notNew, if_pos rfl, Node.adopt, newKind]
    rfl
  · rw [if_neg fun both => isOwner both.1, if_neg isOwner, node_modify, push_attach_size,
      push_attach_node inside, push_attach_node inside, if_pos rfl]
    by_cases isNew : id = doc.size
    · rw [if_pos ⟨isNew, Nat.lt_succ_self _⟩, if_pos isNew]
    · rw [if_neg fun both => isNew both.1, if_neg isNew, if_neg isNew]

namespace Gains

variable (gains : Gains before after owner made pos outer)

include gains

lemma modify_outer (outer') :
    Gains before (after.modify before.size fun node => { node with outer := outer' }) owner made pos
      outer' := by
  refine ⟨gains.inside, gains.fits, (modify_same_index _ _ _).trans gains.index, fun id => ?_⟩
  rw [node_modify, gains.index.size, create_size, gains.node, gains.node, if_pos rfl]
  by_cases isNew : id = before.size
  · rw [if_pos ⟨isNew, Nat.lt_succ_self _⟩, if_pos isNew]
  · rw [if_neg fun both => isNew both.1, if_neg isNew, if_neg isNew]

lemma size : after.size = before.size + 1 := gains.index.size.trans (create_size made pos)

lemma view {α : Type} (view : Node → α) (blind : ∀ node id, view (Node.adopt node made id) = view node)
    (id) : view (after.node id) = if id = before.size then
      view ⟨made, some owner, outer, [], [], pos, (before.node owner).level + 1⟩
      else view (before.node id) := by
  rw [gains.node]
  split
  · rfl
  · split
    · exact blind _ _
    · rfl

lemma kind (id) : after.kind id = if id = before.size then made else before.kind id :=
  gains.view Node.kind (by unfold Node.adopt; intros; split <;> rfl) id

lemma parent (id) : after.parent id = if id = before.size then some owner else before.parent id :=
  gains.view Node.parent (by unfold Node.adopt; intros; split <;> rfl) id

lemma position_eq (id) : after.position id = if id = before.size then pos else before.position id :=
  gains.view Node.position (by unfold Node.adopt; intros; split <;> rfl) id

lemma outer_eq (id) : (after.node id).outer = if id = before.size then outer else (before.node id).outer :=
  gains.view Node.outer (by unfold Node.adopt; intros; split <;> rfl) id

lemma level (id) : (after.node id).level =
    if id = before.size then (before.node owner).level + 1 else (before.node id).level :=
  gains.view Node.level (by unfold Node.adopt; intros; split <;> rfl) id

lemma links (id) : after.attributes id = before.attributes id ++
      (if id = owner ∧ made.isAttribute = true then [before.size] else []) ∧
    after.children id = before.children id ++
      (if id = owner ∧ made.isAttribute = false then [before.size] else []) := by
  rw [attributes, children, attributes, children, gains.node]
  by_cases isNew : id = before.size
  · have notOwner : id ≠ owner := isNew ▸ Nat.ne_of_gt gains.inside
    rw [if_pos isNew, before.node_beyond (Nat.le_of_eq isNew.symm), if_neg fun both => notOwner both.1,
      if_neg fun both => notOwner both.1]
    exact ⟨rfl, rfl⟩
  · rw [if_neg isNew]
    by_cases isOwner : id = owner
    · rw [Node.adopt]
      cases made.isAttribute <;> simp [isOwner]
    · simp [isOwner]

lemma children_other (notOwner : id ≠ owner) : after.children id = before.children id := by
  rw [(gains.links id).2, if_neg fun both => notOwner both.1, append_nil]

lemma owned_perm (other) : (after.node other).owned.Perm
    ((before.node other).owned ++ if other = owner then [before.size] else []) := by
  change (after.attributes other ++ after.children other).Perm
    ((before.attributes other ++ before.children other) ++ _)
  rw [(gains.links other).1, (gains.links other).2]
  by_cases isOwner : other = owner
  · cases made.isAttribute with
    | false => simp
    | true =>
      simp only [isOwner, Bool.true_eq_false, and_false, if_false, append_nil, append_assoc]
      exact List.Perm.append_left _ perm_append_comm
  · simp [isOwner]

lemma mem_owned : id ∈ (after.node other).owned ↔
    id ∈ (before.node other).owned ∨ other = owner ∧ id = before.size := by
  rw [(gains.owned_perm other).mem_iff]
  split <;> simp [*]

lemma owned (childless : made.isAttribute → before.children owner = []) (other) :
    (after.node other).owned = (before.node other).owned ++ if other = owner then [before.size] else [] := by
  change after.attributes other ++ after.children other = (before.attributes other ++ before.children other) ++ _
  rw [(gains.links other).1, (gains.links other).2]
  by_cases isOwner : other = owner
  · subst isOwner
    cases newKind : made.isAttribute with
    | false => simp
    | true => simp [childless newKind]
  · simp [isOwner]

lemma wellFormed (wf : before.WellFormed) : after.WellFormed where
  root_kind := by
    rw [gains.kind, if_neg (Nat.ne_of_lt wf.root_inside)]
    exact wf.root_kind
  inside_root := by
    rw [gains.size]
    exact Nat.succ_pos _
  owned_iff := by
    intro other id
    rw [gains.mem_owned, gains.parent, wf.owned_iff]
    by_cases isNew : id = before.size
    · have orphan : before.parent id = none := by
        rw [Document.parent, before.node_beyond (Nat.le_of_eq isNew.symm)]
        rfl
      simp [isNew ▸ orphan, isNew, eq_comm]
    · simp [isNew]
  ordered := by
    intro other id parent
    rw [gains.parent] at parent
    split at parent
    · rename_i isNew
      cases parent
      rw [isNew]
      exact gains.inside
    · exact wf.ordered parent
  distinct := by
    intro other
    rw [(gains.owned_perm other).nodup_iff, nodup_append]
    refine ⟨wf.distinct other, by split <;> simp, fun id owned new isNew => ?_⟩
    split at isNew
    · rw [mem_singleton.1 isNew]
      exact Nat.ne_of_lt (wf.owned_inside owned)
    · cases isNew
  attribute_kind := by
    intro other id mem
    rw [(gains.links other).1, mem_append] at mem
    rw [gains.kind]
    rcases mem with old | new
    · rw [if_neg (Nat.ne_of_lt (parent_inside (wf.attribute_parent old)))]
      exact wf.attribute_kind old
    · split at new
      · rename_i both
        rw [if_pos (mem_singleton.1 new)]
        exact both.2
      · cases new
  child_kind := by
    intro other id mem
    rw [(gains.links other).2, mem_append] at mem
    rw [gains.kind]
    rcases mem with old | new
    · rw [if_neg (Nat.ne_of_lt (wf.child_inside old))]
      exact wf.child_kind old
    · split at new
      · rename_i both
        rw [if_pos (mem_singleton.1 new)]
        exact both.2
      · cases new
  leaf := by
    intro id isAttribute
    rw [gains.kind] at isAttribute
    rw [(gains.links id).2]
    split at isAttribute
    · rename_i isNew
      have notOwner : id ≠ owner := isNew ▸ Nat.ne_of_gt gains.inside
      rw [if_neg fun both => notOwner both.1, children, before.node_beyond (Nat.le_of_eq isNew.symm)]
      rfl
    · rw [wf.leaf isAttribute, if_neg]
      · rfl
      · rintro ⟨rfl, isChild⟩
        rw [gains.fits isChild] at isAttribute
        cases isAttribute
  indexed := (wf.create made pos).indexed.transfer gains.index fun id =>
    (gains.kind id).trans (create_kind made pos id).symm

end Gains

end Gains

end Document

end PugTemplate
