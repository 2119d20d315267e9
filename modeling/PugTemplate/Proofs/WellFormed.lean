import PugTemplate.Proofs.Nodes

/-!
# Well-formed documents

In a well-formed document owners and parents agree, every owner stands before what it owns, and
the index lists name the nodes of their kind in order. This is asked of the whole store and not
only of the tree, so it is also kept for nodes that were removed from the tree.
-/

namespace PugTemplate

open List

/-- An attribute or an assignment: a node that is owned without being a child. -/
def NodeKind.isAttribute : NodeKind → Bool
  | attr _ | assignment _ => true
  | _ => false

namespace Document

def listed (doc : Document) (test : NodeKind → Bool) : List Nat :=
  (List.range doc.size).filter fun id => test (doc.kind id)

/-- The index lists name exactly the nodes of their kind. -/
structure Indexed (doc : Document) : Prop where
  blocks : doc.blocks = doc.listed NodeKind.isBlock
  imports : doc.imports = doc.listed NodeKind.isImport
  mixins : doc.mixins = doc.listed NodeKind.isMixin
  calls : doc.calls = doc.listed NodeKind.isCall

structure WellFormed (doc : Document) : Prop where
  root_kind : doc.kind root = .document
  inside_root : 0 < doc.size
  owned_iff : ∀ {owner id : Nat}, id ∈ (doc.node owner).owned ↔ doc.parent id = some owner
  ordered : ∀ {owner id : Nat}, doc.parent id = some owner → owner < id
  distinct : ∀ owner : Nat, (doc.node owner).owned.Nodup
  attribute_kind : ∀ {owner id : Nat}, id ∈ doc.attributes owner → (doc.kind id).isAttribute = true
  child_kind : ∀ {owner id : Nat}, id ∈ doc.children owner → (doc.kind id).isAttribute = false
  leaf : ∀ {id : Nat}, (doc.kind id).isAttribute → doc.children id = []
  indexed : doc.Indexed

variable {doc : Document} {owner id : Nat}

lemma parent_inside (parent : doc.parent id = some owner) : id < doc.size := by
  by_cases inside : id < doc.size
  · exact inside
  · rw [parent_eq_shape, doc.shape_beyond (Nat.le_of_not_lt inside)] at parent
    cases parent

lemma mem_listed : id ∈ doc.listed test ↔ id < doc.size ∧ test (doc.kind id) := by
  simp [listed]

lemma listed_sorted (doc : Document) (test : NodeKind → Bool) : (doc.listed test).Pairwise (· < ·) :=
  List.Pairwise.filter _ pairwise_lt_range

lemma listed_congr {left right : Document} (size : left.size = right.size)
    (kind : ∀ id, left.kind id = right.kind id) (test : NodeKind → Bool) :
    left.listed test = right.listed test := by
  simp only [listed, size, kind]

lemma Indexed.transfer {before after : Document} (indexed : before.Indexed)
    (same : SameIndex after before) (kind : ∀ id, after.kind id = before.kind id) : after.Indexed where
  blocks := by rw [same.blocks, indexed.blocks, listed_congr same.size kind]
  imports := by rw [same.imports, indexed.imports, listed_congr same.size kind]
  mixins := by rw [same.mixins, indexed.mixins, listed_congr same.size kind]
  calls := by rw [same.calls, indexed.calls, listed_congr same.size kind]

lemma kind_push (node : Node) (id) : (doc.push node).kind id =
    if id = doc.size then node.kind else doc.kind id := by
  rw [kind, node_push]
  split
  · rfl
  · rfl

lemma listed_push (node : Node) (test : NodeKind → Bool) : (doc.push node).listed test =
    if test node.kind then doc.listed test ++ [doc.size] else doc.listed test := by
  have earlier : ∀ id ∈ List.range doc.size, test ((doc.push node).kind id) = test (doc.kind id) := by
    intro id mem
    rw [kind_push, if_neg (Nat.ne_of_lt (mem_range.1 mem))]
  have last : (doc.push node).kind doc.size = node.kind := by
    rw [kind_push, if_pos rfl]
  unfold listed
  rw [size_push, range_succ, filter_append, filter_congr earlier]
  cases passes : test node.kind with
  | true | false => simp [last, passes]

lemma Indexed.push (indexed : doc.Indexed) (node : Node) : (doc.push node).Indexed where
  blocks := by rw [listed_push, ← indexed.blocks]; rfl
  imports := by rw [listed_push, ← indexed.imports]; rfl
  mixins := by rw [listed_push, ← indexed.mixins]; rfl
  calls := by rw [listed_push, ← indexed.calls]; rfl

namespace WellFormed

variable (wf : doc.WellFormed)

include wf

lemma child_parent (child : id ∈ doc.children owner) : doc.parent id = some owner :=
  wf.owned_iff.1 (mem_append_right _ child)

lemma attribute_parent (owned : id ∈ doc.attributes owner) : doc.parent id = some owner :=
  wf.owned_iff.1 (mem_append_left _ owned)

lemma owned_inside (owned : id ∈ (doc.node owner).owned) : id < doc.size := parent_inside (wf.owned_iff.1 owned)

lemma child_inside (child : id ∈ doc.children owner) : id < doc.size := parent_inside (wf.child_parent child)

lemma child_after (child : id ∈ doc.children owner) : owner < id := wf.ordered (wf.child_parent child)

lemma root_inside : root < doc.size := wf.inside_root

lemma root_parent : doc.parent root = none := by
  cases parent : doc.parent root with
  | none => rfl
  | some owner => exact absurd (wf.ordered parent) (Nat.not_lt_zero owner)

lemma children_distinct (owner) : (doc.children owner).Nodup := (nodup_append.1 (wf.distinct owner)).2.1

lemma child_of_parent (parent : doc.parent id = some owner)
    (kind : (doc.kind id).isAttribute = false) : id ∈ doc.children owner := by
  have owned := wf.owned_iff.2 parent
  rcases mem_append.1 owned with asAttribute | child
  · have kindTrue := wf.attribute_kind asAttribute
    rw [kind] at kindTrue
    cases kindTrue
  · exact child

lemma parent_no_attribute (parent : doc.parent id = some owner)
    (kind : (doc.kind id).isAttribute = false) : (doc.kind owner).isAttribute = false := by
  have child := wf.child_of_parent parent kind
  cases ownerKind : (doc.kind owner).isAttribute with
  | false => rfl
  | true =>
    rw [wf.leaf ownerKind] at child
    cases child

lemma owned_induction {prop : Nat → Prop}
    (step : ∀ id, (∀ below ∈ (doc.node id).owned, prop below) → prop id) (id) : prop id := by
  have bounded : ∀ bound id, doc.size - id ≤ bound → prop id := by
    intro bound
    induction bound with
    | zero =>
      intro id beyond
      apply step
      intro below owned
      have inside := wf.owned_inside owned
      have after := wf.ordered (wf.owned_iff.1 owned)
      omega
    | succ bound ih =>
      intro id near
      apply step
      intro below owned
      have after := wf.ordered (wf.owned_iff.1 owned)
      exact ih below (by omega)
  exact bounded (doc.size - id) id (Nat.le_refl _)

lemma parent_induction {prop : Nat → Prop}
    (step : ∀ id, (∀ owner, doc.parent id = some owner → prop owner) → prop id) (id) : prop id := by
  induction id using Nat.strongRecOn with
  | ind id ih =>
    apply step
    intro owner parent
    exact ih owner (wf.ordered parent)

lemma transfer {after} (index : SameIndex after doc)
    (parent : ∀ id, after.parent id = doc.parent id) (children : ∀ id, after.children id = doc.children id)
    (attrs : ∀ id, after.attributes id = doc.attributes id) (rootKind : after.kind root = .document)
    (isAttribute : ∀ id, (after.kind id).isAttribute = (doc.kind id).isAttribute)
    (isBlock : ∀ id, (after.kind id).isBlock = (doc.kind id).isBlock)
    (isImport : ∀ id, (after.kind id).isImport = (doc.kind id).isImport)
    (isMixin : ∀ id, (after.kind id).isMixin = (doc.kind id).isMixin)
    (isCall : ∀ id, (after.kind id).isCall = (doc.kind id).isCall) : after.WellFormed := by
  have owned : ∀ id, (after.node id).owned = (doc.node id).owned := by
    intro id
    change after.attributes id ++ after.children id = _
    rw [attrs, children]
    rfl
  have listed : ∀ test : NodeKind → Bool, (∀ id, test (after.kind id) = test (doc.kind id)) →
        after.listed test = doc.listed test := by
    intro test same
    simp only [Document.listed, index.size, same]
  constructor
  · exact rootKind
  · rw [index.size]
    exact wf.inside_root
  · intro owner id
    rw [owned, parent]
    exact wf.owned_iff
  · intro owner id link
    rw [parent] at link
    exact wf.ordered link
  · intro owner
    rw [owned]
    exact wf.distinct owner
  · intro owner id mem
    rw [attrs] at mem
    rw [isAttribute]
    exact wf.attribute_kind mem
  · intro owner id mem
    rw [children] at mem
    rw [isAttribute]
    exact wf.child_kind mem
  · intro id kind
    rw [isAttribute] at kind
    rw [children]
    exact wf.leaf kind
  · constructor
    · rw [index.blocks, wf.indexed.blocks, listed _ isBlock]
    · rw [index.imports, wf.indexed.imports, listed _ isImport]
    · rw [index.mixins, wf.indexed.mixins, listed _ isMixin]
    · rw [index.calls, wf.indexed.calls, listed _ isCall]

end WellFormed

end Document

end PugTemplate
