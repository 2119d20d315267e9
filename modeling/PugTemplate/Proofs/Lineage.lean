import Mathlib.Data.List.Flatten
import PugTemplate.Proofs.Views

/-!
# Lineages

The lineage of a node is the node with all above it. It says what lies below a node: exactly the
nodes that have it in their lineage. The subtrees of two siblings have nothing in common.
-/

namespace PugTemplate.Document

open List

def lineage (doc : Document) (id : Nat) : List Nat :=
  id :: doc.ancestors id

lemma self_lineage (doc : Document) (id) : id ∈ doc.lineage id := mem_cons_self

namespace WellFormed

variable {doc : Document} (wf : doc.WellFormed)

include wf

variable {owner id above first second below : Nat}

lemma lineage_some (parent : doc.parent id = some owner) : doc.lineage id = id :: doc.lineage owner := by
  rw [lineage, wf.ancestors_some parent, lineage]

lemma mem_lineage_iff (parent : doc.parent id = some owner) :
    above ∈ doc.lineage id ↔ above = id ∨ above ∈ doc.lineage owner := by
  rw [wf.lineage_some parent, mem_cons]

lemma lineage_le (mem : above ∈ doc.lineage id) : above ≤ id := by
  rcases mem_cons.1 mem with same | higher
  · exact Nat.le_of_eq same
  · exact Nat.le_of_lt (wf.ancestors_before higher)

/-- What passes from every node to its parent passes to all above it. -/
lemma lineage_up (prop : Nat → Prop) (step : ∀ {id owner}, doc.parent id = some owner → prop id → prop owner)
    (mem : above ∈ doc.lineage id) (holds : prop id) : prop above := by
  induction id using wf.parent_induction with
  | step id ih =>
    cases parent : doc.parent id with
    | none =>
      rw [lineage, ancestors_none parent, mem_singleton] at mem
      exact mem ▸ holds
    | some owner =>
      rcases (wf.mem_lineage_iff parent).1 mem with same | higher
      · exact same ▸ holds
      · exact ih owner parent higher (step parent holds)

/-- What passes from every node to what it owns passes to all below it. -/
lemma lineage_down (prop : Nat → Prop) (step : ∀ {id owner}, doc.parent id = some owner → prop owner → prop id)
    (mem : above ∈ doc.lineage id) : prop above → prop id :=
  wf.lineage_up (prop · → prop id) (fun parent below above => below (step parent above)) mem fun holds => holds

lemma lineage_trans (higher : above ∈ doc.lineage id) (lower : id ∈ doc.lineage below) :
    above ∈ doc.lineage below :=
  wf.lineage_down (above ∈ doc.lineage ·) (fun parent mem => (wf.mem_lineage_iff parent).2 (.inr mem)) lower higher

lemma lineage_parent (mem : above ∈ doc.lineage id) (parent : doc.parent above = some owner) :
    owner ∈ doc.lineage id :=
  wf.lineage_trans ((wf.mem_lineage_iff parent).2 (.inr (doc.self_lineage owner))) mem

/-- Of two nodes above a third one lies above the other. -/
lemma lineage_total (firstAbove : first ∈ doc.lineage id) (secondAbove : second ∈ doc.lineage id) :
    first ∈ doc.lineage second ∨ second ∈ doc.lineage first := by
  refine wf.lineage_up (fun first => first ∈ doc.lineage second ∨ second ∈ doc.lineage first) ?_
    firstAbove (.inr secondAbove)
  intro below owner parent related
  rcases related with below | above
  · exact .inl (wf.lineage_parent below parent)
  · rcases (wf.mem_lineage_iff parent).1 above with rfl | higher
    · exact .inl (wf.lineage_parent (doc.self_lineage _) parent)
    · exact .inr higher

lemma lineage_unique (firstAbove : first ∈ doc.lineage id)
    (secondAbove : second ∈ doc.lineage id) (firstParent : doc.parent first = some owner)
    (secondParent : doc.parent second = some owner) : first = second := by
  have apart : ∀ {above below}, doc.parent above = some owner → doc.parent below = some owner →
      above ∈ doc.lineage below → above = below := by
    intro above below aboveParent belowParent mem
    refine ((wf.mem_lineage_iff belowParent).1 mem).resolve_right fun higher => ?_
    exact absurd (wf.lineage_le higher) (Nat.not_le_of_lt (wf.ordered aboveParent))
  rcases wf.lineage_total firstAbove secondAbove with above | below
  · exact apart firstParent secondParent above
  · exact (apart secondParent firstParent below).symm

lemma orphan_unique (firstAbove : first ∈ doc.lineage below)
    (secondAbove : second ∈ doc.lineage below) (firstOrphan : doc.parent first = none)
    (secondOrphan : doc.parent second = none) : first = second := by
  have related := wf.lineage_total firstAbove secondAbove
  simp only [lineage, ancestors_none firstOrphan, ancestors_none secondOrphan, mem_singleton] at related
  exact related.elim id Eq.symm

lemma lineage_no_attribute (kind : (doc.kind id).isAttribute = false)
    (mem : above ∈ doc.lineage id) : (doc.kind above).isAttribute = false :=
  wf.lineage_up (fun id => (doc.kind id).isAttribute = false) wf.parent_no_attribute mem kind

lemma self_preorder : id ∈ doc.preorder id := by
  rw [wf.preorder_eq]
  exact mem_cons_self

lemma preorder_owned (mem : above ∈ doc.preorder id)
    (owned : below ∈ (doc.node above).owned) : below ∈ doc.preorder id := by
  induction id using wf.owned_induction with
  | step id ih =>
    rw [wf.preorder_eq, mem_cons, mem_flatMap] at mem ⊢
    rcases mem with same | ⟨middle, middleOwned, further⟩
    · rw [same] at owned
      exact .inr ⟨below, owned, wf.self_preorder⟩
    · exact .inr ⟨middle, middleOwned, ih middle middleOwned further⟩

lemma mem_preorder_iff : below ∈ doc.preorder id ↔ id ∈ doc.lineage below := by
  constructor
  · intro mem
    induction id using wf.owned_induction with
    | step id ih =>
      rw [wf.preorder_eq, mem_cons, mem_flatMap] at mem
      rcases mem with same | ⟨middle, middleOwned, further⟩
      · rw [same]
        exact doc.self_lineage id
      · have above := ih middle middleOwned further
        exact wf.lineage_parent above (wf.owned_iff.1 middleOwned)
  · intro above
    refine wf.lineage_down (· ∈ doc.preorder id) ?_ above wf.self_preorder
    exact fun parent mem => wf.preorder_owned mem (wf.owned_iff.2 parent)

lemma preorder_inside (inside : id < doc.size) (mem : below ∈ doc.preorder id) : below < doc.size :=
  wf.lineage_down (· < doc.size) (fun parent _ => parent_inside parent) (wf.mem_preorder_iff.1 mem) inside

lemma preorder_ge (mem : below ∈ doc.preorder id) : id ≤ below := wf.lineage_le (wf.mem_preorder_iff.1 mem)

lemma siblings_disjoint (firstOwned : first ∈ (doc.node owner).owned)
    (secondOwned : second ∈ (doc.node owner).owned) (inFirst : below ∈ doc.preorder first)
    (inSecond : below ∈ doc.preorder second) : first = second := by
  have firstAbove := wf.mem_preorder_iff.1 inFirst
  have secondAbove := wf.mem_preorder_iff.1 inSecond
  exact wf.lineage_unique firstAbove secondAbove (wf.owned_iff.1 firstOwned) (wf.owned_iff.1 secondOwned)

lemma preorder_distinct : (doc.preorder id).Nodup := by
  induction id using wf.owned_induction with
  | step id ih =>
    rw [wf.preorder_eq, nodup_cons]
    constructor
    · intro mem
      obtain ⟨middle, middleOwned, further⟩ := mem_flatMap.1 mem
      have below := wf.preorder_ge further
      have after := wf.ordered (wf.owned_iff.1 middleOwned)
      omega
    · refine pairwise_flatMap.2 ⟨?_, ?_⟩
      · intro middle middleOwned
        exact ih middle middleOwned
      · refine (wf.distinct id).imp_of_mem ?_
        intro first second firstOwned secondOwned different below inFirst other inSecond same
        rw [same] at inFirst
        exact different (wf.siblings_disjoint firstOwned secondOwned inFirst inSecond)

lemma preorder_parents_first : (doc.preorder id).Pairwise fun first second => doc.parent first ≠ some second := by
  induction id using wf.owned_induction with
  | step id ih =>
    rw [wf.preorder_eq]
    constructor
    · intro below mem parent
      obtain ⟨middle, middleOwned, further⟩ := mem_flatMap.1 mem
      have ge := wf.preorder_ge further
      have after := wf.ordered (wf.owned_iff.1 middleOwned)
      have before := wf.ordered parent
      omega
    · refine pairwise_flatMap.2 ⟨?_, ?_⟩
      · intro middle middleOwned
        exact ih middle middleOwned
      · refine (wf.distinct id).imp_of_mem ?_
        intro first second firstOwned secondOwned different below inFirst other inSecond parent
        have inSecondToo := wf.preorder_owned inSecond (wf.owned_iff.2 parent)
        exact different (wf.siblings_disjoint firstOwned secondOwned inFirst inSecondToo)

lemma self_descendants : id ∈ doc.descendants id := by
  rw [wf.descendants_eq]
  exact mem_cons_self

lemma descendants_trans (mem : above ∈ doc.descendants id)
    (further : below ∈ doc.descendants above) : below ∈ doc.descendants id := by
  induction id using wf.owned_induction with
  | step id ih =>
    rw [wf.descendants_eq, mem_cons, mem_flatMap] at mem
    rcases mem with rfl | ⟨middle, middleChild, inside⟩
    · exact further
    · rw [wf.descendants_eq]
      refine mem_cons_of_mem _ (mem_flatMap.2 ⟨middle, middleChild, ?_⟩)
      exact ih middle (mem_append_right _ middleChild) inside

lemma descendants_child (mem : above ∈ doc.descendants id)
    (child : below ∈ doc.children above) : below ∈ doc.descendants id := by
  apply wf.descendants_trans mem
  rw [wf.descendants_eq]
  exact mem_cons_of_mem _ (mem_flatMap.2 ⟨below, child, wf.self_descendants⟩)

lemma descendants_sublist : (doc.descendants id).Sublist (doc.preorder id) := by
  induction id using wf.owned_induction with
  | step id ih =>
    rw [wf.descendants_eq, wf.preorder_eq]
    refine .cons_cons id ((Sublist.flatMap_right _ fun child mem => ?_).trans
      ((sublist_append_right _ _).flatMap _))
    exact ih child (mem_append_right _ mem)

lemma descendants_lineage (mem : below ∈ doc.descendants id) : id ∈ doc.lineage below :=
  wf.mem_preorder_iff.1 (wf.descendants_sublist.subset mem)

lemma descendants_inside (inside : id < doc.size) (mem : below ∈ doc.descendants id) : below < doc.size :=
  wf.preorder_inside inside (wf.mem_preorder_iff.2 (wf.descendants_lineage mem))

lemma mem_descendants_iff (kind : (doc.kind below).isAttribute = false) :
    below ∈ doc.descendants id ↔ id ∈ doc.lineage below := by
  refine ⟨wf.descendants_lineage, fun above => ?_⟩
  refine wf.lineage_down (fun below => (doc.kind below).isAttribute = false → below ∈ doc.descendants id) ?_
    above (fun _ => wf.self_descendants) kind
  intro below owner parent ih kind
  exact wf.descendants_child (ih (wf.parent_no_attribute parent kind)) (wf.child_of_parent parent kind)

end WellFormed

end PugTemplate.Document
