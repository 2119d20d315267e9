import Mathlib.Data.List.Basic
import PugTemplate.Proofs.WellFormed

/-!
# Giving a node other children

Replacing a node, setting the children of a node and inserting children are one kind of change: one
node gets a new list of children, those that are new get it as their parent, and those that are lost
have no parent any more. This is said once here, with the conditions under which the document stays
well-formed.
-/

namespace PugTemplate.Document

open List

/-- The children of `owner` become `children`, and nothing else changes but the links of the
children it gains or loses. -/
structure Relinks (before after : Document) (owner : Nat) (children : List Nat) : Prop where
  index : SameIndex after before
  shape : ∀ id, after.shape id =
    { before.shape id with
      parent :=
        if id ∈ children then some owner
        else if id ∈ before.children owner then none
        else (before.shape id).parent
      children := if id = owner then children else (before.shape id).children }

variable {id owner : Nat} {doc : Document} {siblings : List Nat}

namespace Relinks

variable {before after : Document} {owner : Nat} {children : List Nat}
  (relinks : Relinks before after owner children)

include relinks

lemma size : after.size = before.size := relinks.index.size

lemma kind (id) : after.kind id = before.kind id := by
  rw [kind_eq_shape, relinks.shape]
  rfl

lemma position (id) : after.position id = before.position id := by
  rw [position_eq_shape, relinks.shape]
  rfl

lemma attributes (id) : after.attributes id = before.attributes id := by
  rw [attributes_eq_shape, relinks.shape]
  rfl

lemma children_eq (id) : after.children id = if id = owner then children else before.children id := by
  rw [children_eq_shape, relinks.shape]
  rfl

lemma children_other (other : id ≠ owner) : after.children id = before.children id := by
  rw [relinks.children_eq, if_neg other]

lemma parent (id) : after.parent id = if id ∈ children then some owner
    else if id ∈ before.children owner then none else before.parent id := by
  rw [parent_eq_shape, relinks.shape]
  rfl

lemma owned (id) : (after.node id).owned =
    before.attributes id ++ if id = owner then children else before.children id := by
  change after.attributes id ++ after.children id = _
  rw [relinks.attributes, relinks.children_eq]

end Relinks

/-- What the new children have to be for the document to stay well-formed. -/
structure MayOwn (doc : Document) (owner : Nat) (children : List Nat) : Prop where
  owner_kind : (doc.kind owner).isAttribute = false
  distinct : children.Nodup
  free : ∀ id ∈ children, doc.parent id = none ∨ id ∈ doc.children owner
  later : ∀ id ∈ children, owner < id
  kinds : ∀ id ∈ children, (doc.kind id).isAttribute = false

namespace WellFormed

variable {before after : Document} {children : List Nat} (wf : before.WellFormed)
  (relinks : Relinks before after owner children) (mayOwn : MayOwn before owner children)

include wf relinks mayOwn

lemma relinked_owned_iff {other} : id ∈ (after.node other).owned ↔ after.parent id = some other := by
  rw [relinks.owned, relinks.parent, mem_append]
  by_cases gained : id ∈ children
  · have noAttribute : id ∉ before.attributes other := by
      intro asAttribute
      have kind := wf.attribute_kind asAttribute
      rw [mayOwn.kinds id gained] at kind
      cases kind
    rw [if_pos gained, Option.some.injEq]
    constructor
    · rintro (asAttribute | asChild)
      · exact absurd asAttribute noAttribute
      · by_cases same : other = owner
        · exact same.symm
        · rw [if_neg same] at asChild
          have parent := wf.child_parent asChild
          rcases mayOwn.free id gained with orphan | kept
          · rw [orphan] at parent
            cases parent
          · rw [wf.child_parent kept] at parent
            exact Option.some.inj parent
    · intro same
      rw [if_pos same.symm]
      exact .inr gained
  · rw [if_neg gained]
    by_cases lost : id ∈ before.children owner
    · have ownerParent := wf.child_parent lost
      rw [if_pos lost]
      constructor
      · rintro (asAttribute | asChild)
        · have kind := wf.attribute_kind asAttribute
          rw [wf.child_kind lost] at kind
          cases kind
        · by_cases same : other = owner
          · rw [if_pos same] at asChild
            exact absurd asChild gained
          · rw [if_neg same] at asChild
            rw [wf.child_parent asChild] at ownerParent
            exact absurd (Option.some.inj ownerParent) same
      · intro none
        cases none
    · rw [if_neg lost, ← wf.owned_iff]
      change _ ↔ id ∈ before.attributes other ++ before.children other
      rw [mem_append]
      by_cases same : other = owner
      · rw [same]
        simp [gained, lost]
      · rw [if_neg same]

lemma relinked : after.WellFormed where
  root_kind := (relinks.kind root).trans wf.root_kind
  inside_root := by rw [relinks.size]; exact wf.inside_root
  owned_iff := wf.relinked_owned_iff relinks mayOwn
  ordered := by
    intro other id parent
    rw [relinks.parent] at parent
    split at parent
    · rename_i gained
      cases parent
      exact mayOwn.later id gained
    · split at parent
      · cases parent
      · exact wf.ordered parent
  distinct := by
    intro other
    rw [relinks.owned]
    by_cases same : other = owner
    · rw [if_pos same]
      refine nodup_append.2 ⟨?_, mayOwn.distinct, ?_⟩
      · exact (nodup_append.1 (wf.distinct other)).1
      · intro id asAttribute gained mem equal
        subst equal
        have kind := wf.attribute_kind asAttribute
        rw [mayOwn.kinds id mem] at kind
        cases kind
    · rw [if_neg same]
      exact wf.distinct other
  attribute_kind := by
    intro other id asAttribute
    rw [relinks.attributes] at asAttribute
    rw [relinks.kind]
    exact wf.attribute_kind asAttribute
  child_kind := by
    intro other id asChild
    rw [relinks.children_eq] at asChild
    rw [relinks.kind]
    split at asChild
    · exact mayOwn.kinds id asChild
    · exact wf.child_kind asChild
  leaf := by
    intro id kind
    rw [relinks.kind] at kind
    have notOwner : id ≠ owner := by
      intro same
      rw [same, mayOwn.owner_kind] at kind
      cases kind
    rw [relinks.children_other notOwner]
    exact wf.leaf kind
  indexed := wf.indexed.transfer relinks.index relinks.kind

end WellFormed

lemma setChildren_relinks {children} (inside : owner < doc.size)
    (oldInside : ∀ id ∈ doc.children owner, id < doc.size) (newInside : ∀ id ∈ children, id < doc.size) :
    Relinks doc (doc.setChildren owner children) owner children := by
  let lost := (doc.children owner).filter fun child => !children.contains child
  let emptied := doc.modify owner fun node => { node with children := [] }
  let released := emptied.release lost
  let attached := released.attachAll owner children
  have releasedIndex := emptied.release_same_index lost
  have attachedIndex := released.attachAll_same_index owner children
  have sameIndex : SameIndex attached doc :=
    attachedIndex.trans (releasedIndex.trans (doc.modify_same_index owner _))
  have releasedSize : released.size = doc.size := releasedIndex.size.trans (doc.size_modify owner _)
  have lostInside : ∀ id ∈ lost, id < emptied.size := by
    intro id mem
    rw [size_modify]
    exact oldInside id (mem_filter.1 mem).1
  refine ⟨(attached.modify_same_index owner _).trans sameIndex, fun id => ?_⟩
  have final := attached.modify_children_shape (by rw [sameIndex.size]; exact inside) (fun _ => children) id
  have middle := released.attachAll_shape owner children (by rw [releasedSize]; exact newInside) id
  have early := emptied.release_shape lost lostInside id
  have first := doc.modify_children_shape inside (fun _ => []) id
  have lostIff : id ∈ lost ↔ id ∈ doc.children owner ∧ id ∉ children := by
    simp [lost]
  change (attached.modify owner fun node => { node with children := children }).shape id = _
  rw [final, middle, early, first]
  by_cases same : id = owner
  · subst same
    by_cases gained : id ∈ children <;> by_cases old : id ∈ doc.children id <;> simp [lostIff, gained, old]
  · by_cases gained : id ∈ children <;> by_cases old : id ∈ doc.children owner <;>
      simp [lostIff, gained, old, same]

/-- The other operations attach new children, change the list of children, and then cut the links
of the children that are lost. -/
theorem attach_release_relinks (wf : doc.WellFormed) (ids lost)
    (change : List Nat → List Nat) (inside : owner < doc.size)
    (newInside : ∀ id ∈ ids, id < doc.size) (lostOld : ∀ id ∈ lost, id ∈ doc.children owner)
    (lostNew : ∀ id ∈ lost, id ∉ ids) (members : ∀ id, id ∈ change (doc.children owner) ↔
      id ∈ ids ∨ id ∈ doc.children owner ∧ id ∉ lost) : Relinks doc
      (((doc.attachAll owner ids).modify owner fun node => { node with children := change node.children }).release lost)
      owner (change (doc.children owner)) := by
  let attached := doc.attachAll owner ids
  let changed := attached.modify owner fun node => { node with children := change node.children }
  have attachedIndex := doc.attachAll_same_index owner ids
  have changedIndex : SameIndex changed doc := (attached.modify_same_index owner _).trans attachedIndex
  have attachedShape := doc.attachAll_shape owner ids newInside
  have attachedChildren : attached.children owner = doc.children owner := by
    rw [children_eq_shape, attachedShape]
    split
    · rfl
    · rfl
  refine ⟨(changed.release_same_index lost).trans changedIndex, fun id => ?_⟩
  have lostInside : ∀ id ∈ lost, id < changed.size := by
    intro id mem
    rw [changedIndex.size]
    exact wf.child_inside (lostOld id mem)
  have final := changed.release_shape lost lostInside id
  have middle := attached.modify_children_shape (by rw [attachedIndex.size]; exact inside)
  have kept : id ∈ doc.children owner → (doc.shape id).parent = some owner := wf.child_parent
  rw [final, middle, attachedShape id]
  simp only [members id]
  by_cases same : id = owner
  · subst same
    have self : id ∉ doc.children id := fun child =>
      Nat.lt_irrefl id (wf.child_after child)
    have notLost : id ∉ lost := fun mem => self (lostOld id mem)
    rw [attachedChildren]
    by_cases new : id ∈ ids <;> simp [new, self, notLost]
  · by_cases cut : id ∈ lost
    · have old := lostOld id cut
      have notNew := lostNew id cut
      simp [same, cut, old, notNew]
    · by_cases new : id ∈ ids
      · simp [same, new, cut]
      · by_cases old : id ∈ doc.children owner
        · simp [same, old, cut, ← kept old]
        · simp [same, new, old, cut]

lemma mem_inserted {old new : List Nat} (mem : id ∈ old.take index ++ new ++ old.drop index) :
    id ∈ old ∨ id ∈ new := by
  rcases mem_append.1 mem with front | back
  · exact (mem_append.1 front).imp_left mem_of_mem_take
  · exact .inl (mem_of_mem_drop back)

lemma insertChildren_relinks (wf : doc.WellFormed) (index) (inside : owner < doc.size)
    (newInside : ∀ id ∈ ids, id < doc.size) : Relinks doc (doc.insertChildren owner index ids) owner
      ((doc.children owner).take index ++ ids ++ (doc.children owner).drop index) := by
  have members : ∀ id, id ∈ (doc.children owner).take index ++ ids ++ (doc.children owner).drop index ↔
        id ∈ ids ∨ id ∈ doc.children owner ∧ id ∉ ([] : List Nat) := by
    intro id
    have parts : id ∈ (doc.children owner).take index ∨
        id ∈ (doc.children owner).drop index ↔ id ∈ doc.children owner := by
      rw [← mem_append, take_append_drop]
    rw [append_assoc, mem_append, mem_append, ← parts]
    simp only [not_mem_nil, not_false_eq_true, and_true]
    constructor
    · rintro (before | new | after)
      · exact .inr (.inl before)
      · exact .inl new
      · exact .inr (.inr after)
    · rintro (new | before | after)
      · exact .inr (.inl new)
      · exact .inl before
      · exact .inr (.inr after)
  exact attach_release_relinks wf ids []
    (fun children => children.take index ++ ids ++ children.drop index) inside newInside
    (by simp) (by simp) members

lemma spliceAt_eq_flatMap (id replacements) (distinct : siblings.Nodup) : spliceAt id replacements siblings =
      siblings.flatMap fun sibling => if sibling = id then replacements else [sibling] := by
  induction siblings with
  | nil => rfl
  | cons sibling more ih =>
    have fresh : sibling ∉ more := (nodup_cons.1 distinct).1
    simp only [spliceAt, flatMap_cons, beq_iff_eq]
    by_cases same : sibling = id
    · subst same
      have unchanged : (more.flatMap fun other =>
          if other = sibling then replacements else [other]) = more := by
        have each : ∀ other ∈ more, (if other = sibling then replacements else [other]) = [other] := by
          intro other mem
          have different : other ≠ sibling := by
            intro equal
            exact fresh (equal ▸ mem)
          exact if_neg different
        rw [flatMap_congr each]
        simp
      rw [if_pos rfl, if_pos rfl, unchanged]
    · rw [if_neg same, if_neg same, ih (nodup_cons.1 distinct).2]
      rfl

lemma mem_spliceAt (replacements) (distinct : siblings.Nodup) (found : id ∈ siblings)
    (other) : other ∈ spliceAt id replacements siblings ↔
      other ∈ replacements ∨ other ∈ siblings ∧ other ∉ [id] := by
  rw [spliceAt_eq_flatMap id replacements distinct, mem_flatMap, mem_singleton]
  constructor
  · rintro ⟨sibling, mem, inPart⟩
    by_cases same : sibling = id
    · rw [if_pos same] at inPart
      exact .inl inPart
    · rw [if_neg same, mem_singleton] at inPart
      subst inPart
      exact .inr ⟨mem, same⟩
  · rintro (new | ⟨mem, different⟩)
    · exact ⟨id, found, by rw [if_pos rfl]; exact new⟩
    · exact ⟨other, mem, by rw [if_neg different]; simp⟩

lemma spliceAt_distinct (id) (distinct : siblings.Nodup) (newDistinct : replacements.Nodup)
    (disjoint : ∀ new ∈ replacements, new ∉ siblings) :
    (spliceAt id replacements siblings).Nodup := by
  rw [spliceAt_eq_flatMap id replacements distinct]
  refine pairwise_flatMap.2 ⟨?_, ?_⟩
  · intro sibling _
    split
    · exact newDistinct
    · exact pairwise_singleton _ _
  · refine distinct.imp_of_mem ?_
    intro first second firstMember secondMember different left inLeft right inRight same
    subst same
    by_cases firstSame : first = id
    · have secondOther : second ≠ id := fun equal => different (firstSame.trans equal.symm)
      rw [if_pos firstSame] at inLeft
      rw [if_neg secondOther, mem_singleton] at inRight
      rw [inRight] at inLeft
      exact disjoint second inLeft secondMember
    · rw [if_neg firstSame, mem_singleton] at inLeft
      subst inLeft
      by_cases secondSame : second = id
      · rw [if_pos secondSame] at inRight
        exact disjoint left inRight firstMember
      · rw [if_neg secondSame, mem_singleton] at inRight
        exact different inRight

lemma replace_relinks (wf : doc.WellFormed) (parent : doc.parent id = some owner)
    (kind : (doc.kind id).isAttribute = false) (newInside : ∀ new ∈ replacements, new < doc.size)
    (notSelf : id ∉ replacements) :
    Relinks doc (doc.replace id replacements) owner (spliceAt id replacements (doc.children owner)) := by
  have child := wf.child_of_parent parent kind
  have inside : owner < doc.size := Nat.lt_trans (wf.ordered parent) (parent_inside parent)
  have relinks := attach_release_relinks wf replacements [id] (spliceAt id replacements)
    inside newInside (by simp [child]) (by simp [notSelf])
    (mem_spliceAt replacements (wf.children_distinct owner) child)
  unfold replace
  rw [parent]
  exact relinks

end PugTemplate.Document
