import PugTemplate.Proofs.Supply

/-!
# Levels

The level of a node is one more than that of its owner, everywhere in the store. Each operation that
gives a node another owner sets the levels below it. The subtrees that it passes are those of a
well-formed document that owns the same, since the links to parents are not set yet.
-/

namespace PugTemplate.Document

open List

def level (doc : Document) (id : Nat) : Nat :=
  (doc.node id).level

lemma node_eq_shape (doc : Document) (id) : doc.node id = { doc.shape id with level := doc.level id } := rfl

/-- Every node stands one level below its owner. -/
def Levelled (doc : Document) : Prop :=
  ∀ owner : Nat, ∀ id ∈ (doc.node owner).owned, doc.level id = doc.level owner + 1

/-- Two documents whose nodes own the same. -/
structure OwnsAlike (left right : Document) : Prop where
  size : left.size = right.size
  owned : ∀ id, (left.node id).owned = (right.node id).owned

lemma OwnsAlike.refl (doc) : OwnsAlike doc doc := ⟨rfl, fun _ => rfl⟩

lemma OwnsAlike.trans (left : OwnsAlike first second)
    (right : OwnsAlike second third) : OwnsAlike first third :=
  ⟨left.size.trans right.size, fun id => (left.owned id).trans (right.owned id)⟩

lemma Alike.owns (alike : Alike left right) : OwnsAlike left right where
  size := alike.index.size
  owned := by
    intro id
    rw [owned_eq_shape, owned_eq_shape, alike.shape]

/-- From `before` to `after` the levels below each of `ids` are set, the first of them to `level`.
What lies below a node is read off the document `frame`. -/
structure Relevels (frame before after : Document) (ids : List Nat) (level : Nat) : Prop where
  owns : OwnsAlike after before
  top : ∀ id ∈ ids, after.level id = level
  below : ∀ id ∈ ids, ∀ owner ∈ frame.preorder id, ∀ owned ∈ (frame.node owner).owned,
    after.level owned = after.level owner + 1
  outside : ∀ other, (∀ id ∈ ids, other ∉ frame.preorder id) → after.level other = before.level other

variable {after : Document} {ids : List Nat} {owner id : Nat}

namespace Relevels

lemma nothing (doc level) : Relevels frame doc doc [] level := ⟨.refl doc, nofun, nofun, fun _ _ => rfl⟩

lemma append {first second third left right level}
    (wf : frame.WellFormed) (early : Relevels frame first second left level)
    (late : Relevels frame second third right level)
    (apart : ∀ id ∈ left, ∀ other ∈ right, ∀ below ∈ frame.preorder id, below ∉ frame.preorder other) :
    Relevels frame first third (left ++ right) level where
  owns := late.owns.trans early.owns
  top := by
    intro id mem
    rcases mem_append.1 mem with inLeft | inRight
    · rw [late.outside id fun other isRight => apart id inLeft other isRight id wf.self_preorder]
      exact early.top id inLeft
    · exact late.top id inRight
  below := by
    intro id mem owner ownerBelow owned isOwned
    rcases mem_append.1 mem with inLeft | inRight
    · have ownedBelow := wf.preorder_owned ownerBelow isOwned
      rw [late.outside owner fun other isRight => apart id inLeft other isRight owner ownerBelow,
        late.outside owned fun other isRight => apart id inLeft other isRight owned ownedBelow]
      exact early.below id inLeft owner ownerBelow owned isOwned
    · exact late.below id inRight owner ownerBelow owned isOwned
  outside := by
    intro other notBelow
    rw [late.outside other fun id mem => notBelow id (mem_append_right _ mem),
      early.outside other fun id mem => notBelow id (mem_append_left _ mem)]

lemma levelled {level} (wf : frame.WellFormed)
    (relevels : Relevels frame before after ids level) (same : OwnsAlike before frame)
    (orphan : ∀ id ∈ ids, frame.parent id = none) (levelled : before.Levelled) :
    after.Levelled := by
  intro owner owned isOwned
  rw [relevels.owns.owned] at isOwned
  have inFrame : owned ∈ (frame.node owner).owned := by
    rw [← same.owned]
    exact isOwned
  by_cases covered : ∃ id ∈ ids, owner ∈ frame.preorder id
  · obtain ⟨id, mem, below⟩ := covered
    exact relevels.below id mem owner below owned inFrame
  · have ownerOutside : ∀ id ∈ ids, owner ∉ frame.preorder id := fun id mem below =>
      covered ⟨id, mem, below⟩
    have parent := wf.owned_iff.1 inFrame
    have ownedOutside : ∀ id ∈ ids, owned ∉ frame.preorder id := by
      intro id mem below
      have above := wf.mem_preorder_iff.1 below
      rcases (wf.mem_lineage_iff parent).1 above with isTop | higher
      · rw [← isTop, orphan id mem] at parent
        cases parent
      · exact ownerOutside id mem (wf.mem_preorder_iff.2 higher)
    rw [relevels.outside owner ownerOutside, relevels.outside owned ownedOutside]
    exact levelled owner owned isOwned

lemma above {level} (wf : frame.WellFormed)
    (relevels : Relevels frame before after ids level) (later : ∀ id ∈ ids, owner < id) :
    after.level owner = before.level owner := by
  apply relevels.outside
  intro id mem below
  have ge := wf.preorder_ge below
  have gt := later id mem
  omega

end Relevels

section Relevel

variable {frame : Document} (wf : frame.WellFormed)

include wf

lemma foldl_relevels (step : Document → Nat → Document) {level} (ids)
    (each : ∀ id ∈ ids, ∀ doc : Document, OwnsAlike doc frame → Relevels frame doc (step doc id) [id] level)
    (apart : ids.Pairwise fun id other => ∀ below ∈ frame.preorder id,
      below ∉ frame.preorder other) (same : OwnsAlike doc frame) :
    Relevels frame doc (ids.foldl step doc) ids level := by
  induction ids generalizing doc with
  | nil => exact .nothing doc level
  | cons id more ih =>
    obtain ⟨firstApart, restApart⟩ := pairwise_cons.1 apart
    have first := each id mem_cons_self doc same
    have rest := ih (forall_mem_cons.1 each).2 restApart (first.owns.trans same)
    exact first.append wf rest (by simpa using firstApart)

lemma owned_apart (owned : ∀ id ∈ ids, id ∈ (frame.node owner).owned) (distinct : ids.Nodup) :
    ids.Pairwise fun id other => ∀ below ∈ frame.preorder id, below ∉ frame.preorder other := by
  refine distinct.imp_of_mem ?_
  intro first second isFirst isSecond different below inFirst inSecond
  exact different (wf.siblings_disjoint (owned first isFirst) (owned second isSecond) inFirst inSecond)

lemma relevelWithin_relevels (bound level) (same : OwnsAlike doc frame) (inside : id < frame.size)
    (enough : frame.size - id ≤ bound) :
    Relevels frame doc (relevelWithin bound doc id level) [id] level := by
  induction bound generalizing doc id level with
  | zero => omega
  | succ bound ih =>
    let below := (doc.node id).attributes.reverse ++ (doc.node id).children.reverse
    let start := doc.modify id fun node => { node with level := level }
    have startAlike := doc.modify_level_alike id level
    have belowOwned : ∀ other, other ∈ below ↔ other ∈ (frame.node id).owned := by
      intro other
      rw [← same.owned]
      simp [below, Node.owned]
    have distinct : below.Nodup := by
      have owned := wf.distinct id
      rw [← same.owned] at owned
      exact List.Perm.nodup ((reverse_perm _).symm.append (reverse_perm _).symm) owned
    have later : ∀ other ∈ below, id < other := fun other mem =>
      wf.ordered (wf.owned_iff.1 ((belowOwned other).1 mem))
    have belowInside : ∀ other ∈ below, other < frame.size := fun other mem =>
      wf.owned_inside ((belowOwned other).1 mem)
    have relevels := foldl_relevels wf
      (fun changed child => relevelWithin bound changed child (level + 1)) below
      (fun other mem changed alike => ih (level + 1) alike (belowInside other mem)
        (by have := later other mem; omega))
      (owned_apart wf (fun other => (belowOwned other).1) distinct)
      (startAlike.owns.trans same)
    have documentInside : id < doc.size := same.size ▸ inside
    have notBelow : ∀ other ∈ below, id ∉ frame.preorder other := by
      intro other mem isBelow
      have ge := wf.preorder_ge isBelow
      have gt := later other mem
      omega
    have top : (relevelWithin (bound + 1) doc id level).level id = level := by
      refine (relevels.outside id notBelow).trans ?_
      rw [Document.level, doc.node_modify_same documentInside]
    refine ⟨relevels.owns.trans startAlike.owns, by simpa using top, ?_, ?_⟩
    · intro here isHere owner ownerBelow owned isOwned
      rw [mem_singleton.1 isHere, wf.preorder_eq, mem_cons, mem_flatMap] at ownerBelow
      rcases ownerBelow with isTop | ⟨middle, isMiddle, further⟩
      · rw [isTop] at isOwned ⊢
        rw [top]
        exact relevels.top owned ((belowOwned owned).2 isOwned)
      · exact relevels.below middle ((belowOwned middle).2 isMiddle) owner further owned isOwned
    · intro other notUnder
      have apart := notUnder id mem_cons_self
      rw [wf.preorder_eq, mem_cons, mem_flatMap, not_or] at apart
      refine (relevels.outside other ?_).trans ?_
      · intro middle mem under
        exact apart.2 ⟨middle, (belowOwned middle).1 mem, under⟩
      · rw [Document.level, doc.node_modify_other apart.1]
        rfl

lemma relevel_relevels (level) (same : OwnsAlike doc frame) (inside : id < frame.size) :
    Relevels frame doc (doc.relevel id level) [id] level :=
  relevelWithin_relevels wf doc.size level same inside (by rw [same.size]; omega)

lemma attach_relevels (owner) (same : OwnsAlike doc frame) (inside : id < frame.size) :
    Relevels frame doc (doc.attach owner id) [id] (doc.level owner + 1) := by
  let linked := doc.modify id fun node => { node with parent := some owner }
  have linkedNode : ∀ other, (linked.node other).owned = (doc.node other).owned ∧
      linked.level other = doc.level other := by
    intro other
    rw [level, node_modify]
    split
    · rename_i both
      rw [both.1]
      exact ⟨rfl, rfl⟩
    · exact ⟨rfl, rfl⟩
  have linkedSame : OwnsAlike linked doc := ⟨doc.size_modify id _, fun other => (linkedNode other).1⟩
  have relevels := relevel_relevels wf (linked.level owner + 1) (linkedSame.trans same) inside
  change Relevels frame linked (doc.attach owner id) [id] (linked.level owner + 1) at relevels
  rw [(linkedNode owner).2] at relevels
  exact ⟨relevels.owns.trans linkedSame, relevels.top, relevels.below, fun other notBelow =>
    (relevels.outside other notBelow).trans (linkedNode other).2⟩

lemma orphans_apart (orphan : ∀ id ∈ ids, frame.parent id = none) (distinct : ids.Nodup) :
    ids.Pairwise fun id other => ∀ below ∈ frame.preorder id, below ∉ frame.preorder other := by
  refine distinct.imp_of_mem ?_
  intro first second isFirst isSecond different below inFirst inSecond
  exact different (wf.orphan_unique (wf.mem_preorder_iff.1 inFirst)
    (wf.mem_preorder_iff.1 inSecond) (orphan first isFirst) (orphan second isSecond))

lemma attachAll_relevels (ids) (inside : ∀ id ∈ ids, id < frame.size)
    (orphan : ∀ id ∈ ids, frame.parent id = none) (distinct : ids.Nodup)
    (later : ∀ id ∈ ids, owner < id) (same : OwnsAlike doc frame) :
    Relevels frame doc (doc.attachAll owner ids) ids (doc.level owner + 1) := by
  have apart := orphans_apart wf orphan distinct
  induction ids generalizing doc with
  | nil => exact .nothing doc _
  | cons id more ih =>
    have first := attach_relevels wf owner same (inside id mem_cons_self)
    have ownerLevel : (doc.attach owner id).level owner = doc.level owner :=
      first.above wf (by simpa using later id mem_cons_self)
    obtain ⟨firstApart, restApart⟩ := pairwise_cons.1 apart
    have rest := ih (forall_mem_cons.1 inside).2 (forall_mem_cons.1 orphan).2 (nodup_cons.1 distinct).2
      (forall_mem_cons.1 later).2
      (first.owns.trans same) restApart
    rw [ownerLevel] at rest
    exact first.append wf rest (by simpa using firstApart)

end Relevel

lemma level_modify (doc : Document) (target)
    (keeps : ∀ node, (change node).level = node.level) (id : Nat) :
    (doc.modify target change).level id = doc.level id := by
  rw [level, level, node_modify]
  split
  · rename_i both
    rw [keeps, both.1]
  · rfl

lemma level_modify_children (doc : Document) (target) (change : List Nat → List Nat) (id : Nat) :
    (doc.modify target fun node => { node with children := change node.children }).level id = doc.level id := by
  apply level_modify
  intro node
  rfl

lemma level_modify_parent (doc : Document) (target) (parent : Option Nat) (id : Nat) :
    (doc.modify target fun node => { node with parent := parent }).level id = doc.level id := by
  apply level_modify
  intro node
  rfl

lemma level_release (doc : Document) (ids) (id : Nat) : (doc.release ids).level id = doc.level id := by
  induction ids generalizing doc with
  | nil => rfl
  | cons first more ih =>
    rw [release, foldl_cons, ← release, ih]
    exact doc.level_modify_parent first none id

/-- A node that owns fewer of its nodes, and others that were attached to it. -/
theorem Levelled.rechild {attached : Document} (levelled : attached.Levelled)
    (tops : ∀ id ∈ ids, attached.level id = attached.level owner + 1)
    (levels : ∀ id, after.level id = attached.level id)
    (others : ∀ other, other ≠ owner → (after.node other).owned = (attached.node other).owned)
    (members : ∀ id ∈ (after.node owner).owned, id ∈ (attached.node owner).owned ∨ id ∈ ids) :
    after.Levelled := by
  intro other id owned
  rw [levels, levels]
  by_cases same : other = owner
  · rw [same] at owned ⊢
    rcases members id owned with old | new
    · exact levelled owner id old
    · exact tops id new
  · rw [others other same] at owned
    exact levelled other id owned

section Operations

variable {doc : Document} (wf : doc.WellFormed) (levelled : doc.Levelled)

include wf levelled

lemma create_levelled (kind pos) : (doc.create kind pos).1.Levelled := by
  intro owner id owned
  have links := @create_links doc kind pos owner
  have old : id ∈ (doc.node owner).owned := by
    change id ∈ (doc.create kind pos).1.attributes owner ++ (doc.create kind pos).1.children owner at owned
    rw [links.2.1, links.2.2] at owned
    exact owned
  have parent := wf.owned_iff.1 old
  have inside := parent_inside parent
  have before := wf.ordered parent
  have levels : ∀ other, other < doc.size → (doc.create kind pos).1.level other = doc.level other := by
    intro other otherInside
    rw [level, create, node_push, if_neg (Nat.ne_of_lt otherInside)]
    rfl
  rw [levels id inside, levels owner (by omega)]
  exact levelled owner id old

/-- The node without its children is the frame: its children then have no owner, also those that
it gets back. -/
theorem setChildren_levelled {children} (inside : owner < doc.size)
    (newInside : ∀ id ∈ children, id < doc.size) (mayOwn : MayOwn doc owner children) :
    (doc.setChildren owner children).Levelled := by
  let lost := (doc.children owner).filter fun child => !children.contains child
  let emptied := doc.modify owner fun node => { node with children := [] }
  let released := emptied.release lost
  let attached := released.attachAll owner children
  have oldInside : ∀ id ∈ doc.children owner, id < doc.size := fun id mem =>
    wf.child_inside mem
  have relinks := setChildren_relinks inside oldInside newInside
  have frameRelinks : Relinks doc (doc.setChildren owner []) owner [] := setChildren_relinks inside oldInside nofun
  have frame := wf.relinked frameRelinks ⟨mayOwn.owner_kind, nodup_nil, nofun, nofun, nofun⟩
  have lostInside : ∀ id ∈ lost, id < emptied.size := by
    intro id mem
    rw [size_modify]
    exact oldInside id (mem_filter.1 mem).1
  have releasedOwned : ∀ id, (released.node id).owned =
      doc.attributes id ++ if id = owner then [] else doc.children id := by
    intro id
    rw [owned_eq_shape, emptied.release_shape lost lostInside id, doc.modify_children_shape inside (fun _ => []) id]
    by_cases isOwner : id = owner
    · split <;> rfl
    · split <;> rfl
  have same : OwnsAlike released (doc.setChildren owner []) := by
    refine ⟨?_, fun id => ?_⟩
    · rw [(emptied.release_same_index lost).size, size_modify, frameRelinks.size]
    · rw [releasedOwned, frameRelinks.owned]
  have releasedLevel : ∀ id, released.level id = doc.level id := fun id =>
    (emptied.level_release lost id).trans (doc.level_modify_children owner (fun _ => []) id)
  have releasedLevelled : released.Levelled := by
    intro other id owned
    rw [releasedLevel, releasedLevel]
    apply levelled other id
    rw [releasedOwned] at owned
    refine (mem_append.1 owned).elim (mem_append_left _) fun child => ?_
    split at child
    · cases child
    · exact mem_append_right _ child
  have childrenInside : ∀ id ∈ children, id < (doc.setChildren owner []).size := by
    rw [frameRelinks.size]
    exact newInside
  have orphan : ∀ id ∈ children, (doc.setChildren owner []).parent id = none := by
    intro id mem
    rw [frameRelinks.parent, if_neg not_mem_nil]
    split
    · rfl
    · rename_i notOld
      exact (mayOwn.free id mem).resolve_right notOld
  have relevels := attachAll_relevels frame children childrenInside orphan mayOwn.distinct mayOwn.later same
  have ownerLevel := relevels.above frame mayOwn.later
  have tops : ∀ id ∈ children, attached.level id = attached.level owner + 1 := by
    intro id mem
    rw [ownerLevel]
    exact relevels.top id mem
  refine (relevels.levelled frame same orphan releasedLevelled).rechild tops
    (attached.level_modify_children owner fun _ => children) ?_ ?_
  · intro other different
    rw [relinks.owned, if_neg different, relevels.owns.owned, releasedOwned, if_neg different]
  · intro id owned
    rw [relinks.owned, if_pos rfl, mem_append] at owned
    rw [relevels.owns.owned, releasedOwned, if_pos rfl, append_nil]
    exact owned

lemma gains_levelled (gains : Gains doc after owner made pos outer) : after.Levelled := by
  intro other id owned
  rw [level, level, gains.level, gains.level]
  rcases gains.mem_owned.1 owned with old | ⟨rfl, rfl⟩
  · have inside := wf.owned_inside old
    have before := wf.ordered (wf.owned_iff.1 old)
    rw [if_neg (Nat.ne_of_lt inside), if_neg (Nat.ne_of_lt (Nat.lt_trans before inside))]
    exact levelled other id old
  · rw [if_pos rfl, if_neg (Nat.ne_of_lt gains.inside)]

variable {ids : List Nat} (inside : ∀ id ∈ ids, id < doc.size)
  (orphan : ∀ id ∈ ids, doc.parent id = none) (distinct : ids.Nodup) (later : ∀ id ∈ ids, owner < id)

include inside orphan distinct later

lemma relink_levelled {children} (relinks : Relinks doc after owner children)
    (levels : ∀ id, after.level id = (doc.attachAll owner ids).level id)
    (members : ∀ id ∈ children, id ∈ doc.children owner ∨ id ∈ ids) : after.Levelled := by
  have relevels := attachAll_relevels wf ids inside orphan distinct later (.refl doc)
  have attached := relevels.levelled wf (.refl doc) orphan levelled
  have ownerLevel := relevels.above wf later
  have tops : ∀ id ∈ ids, (doc.attachAll owner ids).level id = (doc.attachAll owner ids).level owner + 1 := by
    intro id mem
    rw [ownerLevel]
    exact relevels.top id mem
  refine attached.rechild tops levels ?_ ?_
  · intro other different
    rw [relinks.owned, if_neg different, relevels.owns.owned]
    rfl
  · intro id owned
    rw [relinks.owned, if_pos rfl, mem_append] at owned
    rw [relevels.owns.owned]
    rcases owned with asAttribute | asChild
    · exact .inl (mem_append_left _ asAttribute)
    · exact (members id asChild).imp_left (mem_append_right _)

lemma insertChildren_levelled (index) (ownerInside : owner < doc.size) :
    (doc.insertChildren owner index ids).Levelled := by
  exact relink_levelled wf levelled inside orphan distinct later
    (insertChildren_relinks wf index ownerInside inside) (level_modify_children _ owner fun children =>
      children.take index ++ ids ++ children.drop index) (fun _ => mem_inserted)

lemma replace_levelled (parent : doc.parent id = some owner)
    (kind : (doc.kind id).isAttribute = false) : (doc.replace id ids).Levelled := by
  have notSelf : id ∉ ids := by
    intro mem
    rw [orphan id mem] at parent
    cases parent
  have relinks := replace_relinks wf parent kind inside notSelf
  have members := mem_spliceAt ids (wf.children_distinct owner) (wf.child_of_parent parent kind)
  refine relink_levelled wf levelled inside orphan distinct later relinks ?_ ?_
  · intro other
    unfold replace
    rw [parent]
    rw [level_modify_parent, level_modify_children _ owner (spliceAt id ids)]
  · intro other mem
    exact ((members other).1 mem).symm.imp_left And.left

end Operations

section Graft

variable {doc source : Document} (wf : doc.WellFormed)
  (sourceWf : source.WellFormed)

include wf sourceWf

lemma copyPlace_below (mem : old ∈ source.preorder id) : copyPlace doc source id old ∈
    (doc.graft (source.subtree id)).1.preorder doc.size := by
  have grafted : (doc.graft (source.subtree id)).1.WellFormed := sourceWf.graft_well_formed wf
  refine (sourceWf.lineage_down (fun old => old ∈ source.preorder id ∧ copyPlace doc source id old ∈
    (doc.graft (source.subtree id)).1.preorder doc.size) ?_ (sourceWf.mem_preorder_iff.1 mem)
    ⟨sourceWf.self_preorder, ?_⟩).2
  · rintro below owner parent ⟨ownerMember, placed⟩
    have owned := sourceWf.owned_iff.2 parent
    refine ⟨sourceWf.preorder_owned ownerMember owned, grafted.preorder_owned placed ?_⟩
    rw [sourceWf.graft_owned_new ownerMember]
    exact mem_map_of_mem owned
  · rw [sourceWf.copyPlace_root]
    exact grafted.self_preorder

lemma graft_relevels : Relevels (doc.graft (source.subtree id)).1 (doc.pushAll ((source.subtree id).nodes.map
    fun node => node.rename fun old => some (old + doc.size))) (doc.graft (source.subtree id)).1 [doc.size] 0 := by
  have rootInside : doc.size < (doc.graft (source.subtree id)).1.size := by
    rw [← sourceWf.copyPlace_root]
    exact copyPlace_inside sourceWf.self_preorder
  rw [pushAll, foldl_map]
  have alike := (((source.subtree id).nodes.foldl (fun changed node =>
    changed.push (node.rename fun old => some (old + doc.size))) doc).relevel_alike doc.size 0).owns
  exact relevel_relevels (sourceWf.graft_well_formed wf) 0
    ⟨alike.size.symm, fun other => (alike.owned other).symm⟩ rootInside

lemma graft_level_old (old : other < doc.size) :
    (doc.graft (source.subtree id)).1.level other = doc.level other := by
  rw [(graft_relevels wf sourceWf).above (sourceWf.graft_well_formed wf) (by simpa using old)]
  exact congrArg Node.level (doc.pushAll_node_old _ old)

lemma graft_levelled (levelled : doc.Levelled) : (doc.graft (source.subtree id)).1.Levelled := by
  have relevels := @graft_relevels id doc source wf sourceWf
  intro owner below owned
  rcases @WellFormed.graft_places doc source id sourceWf owner with
    old | ⟨original, mem, place⟩ | beyond
  · have sameOwned : ((doc.graft (source.subtree id)).1.node owner).owned = (doc.node owner).owned := by
      rw [owned_eq_shape, owned_eq_shape, graft_grows.shape owner old]
    rw [sameOwned] at owned
    rw [graft_level_old wf sourceWf old, graft_level_old wf sourceWf (wf.owned_inside owned)]
    exact levelled owner below owned
  · apply relevels.below doc.size (by simp) owner _ below owned
    rw [place]
    exact copyPlace_below wf sourceWf mem
  · rw [owned_eq_shape, shape_beyond _ beyond] at owned
    cases owned

omit wf in
lemma listed_graft (test : NodeKind → Bool) : (doc.graft (source.subtree id)).1.listed test = doc.listed test ++
    ((source.preorder id).filter fun old => test (source.kind old)).map (copyPlace doc source id) := by
  have places : (source.preorder id).map (copyPlace doc source id) =
      (range (source.preorder id).length).map (doc.size + ·) := by
    apply ext_getElem (by simp)
    intro index bound _
    rw [getElem_map, copyPlace, sourceWf.preorder_distinct.idxOf_getElem]
    simp
  rw [listed, listed, graft_size, range_add, filter_append, ← places, filter_map]
  congr 1
  · apply filter_congr
    intro old mem
    rw [(graft_grows.content (mem_range.1 mem)).kind]
  · congr 1
    apply filter_congr
    intro old mem
    rw [Function.comp_apply, sourceWf.graft_kind_new mem]

end Graft

/-- The store `after` is `doc` with a copy of the subtree at `id` of `source`, whose root is `copy`. The nodes
of the subtree are copied to the places from the end of `doc` on, in preorder. -/
structure Copied (doc source : Document) (id : Nat) (after : Document) (copy : Nat) : Prop where
  root : copy = copyPlace doc source id id
  size : after.size = doc.size + (source.preorder id).length
  tree : after.treeAt copy = source.treeAt id
  node : ∀ old ∈ source.preorder id, after.shape (copyPlace doc source id old) =
    { kind := source.kind old
      parent := if old = id then none else (source.parent old).map (copyPlace doc source id)
      outer := ((source.node old).outer.filter (· ∈ source.preorder id)).map (copyPlace doc source id)
      children := (source.children old).map (copyPlace doc source id)
      attributes := (source.attributes old).map (copyPlace doc source id)
      position := source.position old
      level := 0 }
  level : after.level copy = 0 ∧ ∀ old ∈ source.preorder id, ∀ below ∈ (source.node old).owned,
    after.level (copyPlace doc source id below) = after.level (copyPlace doc source id old) + 1
  kept : ∀ old < doc.size, after.node old = doc.node old
  listed : ∀ list ∈ [(blocks, NodeKind.isBlock), (imports, NodeKind.isImport), (mixins, NodeKind.isMixin),
      (calls, NodeKind.isCall)], list.1 after = list.1 doc ++
    ((source.preorder id).filter fun old => list.2 (source.kind old)).map (copyPlace doc source id)

lemma graft_copied {doc source} (wf : doc.WellFormed) (sourceWf : source.WellFormed) (id) :
    Copied doc source id (doc.graft (source.subtree id)).1 (doc.graft (source.subtree id)).2 where
  root := sourceWf.copyPlace_root.symm
  size := graft_size
  tree := by
    have self : id ∈ source.preorder id := sourceWf.self_preorder
    rw [← sourceWf.graft_treeAt_new wf self, sourceWf.copyPlace_root]
    rfl
  node old mem := by
    have outer : ((source.node old).outer.bind fun link => ((source.preorder id).idxOf? link).map (· + doc.size)) =
        ((source.node old).outer.filter (· ∈ source.preorder id)).map (copyPlace doc source id) := by
      cases (source.node old).outer with
      | none => rfl
      | some link =>
        by_cases inside : link ∈ source.preorder id
        · simp [Option.filter, inside, idxOf?_of_mem, copyPlace, Nat.add_comm]
        · simp [Option.filter, inside, idxOf?_eq_none_iff.2 inside]
    rw [sourceWf.graft_shape_new mem, outer]
  level := by
    have relevels := @graft_relevels id doc source wf sourceWf
    refine ⟨relevels.top doc.size mem_cons_self, fun old mem below owned => ?_⟩
    apply relevels.below doc.size mem_cons_self _ (copyPlace_below wf sourceWf mem)
    rw [sourceWf.graft_owned_new mem]
    exact mem_map_of_mem owned
  kept old inside := by
    rw [node_eq_shape, graft_grows.shape old inside, graft_level_old wf sourceWf inside, ← node_eq_shape]
  listed := by
    have indexed := (@WellFormed.graft_well_formed doc source id sourceWf wf).indexed
    simp only [forall_mem_cons, not_mem_nil, IsEmpty.forall_iff, implies_true, and_true]
    simp only [indexed.blocks, indexed.imports, indexed.mixins, indexed.calls, wf.indexed.blocks,
      wf.indexed.imports, wf.indexed.mixins, wf.indexed.calls, listed_graft sourceWf, and_self]

/-- A copy is the tree that was copied, node by node and with its links inside. Nothing that was there
before changes, and the index lists go on with the nodes of the copy. -/
theorem copies_are_faithful {doc source : Document} (wf : doc.WellFormed) (sourceWf : source.WellFormed)
    (id : Nat) :
    Copied doc source id (doc.graft (source.subtree id)).1 (doc.graft (source.subtree id)).2 ∧
      Copied doc doc id (doc.duplicate id).1 (doc.duplicate id).2 :=
  ⟨graft_copied wf sourceWf id, graft_copied wf wf id⟩

/-- A block is copied together with the block inside of it, and both are listed. -/
theorem nested_blocks_are_copied :
    ∃ doc : Document, doc.blocks = [1, 2] ∧ (doc.duplicate 1).1.blocks = [1, 2, 3, 4] ∧
      (doc.duplicate 1).1.treeAt 3 = doc.treeAt 1 := by
  have outer : (empty.append 0 (.statement (.block none .replace)) .start).1.WellFormed :=
    (append_gains (by decide) rfl rfl .start).wellFormed empty_well_formed
  have inner := (@append_gains _ 1 (.statement (.block none .append)) (by decide) rfl rfl .start).wellFormed outer
  have copied := (copies_are_faithful inner inner 1).2
  exact ⟨_, by decide, (copied.listed _ mem_cons_self).trans (by decide), copied.tree⟩

end PugTemplate.Document
