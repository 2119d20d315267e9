import PugTemplate.Proofs.Refilling

/-!
# Inheritance on trees

Extending a layout is described on trees: the child's code is put in front and its mixins at the end,
and then its blocks are merged into the blocks of their name. The documents do the same on their
stores, where a block may be nested in another, or get lost with the old content of another.
-/

namespace PugTemplate

open List

namespace NodeKind

def isBlockNamed (name : String) : NodeKind → Bool
  | statement (.block (some other) _) => other == name
  | _ => false

def isDeclaration : NodeKind → Bool
  | statement (.binding _ _) | statement (.code _ _) => true
  | _ => false

end NodeKind

/-- What a block of a child gives to the blocks of its name. -/
structure Contribution where
  name : String
  mode : BlockMode
  content : List Tree

namespace Tree

mutual

/-- Every block of the name gets the content. What it had before is merged in turn, unless it is
replaced; the content is taken as it is. -/
def merge (part : Contribution) : Tree → Tree
  | node kind position attributes children =>
    let merged := mergeAll part children
    node kind position attributes
      (if kind.isBlockNamed part.name then
        match part.mode with
        | .replace => part.content
        | .append => merged ++ part.content
        | .prepend => part.content ++ merged
      else merged)

def mergeAll (part : Contribution) : List Tree → List Tree
  | [] => []
  | tree :: more => tree.merge part :: mergeAll part more

end

lemma mergeAll_eq_map : mergeAll part trees = trees.map (merge part) := by
  induction trees with
  | nil => rfl
  | cons tree more ih => simp [mergeAll, ih]

mutual

lemma merge_absent : ∀ {tree : Tree},
    (∀ below ∈ tree.descendants, below.kind.isBlockNamed part.name = false) → tree.merge part = tree
  | node kind pos attrs children, absent => by
    have below : mergeAll part children = children :=
      mergeAll_absent fun other mem => absent other (by simp [descendants, mem])
    have notTarget : kind.isBlockNamed part.name = false :=
      absent (node kind pos attrs children) (by simp [descendants])
    simp [merge, below, notTarget]

lemma mergeAll_absent : ∀ {trees : List Tree},
    (∀ below ∈ allDescendants trees, below.kind.isBlockNamed part.name = false) → mergeAll part trees = trees
  | [], _ => rfl
  | tree :: more, absent => by
    have first : tree.merge part = tree :=
      merge_absent fun below mem => absent below (by simp [allDescendants, mem])
    have rest : mergeAll part more = more :=
      mergeAll_absent fun below mem => absent below (by simp [allDescendants, mem])
    rw [mergeAll, first, rest]

end

def mergeParts (parts : List Contribution) (tree : Tree) : Tree :=
  parts.foldl (fun merged part => merged.merge part) tree

/-- The content of a node of some kind after a contribution. -/
def refill (kind : NodeKind) (content : List Tree) (part : Contribution) : List Tree :=
  let merged := content.map (merge part)
  if kind.isBlockNamed part.name then part.mode.merge merged part.content else merged

lemma mergeParts_append (first second tree) :
    mergeParts (first ++ second) tree = mergeParts second (mergeParts first tree) :=
  foldl_append

lemma mergeParts_node (parts kind pos attrs children) : mergeParts parts (.node kind pos attrs children) =
    .node kind pos attrs (parts.foldl (refill kind) children) := by
  induction parts generalizing children with
  | nil => rfl
  | cons part more ih =>
    have first : (Tree.node kind pos attrs children).merge part =
        .node kind pos attrs (refill kind children part) := by
      simp only [merge, mergeAll_eq_map, refill]
      cases part.mode <;> rfl
    rw [foldl_cons, ← ih (refill kind children part), ← first]
    rfl

lemma refill_other {kind} (noBlock : kind.isBlock = false) (parts)
    (content : List Tree) : parts.foldl (refill kind) content = content.map (mergeParts parts) := by
  have notNamed : ∀ name, kind.isBlockNamed name = false := by
    intro name
    unfold NodeKind.isBlockNamed
    split
    · cases noBlock
    · rfl
  induction parts generalizing content with
  | nil =>
    change content = content.map id
    simp
  | cons part more ih =>
    have first : refill kind content part = content.map (merge part) := by
      simp [refill, notNamed]
    rw [foldl_cons, first, ih, map_map]
    rfl

/-- The layout with the declarations of the child around its own content. -/
def adopt (layout child : Tree) : Tree :=
  node layout.kind layout.position layout.attributes
    (child.children.filter (·.kind.isDeclaration) ++ layout.children ++ child.children.filter (·.kind.isMixin))

/-- The layout as it is extended by a child with the given blocks. -/
def extend (layout child : Tree) (parts : List Contribution) : Tree :=
  mergeParts parts (layout.adopt child)

lemma extend_kind (layout child : Tree) (parts) : (layout.extend child parts).kind = layout.kind := by
  rw [extend, adopt, mergeParts_node]
  rfl

lemma extend_children {layout : Tree} (noBlock : layout.kind.isBlock = false) (child)
    (parts : List Contribution) : (layout.extend child parts).children =
      (child.children.filter (·.kind.isDeclaration) ++ layout.children ++
        child.children.filter (·.kind.isMixin)).map (mergeParts parts) := by
  rw [extend, adopt, mergeParts_node, refill_other noBlock]
  rfl

end Tree

namespace Document

/-- Whether a node is in the tree, but not below a block other than itself. -/
def isOutermost (doc : Document) (id : Nat) : Bool :=
  (doc.descendants root).contains id &&
    doc.blocks.all fun block => block == id || !(doc.descendants block).contains id

/-- What a node of the child gives to the layout. -/
def partAt (child : Document) (id : Nat) : Option Contribution :=
  match child.kind id with
  | .statement (.block (some name) mode) =>
    if child.isOutermost id then
      some ⟨name, mode, (child.children id).map child.treeAt⟩
    else
      none
  | _ => none

/-- The blocks that a child merges into its layout, in the order of their creation. -/
def contributions (child : Document) : List Contribution :=
  child.blocks.filterMap child.partAt

variable {layout child doc : Document} {id : Nat}

lemma foldl_mergeBlock_refilled (childWf : child.WellFormed) (block mode)
    (wf : layout.WellFormed) (targets) (distinct : targets.Nodup)
    (inside : ∀ id ∈ targets, id < layout.size)
    (kinds : ∀ id ∈ targets, (layout.kind id).isAttribute = false) : Refilled layout
      (targets.foldl (fun merged target => merged.mergeBlock child block mode target) layout)
      targets mode ((child.children block).map child.treeAt) := by
  induction targets generalizing layout with
  | nil => exact .nothing wf mode _
  | cons target more ih =>
    have first := (wf.graftChildren_supplies childWf block).refilled mode
      wf (inside target (by simp)) (kinds target (by simp)) (childWf.child_trees_kinds block)
    obtain ⟨moreInside, moreKinds⟩ := first.still (forall_mem_cons.1 inside).2 (forall_mem_cons.1 kinds).2
    exact first.cons (ih first.well_formed (nodup_cons.1 distinct).2 moreInside moreKinds) inside distinct

lemma mem_blocksNamed (wf : doc.WellFormed) (name) (inside : id < doc.size)
    (attached : doc.isAttached id) :
    id ∈ doc.blocksNamed name ↔ (doc.kind id).isBlockNamed name := by
  simp only [blocksNamed, wf.indexed.blocks, mem_filter, mem_listed, inside, attached]
  cases doc.kind id with
  | statement line =>
    cases line with
    | block title mode =>
      cases title with
      | none => simp [NodeKind.isBlockNamed]
      | some other => simp [NodeKind.isBlockNamed, NodeKind.isBlock]
    | _ => simp [NodeKind.isBlockNamed]
  | _ => simp [NodeKind.isBlockNamed]

lemma blocksNamed_facts (wf : doc.WellFormed) (name) :
    (doc.blocksNamed name).Nodup ∧ (∀ id ∈ doc.blocksNamed name, id < doc.size) ∧
      ∀ id ∈ doc.blocksNamed name, (doc.kind id).isAttribute = false := by
  have sorted := doc.listed_sorted NodeKind.isBlock
  refine ⟨?_, ?_, ?_⟩
  · unfold blocksNamed
    rw [wf.indexed.blocks]
    exact (sorted.filter _).imp fun before => Nat.ne_of_lt before
  · intro id mem
    have listed := (mem_filter.1 mem).1
    rw [wf.indexed.blocks] at listed
    exact (mem_listed.1 listed).1
  · intro id mem
    have listed := (mem_filter.1 mem).1
    rw [wf.indexed.blocks] at listed
    have isBlock := (mem_listed.1 listed).2
    cases kind : doc.kind id <;> simp_all [NodeKind.isBlock, NodeKind.isAttribute]

lemma Refilled.treeAt_merge {after}
    (refilled : Refilled before after (before.blocksNamed name) mode content)
    (wf : before.WellFormed) (id) (inside : id < before.size)
    (attached : before.isAttached id) :
    after.treeAt id = (before.treeAt id).merge ⟨name, mode, content⟩ := by
  obtain ⟨-, -, kinds⟩ := blocksNamed_facts wf name
  induction id using wf.owned_induction with
  | step id ih =>
    have children : (before.children id).map after.treeAt =
        Tree.mergeAll ⟨name, mode, content⟩ ((before.children id).map before.treeAt) := by
      rw [Tree.mergeAll_eq_map, map_map]
      apply map_congr_left
      intro below child
      apply ih below (mem_append_right _ child) (wf.child_inside child)
      exact (wf.attached_iff (wf.child_parent child)).2 attached
    have attrs : (before.attributes id).map after.treeAt = (before.attributes id).map before.treeAt := by
      apply map_congr_left
      intro below owned
      exact refilled.treeAt_attribute wf kinds owned
    rw [refilled.well_formed.treeAt_eq, wf.treeAt_eq, refilled.kind id inside,
      refilled.position id inside, refilled.attributes id inside, attrs, Tree.merge]
    have target := mem_blocksNamed wf name inside attached
    by_cases isTarget : (before.kind id).isBlockNamed name = true
    · obtain ⟨filling, trees, -, filled⟩ := refilled.filled id (target.2 isTarget)
      rw [if_pos isTarget, filled, ← children, ← trees]
      cases mode with
      | replace => rfl
      | append | prepend => simp [BlockMode.merge]
    · rw [if_neg isTarget, refilled.others id inside (fun mem => isTarget (target.1 mem)), children]

lemma outermost_iff (wf : child.WellFormed) (listed : id ∈ child.blocks) : child.isOutermost id ↔
    child.isAttached id ∧ ∀ above : Nat, above ∈ child.ancestors id → (child.kind above).isBlock = false := by
  rw [wf.indexed.blocks] at listed
  obtain ⟨inside, isBlock⟩ := mem_listed.1 listed
  have kind : (child.kind id).isAttribute = false := by
    cases kind : child.kind id <;> simp_all [NodeKind.isBlock, NodeKind.isAttribute]
  have attached : id ∈ child.descendants root ↔ child.isAttached id := by
    refine (wf.mem_descendants_iff kind).trans ?_
    rw [isAttached, contains_iff_mem]
    rfl
  simp only [isOutermost, wf.indexed.blocks, Bool.and_eq_true, contains_iff_mem,
    attached, all_eq_true, Bool.or_eq_true, beq_iff_eq, Bool.not_eq_true']
  apply and_congr_right
  intro _
  constructor
  · intro outside above mem
    have before := wf.ancestors_before mem
    cases aboveKind : (child.kind above).isBlock with
    | false => rfl
    | true =>
      have aboveInside : above < child.size := by omega
      rcases outside above (mem_listed.2 ⟨aboveInside, aboveKind⟩) with same | notBelow
      · exact absurd same (Nat.ne_of_lt before)
      · have below := (wf.mem_descendants_iff kind).2 (mem_cons_of_mem _ mem)
        simp_all
  · intro noBlock block blockListed
    obtain ⟨blockInside, blockKind⟩ := mem_listed.1 blockListed
    by_cases same : block = id
    · exact .inl same
    · right
      rw [Bool.eq_false_iff, Ne, contains_iff_mem]
      intro below
      have above := wf.descendants_lineage below
      rcases mem_cons.1 above with equal | higher
      · exact same equal
      · rw [noBlock block higher] at blockKind
        cases blockKind

lemma contribution_partAt (wf : child.WellFormed) (listed : id ∈ child.blocks) :
    child.partAt id = (child.contribution? id).map fun (name, mode) =>
      ⟨name, mode, (child.children id).map child.treeAt⟩ := by
  have outermost := outermost_iff wf listed
  have condition : (child.isAttached id && !(child.ancestors id).any fun above =>
      (child.kind above).isBlock) = child.isOutermost id := by
    rw [Bool.eq_iff_iff, outermost]
    simp
  unfold partAt contribution?
  rw [condition]
  cases child.kind id with
  | statement line =>
    cases line with
    | block title mode =>
      cases title with
      | none => rfl
      | some name =>
        dsimp only
        split
        · rfl
        · rfl
    | _ => rfl
  | _ => rfl

lemma contribute_tree (wf : layout.WellFormed) (childWf : child.WellFormed)
    (listed : id ∈ child.blocks) : (layout.contribute child id).WellFormed ∧ (layout.contribute child id).tree =
        (child.partAt id).elim layout.tree fun part => layout.tree.merge part := by
  rw [contribution_partAt childWf listed]
  unfold contribute
  cases child.contribution? id with
  | none => exact ⟨wf, rfl⟩
  | some found =>
    obtain ⟨name, mode⟩ := found
    obtain ⟨distinct, inside, kinds⟩ := blocksNamed_facts wf name
    have refilled := foldl_mergeBlock_refilled childWf id mode wf
      (layout.blocksNamed name) distinct inside kinds
    refine ⟨refilled.well_formed, ?_⟩
    exact refilled.treeAt_merge wf root wf.inside_root layout.root_attached

lemma foldl_contribute_tree (childWf : child.WellFormed) (ids : List Nat)
    (listed : ∀ id ∈ ids, id ∈ child.blocks) (wf : layout.WellFormed) :
    (ids.foldl (fun merged id => merged.contribute child id) layout).WellFormed ∧
      (ids.foldl (fun merged id => merged.contribute child id) layout).tree =
        layout.tree.mergeParts (ids.filterMap child.partAt) := by
  induction ids generalizing layout with
  | nil => exact ⟨wf, rfl⟩
  | cons id more ih =>
    have first := contribute_tree wf childWf (listed id (by simp))
    have rest := ih (fun other mem => listed other (by simp [mem])) first.1
    refine ⟨rest.1, ?_⟩
    rw [foldl_cons, rest.2, first.2, filterMap_cons]
    cases child.partAt id with
    | none | some => rfl

lemma insert_may_own (wf : doc.WellFormed) (index)
    (ownerKind : (doc.kind owner).isAttribute = false) (distinct : ids.Nodup)
    (orphan : ∀ id ∈ ids, doc.parent id = none) (later : ∀ id ∈ ids, owner < id)
    (kinds : ∀ id ∈ ids, (doc.kind id).isAttribute = false) : MayOwn doc owner
      ((doc.children owner).take index ++ ids ++ (doc.children owner).drop index) := by
  have notOld : ∀ id ∈ ids, id ∉ doc.children owner := by
    intro id mem child
    have parent := wf.child_parent child
    rw [orphan id mem] at parent
    cases parent
  have old := wf.children_distinct owner
  rw [← take_append_drop index (doc.children owner)] at old
  obtain ⟨front, back, apart⟩ := nodup_append.1 old
  constructor
  · exact ownerKind
  · rw [append_assoc]
    refine nodup_append.2 ⟨front, nodup_append.2 ⟨distinct, back, ?_⟩, ?_⟩
    · intro new newMember other otherMember same
      exact notOld new newMember (same ▸ mem_of_mem_drop otherMember)
    · intro first firstMember other otherMember same
      rcases mem_append.1 otherMember with new | last
      · exact notOld other new (same ▸ mem_of_mem_take firstMember)
      · exact apart first firstMember other last same
  · intro id mem
    rcases mem_inserted mem with isOld | isNew
    · exact .inr isOld
    · exact .inl (orphan id isNew)
  · intro id mem
    rcases mem_inserted mem with isOld | isNew
    · exact wf.child_after isOld
    · exact later id isNew
  · intro id mem
    rcases mem_inserted mem with isOld | isNew
    · exact wf.child_kind isOld
    · exact kinds id isNew

lemma graftDeclarations_supplies (childWf : child.WellFormed) (ids) (wf : layout.WellFormed) :
    Supplies layout (layout.graftDeclarations child ids).1 (layout.graftDeclarations child ids).2.1
        ((ids.map child.treeAt).filter (·.kind.isDeclaration)) ∧
      Supplies layout (layout.graftDeclarations child ids).1
        (layout.graftDeclarations child ids).2.2 ((ids.map child.treeAt).filter (·.kind.isMixin)) ∧
      ∀ id ∈ (layout.graftDeclarations child ids).2.1, id ∉ (layout.graftDeclarations child ids).2.2 := by
  induction ids generalizing layout with
  | nil => exact ⟨.nothing wf, .nothing wf, by simp [graftDeclarations]⟩
  | cons id more ih =>
    have first := wf.graft_supplies childWf id
    have larger := first.inside layout.size (by simp)
    obtain ⟨code, mixins, apart⟩ := ih first.well_formed
    have skipped := ih wf
    have copyApart : ∀ ids : List Nat, (∀ new ∈ ids, (layout.graft (child.subtree id)).1.size ≤ new) →
        layout.size ∉ ids := by
      intro ids fresh mem
      exact absurd larger (Nat.not_lt.2 (fresh layout.size mem))
    have asCode : ∀ new ∈ layout.size :: ((layout.graft (child.subtree id)).1.graftDeclarations child more).2.1,
        new ∉ ((layout.graft (child.subtree id)).1.graftDeclarations child more).2.2 := by
      intro new mem
      rcases mem_cons.1 mem with same | old
      · rw [same]
        exact copyApart _ mixins.fresh
      · exact apart new old
    have asMixin : ∀ new ∈ ((layout.graft (child.subtree id)).1.graftDeclarations child more).2.1,
        new ∉ layout.size :: ((layout.graft (child.subtree id)).1.graftDeclarations child more).2.2 := by
      intro new mem inMixins
      rcases mem_cons.1 inMixins with same | old
      · rw [same] at mem
        exact copyApart _ code.fresh mem
      · exact apart new mem old
    simp only [map_cons, filter_cons, kind_treeAt]
    unfold graftDeclarations
    -- a node is code, a mixin, or left out
    split
    all_goals
      rename_i kind
    iterate 2
      · simp only [kind]
        exact ⟨first.append code, mixins.earlier first.grows, asCode⟩
    · simp only [kind]
      exact ⟨code.earlier first.grows, first.append mixins, asMixin⟩
    · have neither : (child.kind id).isDeclaration = false ∧ (child.kind id).isMixin = false := by
        unfold NodeKind.isDeclaration NodeKind.isMixin
        constructor <;> split <;> simp_all
      rw [neither.1, neither.2]
      exact skipped

lemma WellFormed.root_lineage (wf : doc.WellFormed) (notRoot : id ≠ 0) : id ∉ doc.lineage root := by
  rw [lineage, ancestors_none wf.root_parent, mem_singleton]
  exact notRoot

lemma insert_below_root (wf : doc.WellFormed) (index) (distinct : ids.Nodup)
    (orphan : ∀ id ∈ ids, doc.parent id = none) (inside : ∀ id ∈ ids, id < doc.size)
    (positive : ∀ id ∈ ids, 0 < id)
    (kinds : ∀ id ∈ ids, (doc.kind id).isAttribute = false) : (doc.insertChildren root index ids).WellFormed ∧
      Relinks doc (doc.insertChildren root index ids) root
        ((doc.children root).take index ++ ids ++ (doc.children root).drop index) := by
  have rootKind : (doc.kind root).isAttribute = false := by
    rw [wf.root_kind]
    rfl
  have relinks := insertChildren_relinks wf index wf.root_inside inside
  have mayOwn := insert_may_own wf index rootKind distinct orphan positive kinds
  exact ⟨wf.relinked relinks mayOwn, relinks⟩

lemma enclose_relinks (wf : doc.WellFormed) (distinct : (front ++ back).Nodup)
    (orphan : ∀ id ∈ front ++ back, doc.parent id = none)
    (inside : ∀ id ∈ front ++ back, id < doc.size) (positive : ∀ id ∈ front ++ back, 0 < id)
    (kinds : ∀ id ∈ front ++ back, (doc.kind id).isAttribute = false)
    (opening : opened = doc.insertChildren root 0 front)
    (closing : closed = opened.insertChildren root (opened.children root).length back) :
    closed.WellFormed ∧ closed.kind root = doc.kind root ∧ closed.position root = doc.position root ∧
      closed.attributes root = doc.attributes root ∧
      closed.children root = front ++ doc.children root ++ back ∧
      ∀ id : Nat, id ≠ 0 → closed.treeAt id = doc.treeAt id := by
  have inFront : ∀ id ∈ front, id ∈ front ++ back := fun id => mem_append_left back
  have inBack : ∀ id ∈ back, id ∈ front ++ back := fun id => mem_append_right front
  obtain ⟨frontDistinct, backDistinct, apart⟩ := nodup_append.1 distinct
  obtain ⟨openedWf, openedRelinks⟩ := insert_below_root wf 0 frontDistinct
    (fun id mem => orphan id (inFront id mem))
    (fun id mem => inside id (inFront id mem))
    (fun id mem => positive id (inFront id mem))
    (fun id mem => kinds id (inFront id mem))
  rw [← opening] at openedWf openedRelinks
  have openedChildren : opened.children root = front ++ doc.children root := by
    rw [openedRelinks.children_eq]
    simp
  have backOrphan : ∀ id ∈ back, opened.parent id = none := by
    intro id mem
    have alone := orphan id (inBack id mem)
    have notOld : id ∉ doc.children root := by
      intro child
      rw [wf.child_parent child] at alone
      cases alone
    have notFront : id ∉ front := fun inFront => apart id inFront id mem rfl
    rw [openedRelinks.parent, if_neg (by simp [notFront, notOld]), if_neg notOld, alone]
  obtain ⟨closedWf, closedRelinks⟩ := insert_below_root openedWf
    (opened.children root).length backDistinct backOrphan
    (fun id mem => by
      rw [openedRelinks.size]
      exact inside id (inBack id mem))
    (fun id mem => positive id (inBack id mem))
    (fun id mem => by
      rw [openedRelinks.kind]
      exact kinds id (inBack id mem))
  rw [← closing] at closedWf closedRelinks
  refine ⟨closedWf, ?_, ?_, ?_, ?_, ?_⟩
  · rw [closedRelinks.kind, openedRelinks.kind]
  · rw [closedRelinks.position, openedRelinks.position]
  · rw [closedRelinks.attributes, openedRelinks.attributes]
  · rw [closedRelinks.children_eq, if_pos rfl, List.take_length, drop_length, append_nil, openedChildren]
  · intro id notRoot
    rw [closedRelinks.treeAt_outside openedWf closedWf (openedWf.root_lineage notRoot),
      openedRelinks.treeAt_outside wf openedWf (wf.root_lineage notRoot)]

/-- The child's code goes to the front of the layout and its mixins to the end. -/
theorem adoptDeclarations_tree (wf : layout.WellFormed) (childWf : child.WellFormed) :
    (layout.adoptDeclarations child).WellFormed ∧
      (layout.adoptDeclarations child).tree = layout.tree.adopt child.tree := by
  obtain ⟨code, mixins, apart⟩ := graftDeclarations_supplies childWf (child.children root) wf
  unfold adoptDeclarations
  generalize layout.graftDeclarations child (child.children root) = grafting at code mixins apart ⊢
  obtain ⟨grafted, codeIds, mixinIds⟩ := grafting
  have positive := wf.inside_root
  have rootContent : SameContent layout grafted root := code.grows.content positive
  have noAttribute : ∀ test : Tree → Bool, ∀ tree ∈ ((child.children root).map child.treeAt).filter test,
      tree.kind.isAttribute = false := fun test tree mem =>
    childWf.child_trees_kinds root tree (mem_filter.1 mem).1
  have distinct : (codeIds ++ mixinIds).Nodup := by
    refine nodup_append.2 ⟨code.distinct, mixins.distinct, ?_⟩
    intro id inCode other inMixins same
    exact apart id inCode (same ▸ inMixins)
  have fresh : ∀ id ∈ codeIds ++ mixinIds, layout.size ≤ id := by
    intro id mem
    exact (mem_append.1 mem).elim (code.fresh id) (mixins.fresh id)
  obtain ⟨closedWf, kind, pos, attrs, children, trees⟩ := enclose_relinks code.well_formed distinct
      (fun id mem => (mem_append.1 mem).elim (code.orphan id) (mixins.orphan id))
      (fun id mem => (mem_append.1 mem).elim (code.inside id) (mixins.inside id))
      (fun id mem => Nat.lt_of_lt_of_le positive (fresh id mem))
      (fun id mem => (mem_append.1 mem).elim
        (code.kinds (fun kind => kind.isAttribute = false) (noAttribute _) id)
        (mixins.kinds (fun kind => kind.isAttribute = false) (noAttribute _) id))
      rfl rfl
  refine ⟨closedWf, ?_⟩
  have newTrees : ∀ ids : List Nat, (∀ id ∈ ids, layout.size ≤ id) →
      ids.map ((grafted.insertChildren root 0 codeIds).insertChildren root
        ((grafted.insertChildren root 0 codeIds).children root).length mixinIds).treeAt =
        ids.map grafted.treeAt := by
    intro ids late
    apply map_congr_left
    intro id mem
    have bound := late id mem
    exact trees id (by omega)
  have oldTrees : ∀ ids : List Nat, (∀ id ∈ ids, layout.parent id = some root) →
      ids.map ((grafted.insertChildren root 0 codeIds).insertChildren root
        ((grafted.insertChildren root 0 codeIds).children root).length mixinIds).treeAt =
        ids.map layout.treeAt := by
    intro ids owned
    apply map_congr_left
    intro id mem
    have parent := owned id mem
    have after := wf.ordered parent
    rw [trees id (Nat.ne_of_gt after), code.grows.treeAt wf code.well_formed (parent_inside parent)]
  unfold tree Tree.adopt
  rw [closedWf.treeAt_eq, wf.treeAt_eq root, childWf.treeAt_eq root, kind,
    pos, attrs, children, rootContent.kind, rootContent.position,
    rootContent.attributes, rootContent.children, map_append, map_append,
    newTrees codeIds code.fresh, newTrees mixinIds mixins.fresh, code.trees, mixins.trees,
    oldTrees (layout.attributes root) (fun id => wf.attribute_parent),
    oldTrees (layout.children root) (fun id => wf.child_parent)]
  rfl

lemma extend_tree (wf : layout.WellFormed) (childWf : child.WellFormed) : (layout.extend child).WellFormed ∧
    (layout.extend child).tree = layout.tree.extend child.tree child.contributions := by
  have adopted := adoptDeclarations_tree wf childWf
  have merged := foldl_contribute_tree childWf child.blocks (fun _ mem => mem) adopted.1
  refine ⟨merged.1, ?_⟩
  unfold extend
  rw [merged.2, adopted.2]
  rfl

/-- The tree of a layout that is extended by one child after the other. -/
def inherited (base : Document) (children : List Document) : Tree :=
  children.foldl (fun tree child => tree.extend child.tree child.contributions) base.tree

/-- What stands in a layout stays in its place under all its children, and takes in their
contributions in order. -/
theorem foldl_extend_children (children : List Document) {tree : Tree} (noBlock : tree.kind.isBlock = false) :
    ∃ front back, (children.foldl (fun tree child => tree.extend child.tree child.contributions) tree).children =
        front ++ tree.children.map (Tree.mergeParts (children.flatMap contributions)) ++ back := by
  induction children generalizing tree with
  | nil =>
    refine ⟨[], [], ?_⟩
    change tree.children = tree.children.map id ++ []
    simp
  | cons child more ih =>
    have kind := tree.extend_kind child.tree child.contributions
    obtain ⟨front, back, rest⟩ := ih (kind ▸ noBlock)
    let later := Tree.mergeParts (more.flatMap contributions)
    let code := child.tree.children.filter (·.kind.isDeclaration)
    let mixins := child.tree.children.filter (·.kind.isMixin)
    refine ⟨front ++ (code.map (Tree.mergeParts child.contributions)).map later,
      (mixins.map (Tree.mergeParts child.contributions)).map later ++ back, ?_⟩
    have both : ∀ trees : List Tree, (trees.map (Tree.mergeParts child.contributions)).map later =
        trees.map (Tree.mergeParts ((child :: more).flatMap contributions)) := by
      intro trees
      rw [map_map]
      apply map_congr_left
      intro tree _
      exact (Tree.mergeParts_append _ _ tree).symm
    rw [foldl_cons, rest, Tree.extend_children noBlock, map_append, map_append,
      map_append, map_append, ← both tree.children]
    simp only [append_assoc]
    rfl

end Document

end PugTemplate
