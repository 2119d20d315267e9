import PugTemplate.Proofs.Levels

/-!
# What the passes keep

The passes change documents by few operations: nodes are created and copied, blocks get new
children, nodes are inserted below the root, and imports, calls and mixins give their place to new
nodes. What these operations keep is kept by a load and by the expansion of mixins.
-/

namespace PugTemplate

open NodeKind

/-- What a pass takes out of the tree. -/
def NodeKind.isPlaceholder (kind : NodeKind) : Bool :=
  kind.isImport || kind.isCall || kind.isMixin

variable {kind : NodeKind} {after doc : Document}

lemma NodeKind.placeholder_no_attribute (placeholder : kind.isPlaceholder) : kind.isAttribute = false := by
  cases kind with
  | attr | assignment => cases placeholder
  | _ => rfl

lemma NodeKind.block_no_attribute (isBlock : kind.isBlock) : kind.isAttribute = false := by
  cases kind with
  | attr | assignment => cases isBlock
  | _ => rfl

namespace Document

/-- A property of documents that every operation of the passes keeps. -/
structure Lasting (property : Document → Prop) : Prop where
  create : ∀ {doc : Document}, doc.WellFormed → property doc →
    ∀ (kind : NodeKind) (position : Position), property (doc.create kind position).1
  graft : ∀ {doc source : Document}, doc.WellFormed → property doc →
    source.WellFormed → property source → ∀ id : Nat, property (doc.graft (source.subtree id)).1
  refill : ∀ {doc : Document}, doc.WellFormed → property doc →
    ∀ {target : Nat} {children : List Nat}, target < doc.size →
      (doc.kind target).isBlock → (∀ id ∈ children, id < doc.size) →
      MayOwn doc target children → property (doc.setChildren target children)
  insert : ∀ {doc : Document}, doc.WellFormed → property doc →
    ∀ (index : Nat) {ids : List Nat}, ids.Nodup → (∀ id ∈ ids, doc.parent id = none) →
      (∀ id ∈ ids, id < doc.size) → (∀ id ∈ ids, 0 < id) →
      property (doc.insertChildren root index ids)
  replace : ∀ {doc : Document}, doc.WellFormed → property doc →
    ∀ {owner id : Nat} {ids : List Nat}, doc.parent id = some owner →
      (doc.kind id).isPlaceholder → (∀ new ∈ ids, new < doc.size) →
      (∀ new ∈ ids, doc.parent new = none) → ids.Nodup → (∀ new ∈ ids, owner < new) →
      property (doc.replace id ids)

lemma slot_block (isSlot : kind.isSlot) : kind.isBlock := by
  unfold NodeKind.isSlot at isSlot
  split at isSlot
  · rfl
  · cases isSlot

namespace Lasting

variable {prop : Document → Prop} (lasting : Lasting prop)

include lasting

lemma createAll (pos kinds) (wf : doc.WellFormed) (holds : prop doc) : prop (doc.createAll pos kinds).1 := by
  induction kinds generalizing doc with
  | nil => exact holds
  | cons kind more ih =>
    exact ih (wf.create kind pos) (lasting.create wf holds kind pos)

lemma graftAll (sourceWf : source.WellFormed) (sourceHolds : prop source) (ids : List Nat)
    (wf : doc.WellFormed) (holds : prop doc) : prop (doc.graftAll (ids.map source.subtree)).1 := by
  induction ids generalizing doc with
  | nil => exact holds
  | cons id more ih =>
    exact ih (wf.graft_supplies sourceWf id).well_formed (lasting.graft wf holds sourceWf sourceHolds id)

lemma graftChildren (wf : doc.WellFormed) (holds : prop doc) (sourceWf : source.WellFormed)
    (sourceHolds : prop source) (parent) : prop (doc.graftChildren source parent).1 :=
  lasting.graftAll sourceWf sourceHolds (source.children parent) wf holds

lemma duplicateAll (ids) (wf : doc.WellFormed)
    (holds : prop doc) : prop (doc.duplicateAll ids).1 := by
  induction ids generalizing doc with
  | nil => exact holds
  | cons id more ih =>
    exact ih (wf.graft_supplies wf id).well_formed (lasting.graft wf holds wf holds id)

lemma replaced {id} (supplies : Supplies before after ids trees) (wf : before.WellFormed)
    (holds : prop after) (parent : before.parent id = some owner)
    (placeholder : (before.kind id).isPlaceholder) : prop (after.replace id ids) := by
  have inside := parent_inside parent
  have earlier := wf.ordered parent
  refine lasting.replace supplies.well_formed holds ((supplies.grows.parent inside).trans parent) ?_
    supplies.inside supplies.orphan supplies.distinct ?_
  · rw [(supplies.grows.content inside).kind]
    exact placeholder
  · intro new mem
    have fresh := supplies.fresh new mem
    omega

lemma merged (supplies : Supplies before after filling content) (wf : before.WellFormed)
    (holds : prop after) (inside : target < before.size)
    (isBlock : (before.kind target).isBlock)
    (kinds : ∀ tree ∈ content, tree.kind.isAttribute = false) (mode : BlockMode) :
    prop (after.setChildren target (mode.merge (after.children target) filling)) := by
  refine lasting.refill supplies.well_formed holds (Nat.lt_of_lt_of_le inside supplies.grows.size_le) ?_ ?_
    (supplies.merge_may_own mode wf inside (block_no_attribute isBlock) kinds)
  · rw [(supplies.grows.content inside).kind]
    exact isBlock
  · intro id mem
    rcases mem_merge mem with old | new
    · exact supplies.well_formed.child_inside old
    · exact supplies.inside id new

section Inheritance

variable {layout child : Document} (childWf : child.WellFormed) (childHolds : prop child)
  (wf : layout.WellFormed) (holds : prop layout)

include childWf childHolds wf holds

lemma graftDeclarations (ids) : prop (layout.graftDeclarations child ids).1 := by
  induction ids generalizing layout with
  | nil => exact holds
  | cons id more ih =>
    have copied := ih (wf.graft_supplies childWf id).well_formed
      (lasting.graft wf holds childWf childHolds id)
    unfold graftDeclarations
    split
    · exact copied
    · exact copied
    · exact copied
    · exact ih wf holds

lemma adoptDeclarations : prop (layout.adoptDeclarations child) := by
  obtain ⟨code, mixins, apart⟩ := graftDeclarations_supplies childWf (child.children root) wf
  have graftedHolds := lasting.graftDeclarations childWf childHolds wf holds (child.children root)
  unfold Document.adoptDeclarations
  generalize layout.graftDeclarations child (child.children root) = grafting
    at code mixins apart graftedHolds ⊢
  obtain ⟨grafted, codeIds, mixinIds⟩ := grafting
  have positive := wf.inside_root
  have codePositive : ∀ id ∈ codeIds, 0 < id := fun id mem =>
    Nat.lt_of_lt_of_le positive (code.fresh id mem)
  have codeKinds : ∀ id ∈ codeIds, (grafted.kind id).isAttribute = false :=
    code.kinds (fun kind => kind.isAttribute = false) fun tree mem =>
      childWf.child_trees_kinds root tree (List.mem_filter.1 mem).1
  obtain ⟨openedWf, relinks⟩ := insert_below_root code.well_formed 0 code.distinct
    code.orphan code.inside codePositive codeKinds
  have openedHolds := lasting.insert code.well_formed graftedHolds 0 code.distinct code.orphan
    code.inside codePositive
  refine lasting.insert openedWf openedHolds _ mixins.distinct ?_ ?_ ?_
  · intro id mem
    have alone := mixins.orphan id mem
    have notOld : id ∉ grafted.children root := by
      intro isChild
      rw [code.well_formed.child_parent isChild] at alone
      cases alone
    have notCode : id ∉ codeIds := fun inCode => apart id inCode mem
    have notListed : id ∉ (grafted.children root).take 0 ++ codeIds ++ (grafted.children root).drop 0 := by
      simp [notOld, notCode]
    rw [relinks.parent, if_neg notListed, if_neg notOld, alone]
  · intro id mem
    rw [relinks.size]
    exact mixins.inside id mem
  · exact fun id mem => Nat.lt_of_lt_of_le positive (mixins.fresh id mem)

lemma mergeBlocks (block) (mode : BlockMode) (targets : List Nat) (inside : ∀ id ∈ targets, id < layout.size)
    (kinds : ∀ id ∈ targets, (layout.kind id).isBlock) : prop
      (targets.foldl (fun merged target => merged.mergeBlock child block mode target) layout) := by
  induction targets generalizing layout with
  | nil => exact holds
  | cons target more ih =>
    obtain ⟨targetInside, moreInside⟩ := List.forall_mem_cons.1 inside
    obtain ⟨isBlock, moreKinds⟩ := List.forall_mem_cons.1 kinds
    have supplies := wf.graftChildren_supplies childWf block
    have contentKinds := childWf.child_trees_kinds block
    have refilled := supplies.refilled mode wf targetInside (block_no_attribute isBlock) contentKinds
    obtain ⟨stillInside, stillKinds⟩ := refilled.still moreInside moreKinds
    exact ih refilled.well_formed (lasting.merged supplies wf (lasting.graftChildren wf holds childWf
      childHolds block) targetInside isBlock contentKinds mode) stillInside stillKinds

lemma contribute (id) : prop (layout.contribute child id) := by
  unfold Document.contribute
  split
  · exact holds
  · rename_i name mode found
    have listed : ∀ target ∈ layout.blocksNamed name,
        target < layout.size ∧ (layout.kind target).isBlock = true := by
      intro target mem
      have isListed := (List.mem_filter.1 mem).1
      rw [wf.indexed.blocks] at isListed
      exact mem_listed.1 isListed
    exact lasting.mergeBlocks childWf childHolds wf holds id mode _
      (fun target mem => (listed target mem).1) (fun target mem => (listed target mem).2)

lemma extend : prop (layout.extend child) := by
  have each : ∀ (ids : List Nat), (∀ id ∈ ids, id ∈ child.blocks) → ∀ {layout : Document},
      layout.WellFormed → prop layout → prop (ids.foldl (fun merged id => merged.contribute child id) layout) := by
    intro ids
    induction ids with
    | nil => exact fun _ _ _ holds => holds
    | cons id more ih =>
      intro listed layout wf holds
      exact ih (fun other mem => listed other (by simp [mem]))
        (contribute_tree wf childWf (listed id (by simp))).1
        (lasting.contribute childWf childHolds wf holds id)
  exact each child.blocks (fun _ mem => mem) (adoptDeclarations_tree wf childWf).1
    (lasting.adoptDeclarations childWf childHolds wf holds)

end Inheritance

lemma fillSlots (content slots)
    (wf : doc.WellFormed) (holds : prop doc) (contentInside : ∀ id ∈ content, id < doc.size)
    (contentKinds : ∀ id ∈ content, (doc.kind id).isAttribute = false)
    (inside : ∀ slot ∈ slots, slot < doc.size) (kinds : ∀ slot ∈ slots, (doc.kind slot).isBlock) :
    prop (doc.fillSlots content slots) := by
  induction slots generalizing doc with
  | nil => exact holds
  | cons slot more ih =>
    obtain ⟨slotInside, moreInside⟩ := List.forall_mem_cons.1 inside
    obtain ⟨isBlock, moreKinds⟩ := List.forall_mem_cons.1 kinds
    have supplies := wf.duplicateAll_supplies content contentInside
    have treeKinds : ∀ tree ∈ content.map doc.treeAt, tree.kind.isAttribute = false := by
      intro tree mem
      obtain ⟨id, idMember, same⟩ := List.mem_map.1 mem
      rw [← same, kind_treeAt]
      exact contentKinds id idMember
    have refilled := supplies.refilled .replace wf slotInside (block_no_attribute isBlock) treeKinds
    obtain ⟨stillInside, stillKinds⟩ := refilled.still moreInside moreKinds
    obtain ⟨keptInside, keptKinds⟩ := refilled.still contentInside contentKinds
    exact ih refilled.well_formed (lasting.merged supplies wf (lasting.duplicateAll content wf holds)
      slotInside isBlock treeKinds .replace) keptInside keptKinds stillInside stillKinds

lemma body (wf : opened.WellFormed) (holds : prop opened) (defn call)
    (copied : opened.duplicateAll (opened.children defn) = copying) :
    prop (if (copying.1.children call).isEmpty then copying.1
      else copying.1.fillSlots (copying.1.children call) (copying.1.slots copying.2)) := by
  have inside : ∀ id ∈ opened.children defn, id < opened.size := fun id mem => wf.child_inside mem
  have supplies := wf.duplicateAll_supplies _ inside
  have copiedHolds := lasting.duplicateAll (opened.children defn) wf holds
  rw [copied] at supplies copiedHolds
  split
  · exact copiedHolds
  · refine lasting.fillSlots _ _ supplies.well_formed copiedHolds
      (fun id mem => supplies.well_formed.child_inside mem)
      (fun id mem => supplies.well_formed.child_kind mem) ?_ ?_
    · intro slot mem
      obtain ⟨⟨copy, isCopy, below⟩, -, -⟩ := mem_slots_iff.1 mem
      exact supplies.well_formed.descendants_inside (supplies.inside copy isCopy) below
    · intro slot mem
      exact slot_block (mem_slots_iff.1 mem).2.1

lemma instantiate (wf : doc.WellFormed) (holds : prop doc) (defnInside : defn < doc.size)
    (callInside : call < doc.size) (stash quote) :
    prop (doc.instantiate defn call stash quote).1 := by
  unfold Document.instantiate
  dsimp only
  generalize (if (doc.callBindings defn call quote).isEmpty then ([] : List NodeKind)
    else _ :: List.map _ _) = head
  generalize (if (doc.callBindings defn call quote).isEmpty then ([] : List NodeKind) else [_]) = tail
  have front := wf.createAll_supplies (doc.position call) head
  have frontHolds := lasting.createAll (doc.position call) head wf holds
  have middle := body_supplies wf front defnInside callInside rfl
  have middleHolds := lasting.body front.well_formed frontHolds defn call rfl
  exact lasting.createAll (doc.position call) tail middle.well_formed middleHolds

lemma expandAt (wf : doc.WellFormed) (holds : prop doc) (parent : doc.parent call = some owner)
    (callKind : (doc.kind call).isCall) (defnInside : defn < doc.size)
    (stash quote) : prop (doc.expandAt defn call stash quote) := by
  have supplies := expandAt_supplies wf parent defnInside stash quote
  refine lasting.replaced supplies wf ?_ parent (by simp [isPlaceholder, callKind])
  exact lasting.instantiate wf holds defnInside (parent_inside parent) stash quote

section Expansion

variable {defs : List (String × Nat)} {bound : Nat}
  (defined : ∀ name id, definition? defs name = some id → id < bound)

include defined

lemma expandAll (queue) (wf : state.document.WellFormed) (holds : prop state.document)
    (bounded : bound ≤ state.document.size)
    (ok : expandAll defs quote state queue = .ok (done, next)) :
    done.document.WellFormed ∧ prop done.document ∧ bound ≤ done.document.size := by
  induction queue generalizing state next with
  | nil =>
    cases ok
    exact ⟨wf, holds, bounded⟩
  | cons call more ih =>
    unfold Document.expandAll at ok
    cases named : state.document.pendingName? call with
    | none =>
      rw [named] at ok
      exact ih wf holds bounded ok
    | some name =>
      rw [named] at ok
      obtain ⟨⟨expanded, added⟩, stepped, ok⟩ := ok_of_bind ok
      obtain ⟨⟨final, others⟩, looped, ⟨⟩⟩ := ok_of_pure ok
      cases found : definition? defs name with
      | none =>
        unfold expandCall at stepped
        rw [found] at stepped
        cases stepped
      | some defn =>
        obtain ⟨kind, live⟩ := pendingName_some named
        have callKind : (state.document.kind call).isCall := by
          rw [kind]
          rfl
        obtain ⟨owner, parent⟩ := wf.placed (live_ancestors live).1 (by simp [kind])
        have inside := Nat.lt_of_lt_of_le (defined name defn found) bounded
        have advances := expandAt_advances wf parent callKind inside
          (Mixin.stashName (state.scopes + 1)) quote live
        have expandedHolds := lasting.expandAt wf holds parent callKind inside
          (Mixin.stashName (state.scopes + 1)) quote
        obtain ⟨after, isAfter, same⟩ := expandCall_found quote state call found
        rw [isAfter] at advances expandedHolds
        rw [same] at stepped
        cases stepped
        exact ih advances.well_formed expandedHolds (Nat.le_trans bounded advances.size_le) looped

lemma expandLevels (fuel) (wf : state.document.WellFormed) (holds : prop state.document)
    (bounded : bound ≤ state.document.size)
    (ok : expandLevels defs limit quote fuel state queue = .ok final) :
    final.WellFormed ∧ prop final := by
  induction fuel generalizing state queue with
  | zero =>
    unfold Document.expandLevels at ok
    split at ok
    · cases ok
      exact ⟨wf, holds⟩
    · cases ok
  | succ fuel ih =>
    unfold Document.expandLevels at ok
    split at ok
    · cases ok
      exact ⟨wf, holds⟩
    · obtain ⟨⟨done, next⟩, expanded, ok⟩ := ok_of_bind ok
      obtain ⟨doneWf, doneHolds, doneBounded⟩ := lasting.expandAll defined queue wf holds bounded expanded
      exact ih doneWf doneHolds doneBounded ok

end Expansion

lemma dropMixins (wf : doc.WellFormed) (holds : prop doc) : prop doc.dropMixins := by
  have each : ∀ (ids gone : List Nat) {after : Document}, Drops doc after gone →
      prop after → ids.Nodup → (∀ id ∈ ids, id ∉ gone) →
      (∀ id ∈ ids, (doc.kind id).isMixin = true ∧ doc.isAttached id = true) → prop (ids.foldl detach after) := by
    intro ids
    induction ids with
    | nil => exact fun _ _ _ holds _ _ _ => holds
    | cons id more ih =>
      intro gone after drops afterHolds distinct fresh mixins
      obtain ⟨isMixin, attached⟩ := mixins id (by simp)
      obtain ⟨notMore, moreDistinct⟩ := List.nodup_cons.1 distinct
      have noRoot : doc.kind id ≠ .document := by
        intro same
        rw [same] at isMixin
        cases isMixin
      obtain ⟨owner, parent⟩ := wf.placed attached noRoot
      have idFresh := fresh id (by simp)
      have placeholder : (after.kind id).isPlaceholder := by
        rw [drops.kind]
        simp [isPlaceholder, isMixin]
      refine ih (gone ++ [id])
        (drops.step wf parent idFresh (mixin_no_attribute isMixin)) ?_ moreDistinct
        ?_ (fun other mem => mixins other (by simp [mem]))
      · exact lasting.replace drops.well_formed afterHolds
          ((drops.parent id idFresh).trans parent) placeholder nofun nofun List.nodup_nil nofun
      · intro other mem
        have different : other ≠ id := fun same => notMore (same ▸ mem)
        simp [fresh other (List.mem_cons_of_mem _ mem), different]
  have start : Drops doc doc [] := ⟨wf, fun _ => rfl, fun _ => rfl, fun _ => rfl, fun _ _ => rfl, by simp⟩
  refine each _ [] start holds ?_ (by simp) fun id mem => (mem_dropped wf).1 mem
  rw [wf.indexed.mixins]
  apply List.Pairwise.filter
  exact (doc.listed_sorted isMixin).imp Nat.ne_of_lt

lemma expandMixins (wf : doc.WellFormed) (holds : prop doc)
    (ok : doc.expandMixins limit quote = .ok final) : final.WellFormed ∧ prop final := by
  obtain ⟨expanded, expansion, ⟨⟩⟩ := ok_of_pure ok
  obtain ⟨expandedWf, expandedHolds⟩ := lasting.expandLevels
    (fun _ _ found => (definition_inside wf found).1) limit wf holds
    (Nat.le_refl _) expansion
  exact ⟨(dropMixins_drops expandedWf).well_formed, lasting.dropMixins expandedWf expandedHolds⟩

end Lasting

end Document

namespace Compiler

open Document

variable {compiler : Compiler} {disk : Disk} {prop : Document → Prop}
  (lasting : Lasting prop)

include lasting

variable {origin : Option Path}

lemma includeFile_lasting {load}
    (loads : ∀ file pos doc, load file pos = .ok doc → doc.WellFormed ∧ prop doc) {id}
    (wf : doc.WellFormed) (holds : prop doc)
    (ok : compiler.includeFile disk load origin doc id = .ok after) : prop after := by
  rcases includeFile_cases ok with ⟨rfl, -⟩ | ⟨name, filter, made, ids, attached, kind, includes, rfl⟩
  · exact holds
  · obtain ⟨owner, parent⟩ := wf.placed attached (by simp [kind])
    have placeholder : (doc.kind id).isPlaceholder := by
      rw [kind]
      rfl
    cases includes with
    | text content pos =>
      exact lasting.replaced (wf.create_supplies (.text content true) pos) wf (lasting.create wf holds _ _)
        parent placeholder
    | template loaded =>
      obtain ⟨includedWf, includedHolds⟩ := loads _ _ _ loaded
      exact lasting.replaced (wf.graftChildren_supplies includedWf root) wf
        (lasting.graftChildren wf holds includedWf includedHolds root) parent placeholder

lemma loadWithin_lasting (parses : ∀ source doc, parse source = .ok doc → prop doc)
    (ok : compiler.loadWithin disk fuel source origin = .ok doc) : prop doc := by
  refine (loadWithin_keeps (fun source doc parsed => And.intro (parse_well_formed parsed)
    (parses source doc parsed)) (fun _ _ _ _ _ loads both step => ⟨?_, ?_⟩)
    (fun _ _ _ _ loads both extension => ⟨?_, ?_⟩) ok).2
  · exact includeFile_well_formed (fun _ _ _ loaded => (loads _ _ _ loaded).1) both.1 step
  · exact includeFile_lasting lasting loads both.1 both.2 step
  · exact extendLayout_well_formed (fun _ _ _ loaded => (loads _ _ _ loaded).1) both.1 extension
  · rcases extendLayout_cases extension with ⟨-, rfl⟩ | ⟨id, name, filter, file, layout, -, -, -, loaded, rfl⟩
    · exact both.2
    · obtain ⟨layoutWf, layoutHolds⟩ := loads _ _ _ loaded
      exact lasting.extend both.1 both.2 layoutWf layoutHolds

end Compiler

end PugTemplate
