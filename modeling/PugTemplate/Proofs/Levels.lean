import Mathlib.Data.List.Nodup
import PugTemplate.Proofs.Expansion

/-!
# Expansion level by level

All calls of a tree are expanded before those that come with them. A tree is expanded depth first
instead, with the calls inside a replacement one level deeper. Both come to the same tree: at the
start of a level all calls have the same number of levels left, and so it is again at its end.
-/

namespace PugTemplate

open List NodeKind

lemma NodeKind.mixin_no_attribute {kind : NodeKind} (isMixin : kind.isMixin) : kind.isAttribute = false := by
  unfold NodeKind.isMixin at isMixin
  split at isMixin
  · rfl
  · cases isMixin

lemma Tree.dropMixins_eq_map :
    dropMixins trees = (trees.filter fun tree => !tree.kind.isMixin).map withoutMixins := by
  induction trees with
  | nil => rfl
  | cons tree more ih =>
    rw [dropMixins, ih]
    cases isMixin : tree.kind.isMixin with
    | true | false => simp [isMixin]

variable {doc : Document} {quote : Char}

namespace Document

variable {id : Nat} {before after : Document}

lemma WellFormed.descendants_closed (wf : doc.WellFormed) (prop : Nat → Prop) (start : prop id)
    (closed : ∀ id, prop id → ∀ child : Nat, child ∈ doc.children id → prop child) :
    ∀ below ∈ doc.descendants id, prop below := by
  induction id using wf.owned_induction with
  | step id ih =>
    rw [wf.descendants_eq]
    refine forall_mem_cons.2 ⟨start, forall_mem_flatMap.2 fun child isChild => ?_⟩
    exact ih child (mem_append_right _ isChild) (closed id start child isChild)

lemma LevelDone.pending {next} (level : LevelDone before.size before after next) :
    Pending after after.size next where
  sorted := level.sorted
  early := fun id mem => (level.fresh id mem).2
  complete := by
    intro id inside isCall live
    by_cases early : id < before.size
    · rw [level.settled id early isCall] at live
      cases live
    · exact level.complete id (Nat.le_of_not_lt early) inside isCall live

lemma pending_start (wf : doc.WellFormed) : Pending doc doc.size (doc.calls.filter doc.isLive) where
  sorted := by
    rw [wf.indexed.calls]
    exact (doc.listed_sorted isCall).filter _
  early := by
    intro id mem
    rw [wf.indexed.calls, mem_filter, mem_listed] at mem
    exact mem.1.1
  complete := by
    intro id inside isCall live
    rw [wf.indexed.calls, mem_filter, mem_listed]
    exact ⟨⟨inside, isCall⟩, live⟩

section Bounds

variable (wf : doc.WellFormed) {names : List String} {out : List Tree}

include wf

lemma becomes_at_start : Becomes defs quote doc doc.size fuel [root] names out ↔
    Tree.Expands defs quote (fuel + 1) [doc.tree] names out := by
  apply Becomes.expands_iff wf (fuel + 1) fun id => id < doc.size
  · intro id _ _ child mem
    exact wf.child_inside mem
  · intro id inside _
    exact if_pos inside
  · simpa using wf.root_inside

lemma becomes_at_end
    (settled : ∀ id : Nat, id < bound → (doc.kind id).isCall → doc.isLive id = false) :
    Becomes defs quote doc bound fuel [root] names out ↔ Tree.Expands defs quote fuel [doc.tree] names out := by
  apply Becomes.expands_iff wf fuel fun id => doc.isLive id = true
  · intro id live noMixin child mem
    exact (wf.live_iff (wf.child_parent mem)).2 ⟨live, noMixin⟩
  · intro id live isCall
    apply if_neg
    intro early
    rw [settled id early isCall] at live
    cases live
  · simpa using wf.root_live

omit names out in
lemma expands_settled (live : doc.isLive id)
    (settled : ∀ id : Nat, doc.isLive id → (doc.kind id).isCall = false) :
    Tree.Expands defs quote fuel [doc.treeAt id] [] [doc.treeAt id] := by
  induction id using wf.owned_induction with
  | step id ih =>
    cases isMixin : (doc.kind id).isMixin with
    | true =>
      apply Tree.Expands.mixin _ .nil
      rw [kind_treeAt]
      exact isMixin
    | false =>
      have each : ∀ ids : List Nat, (∀ child ∈ ids, Tree.Expands defs quote fuel
          [doc.treeAt child] [] [doc.treeAt child]) →
          Tree.Expands defs quote fuel (ids.map doc.treeAt) [] (ids.map doc.treeAt) := by
        intro ids all
        induction ids with
        | nil => exact .nil
        | cons child more moreInduction =>
          have first := all child mem_cons_self
          apply first.append
          exact moreInduction (forall_mem_cons.1 all).2
      have below : Tree.Expands defs quote fuel (doc.treeAt id).children [] (doc.treeAt id).children := by
        rw [children_treeAt wf]
        apply each
        intro child mem
        apply ih child (mem_append_right _ mem)
        exact (wf.live_iff (wf.child_parent mem)).2 ⟨live, isMixin⟩
      have noMixin : (doc.treeAt id).kind.isMixin = false := by
        rw [kind_treeAt]
        exact isMixin
      have noCall : (doc.treeAt id).kind.isCall = false := by
        rw [kind_treeAt]
        exact settled id live
      have whole := Tree.Expands.other noMixin noCall below .nil
      rw [Tree.withChildren_children] at whole
      exact whole

omit names out in
lemma expands_no_calls (expands : ∃ names out, Tree.Expands defs quote 0 [doc.tree] names out)
    (live : doc.isLive call) : (doc.kind call).isCall = false := by
  have upward : ∀ id : Nat, doc.isLive id = true → (doc.kind id).isAttribute = false →
      ∃ names out, Tree.Expands defs quote 0 [doc.treeAt id] names out := by
    intro id
    induction id using wf.parent_induction with
    | step id ih =>
      intro idLive kind
      by_cases isRoot : id = root
      · rw [isRoot]
        exact expands
      · obtain ⟨owner, parent⟩ := attached_parent (live_ancestors idLive).1 isRoot
        obtain ⟨ownerLive, ownerKind⟩ := (wf.live_iff parent).1 idLive
        obtain ⟨names, out, above⟩ := ih owner parent ownerLive (wf.parent_no_attribute parent kind)
        have child := wf.child_of_parent parent kind
        obtain ⟨front, back, split⟩ := append_of_mem child
        cases above with
        | mixin isMixin rest =>
          rw [kind_treeAt, ownerKind] at isMixin
          cases isMixin
        | other noMixin noCall below rest =>
          rw [children_treeAt wf, split, map_append] at below
          obtain ⟨_, _, _, _, _, _, _, later⟩ := below.append_inv
          obtain ⟨names, _, out, _, _, _, inside, _⟩ := @Tree.Expands.append_inv _ _ _ [doc.treeAt id] _ _ _ later
          exact ⟨names, out, inside⟩
  cases isCall : (doc.kind call).isCall with
  | false => rfl
  | true =>
    obtain ⟨names, out, expands⟩ := upward call live (call_kinds isCall).1
    cases expands with
    | mixin isMixin rest =>
      rw [kind_treeAt, (call_kinds isCall).2] at isMixin
      cases isMixin
    | other noMixin noCall below rest =>
      rw [kind_treeAt, isCall] at noCall
      cases noCall

end Bounds

/-- What levels of expansion make of a document: no calls are left, and the tree is the expanded
one. The numbers under which calls save variables are those that follow the ones in use. -/
structure Unrolled (original : Document) (quote : Char) (remaining : Nat) (state : Expanding)
    (final : Document) : Prop where
  advances : Advances original final
  settled : ∀ id : Nat, final.isLive id → (final.kind id).isCall = false
  numbered : ∃ (count : Nat) (numbers : List Nat), numbers.Perm (List.range' (state.scopes + 1) count) ∧
      Tree.Expands original.tree.definitions quote remaining [state.document.tree]
        (numbers.map Mixin.stashName) [final.tree]

lemma Unrolled.nothing {original fuel state}
    (advances : Advances original state.document) (settled : ∀ id : Nat, state.document.isLive id →
      (state.document.kind id).isCall = false) : Unrolled original quote fuel state state.document where
  advances := advances
  settled := settled
  numbered := ⟨0, [], .refl _, expands_settled advances.well_formed advances.well_formed.root_live settled⟩

lemma Pending.settled (pending : Pending doc doc.size queue)
    (skipped : ∀ id ∈ queue, doc.pendingName? id = none) (id)
    (live : doc.isLive id) : (doc.kind id).isCall = false := by
  cases isCall : (doc.kind id).isCall with
  | false => rfl
  | true =>
    have queued := pending.complete id (inside_of_kind isCall rfl) isCall live
    rw [pendingName_none (skipped id queued) isCall] at live
    cases live

section Levels

variable {original : Document} (originalWf : original.WellFormed)

include originalWf

lemma expandLevels_done (fuel) (advances : Advances original state.document)
    (pending : Pending state.document state.document.size queue)
    (ok : expandLevels original.definitions limit quote fuel state queue = .ok final) :
    Unrolled original quote fuel state final := by
  induction fuel generalizing state queue with
  | zero =>
    unfold expandLevels at ok
    split at ok
    · rename_i notFound
      cases ok
      have skipped : ∀ id ∈ queue, state.document.pendingName? id = none := by
        simpa using notFound
      exact .nothing advances (pending.settled skipped)
    · cases ok
  | succ fuel ih =>
    unfold expandLevels at ok
    split at ok
    · rename_i isEmpty
      cases ok
      rw [isEmpty_iff.1 isEmpty] at pending
      exact .nothing advances (pending.settled (by simp))
    · obtain ⟨⟨done, next⟩, levelResult, ok⟩ := ok_of_bind ok
      obtain ⟨level, count, scopes, numbering⟩ := expandAll_done originalWf queue advances
        (Nat.le_refl _) pending levelResult fuel
      have later := ih (advances.trans level.advances) level.pending ok
      obtain ⟨others, numbers, perm, expands⟩ := later.numbered
      refine ⟨later.advances, later.settled, ?_⟩
      obtain ⟨all, allPerm, becomes⟩ := numbering numbers _
        ((becomes_at_end level.advances.well_formed level.settled).2 expands)
      refine ⟨count + others, all, ?_, (becomes_at_start advances.well_formed).1 becomes⟩
      apply allPerm.trans
      have shifted : state.scopes + 1 + count = done.scopes + 1 := by
        rw [scopes]
        exact Nat.add_right_comm state.scopes 1 count
      rw [← range'_append_1, shifted]
      exact perm.append_left _

lemma expandLevels_total (fuel) {state queue}
    (advances : Advances original state.document)
    (pending : Pending state.document state.document.size queue)
    (expands : ∃ names out, Tree.Expands original.tree.definitions quote fuel
      [state.document.tree] names out) :
    ∃ final, expandLevels original.definitions limit quote fuel state queue = .ok final := by
  induction fuel generalizing state queue with
  | zero =>
    unfold expandLevels
    have notFound : (queue.find? fun call => (state.document.pendingName? call).isSome) = none := by
      rw [find?_eq_none]
      intro call _
      cases named : state.document.pendingName? call with
      | none => simp
      | some name =>
        obtain ⟨kind, live⟩ := pendingName_some named
        have noCall := expands_no_calls advances.well_formed expands live
        rw [kind] at noCall
        cases noCall
    rw [notFound]
    exact ⟨_, rfl⟩
  | succ fuel ih =>
    unfold expandLevels
    split
    · exact ⟨_, rfl⟩
    · obtain ⟨names, out, expands⟩ := expands
      have becomes := (becomes_at_start advances.well_formed).2 expands
      obtain ⟨done, next, levelResult, doneNames, doneOut, doneBecomes⟩ :=
        expandAll_total originalWf queue advances (Nat.le_refl _) pending ⟨names, out, becomes⟩
      obtain ⟨level, -⟩ := expandAll_done originalWf queue advances (Nat.le_refl _) pending levelResult fuel
      have doneExpands := (becomes_at_end level.advances.well_formed level.settled).1 doneBecomes
      obtain ⟨final, ok⟩ := ih (advances.trans level.advances) level.pending ⟨doneNames, doneOut, doneExpands⟩
      rw [levelResult]
      exact ⟨final, ok⟩

end Levels

/-- Some nodes are taken out of the tree, and nothing else changes. -/
structure Drops (before after : Document) (gone : List Nat) : Prop where
  well_formed : after.WellFormed
  kind : ∀ id : Nat, after.kind id = before.kind id
  position : ∀ id : Nat, after.position id = before.position id
  attributes : ∀ id : Nat, after.attributes id = before.attributes id
  parent : ∀ id : Nat, id ∉ gone → after.parent id = before.parent id
  children : ∀ id : Nat, after.children id = (before.children id).filter fun child => child ∉ gone

lemma spliceAt_nothing (id) (distinct : siblings.Nodup) :
    spliceAt id [] siblings = siblings.filter fun sibling => sibling ≠ id := by
  rw [spliceAt_eq_flatMap id [] distinct]
  clear distinct
  induction siblings with
  | nil => rfl
  | cons sibling more ih =>
    by_cases same : sibling = id
    · simp [same, ih]
    · simp [same, ih]

lemma Drops.step (drops : Drops before after gone) (beforeWf : before.WellFormed)
    (parent : before.parent id = some owner) (fresh : id ∉ gone)
    (kind : (before.kind id).isAttribute = false) :
    Drops before (after.detach id) (gone ++ [id]) := by
  have wf := drops.well_formed
  have afterParent : after.parent id = some owner := (drops.parent id fresh).trans parent
  have afterKind : (after.kind id).isAttribute = false := by
    rw [drops.kind]
    exact kind
  have relinks : Relinks after (after.replace id []) owner (spliceAt id [] (after.children owner)) :=
    replace_relinks wf afterParent afterKind (by simp) (by simp)
  rw [spliceAt_nothing id (wf.children_distinct owner)] at relinks
  have mayOwn : MayOwn after owner ((after.children owner).filter fun sibling => sibling ≠ id) := by
    refine ⟨wf.parent_no_attribute afterParent afterKind, (wf.children_distinct owner).filter _, ?_, ?_, ?_⟩
    · intro sibling mem
      exact .inr (mem_filter.1 mem).1
    · intro sibling mem
      exact wf.child_after (mem_filter.1 mem).1
    · intro sibling mem
      exact wf.child_kind (mem_filter.1 mem).1
  refine ⟨wf.relinked relinks mayOwn, ?_, ?_, ?_, ?_, ?_⟩
  · intro other
    rw [detach, relinks.kind, drops.kind]
  · intro other
    rw [detach, relinks.position, drops.position]
  · intro other
    rw [detach, relinks.attributes, drops.attributes]
  · intro other notGone
    simp only [mem_append, mem_singleton, not_or] at notGone
    rw [detach, relinks.parent]
    by_cases sibling : other ∈ after.children owner
    · rw [if_pos (by simp [sibling, notGone.2]), ← drops.parent other notGone.1, wf.child_parent sibling]
    · rw [if_neg (by simp [sibling]), if_neg sibling, drops.parent other notGone.1]
  · intro other
    rw [detach, relinks.children_eq, drops.children, drops.children]
    by_cases same : other = owner
    · rw [if_pos same, same, filter_filter]
      apply filter_congr
      intro sibling _
      simp [and_comm]
    · rw [if_neg same]
      apply filter_congr
      intro sibling mem
      have notId : sibling ≠ id := by
        intro isId
        have siblingParent := beforeWf.child_parent mem
        rw [isId, parent] at siblingParent
        exact same (Option.some.inj siblingParent).symm
      simp [notId]

lemma Drops.run (drops : Drops before after gone) (beforeWf : before.WellFormed)
    (distinct : ids.Nodup) (fresh : ∀ id ∈ ids, id ∉ gone)
    (owned : ∀ id ∈ ids, ∃ owner : Nat, before.parent id = some owner)
    (kinds : ∀ id ∈ ids, (before.kind id).isAttribute = false) :
    Drops before (ids.foldl detach after) (gone ++ ids) := by
  induction ids generalizing after gone with
  | nil =>
    rw [append_nil]
    exact drops
  | cons id more ih =>
    obtain ⟨owner, parent⟩ := owned id mem_cons_self
    obtain ⟨notMore, moreDistinct⟩ := nodup_cons.1 distinct
    have next := drops.step beforeWf parent (fresh id mem_cons_self) (kinds id mem_cons_self)
    have whole := ih next moreDistinct ?_ ?_ ?_
    · simpa using whole
    · intro other mem
      have different : other ≠ id := fun same => notMore (same ▸ mem)
      simp [fresh other (mem_cons_of_mem _ mem), different]
    · exact (forall_mem_cons.1 owned).2
    · exact (forall_mem_cons.1 kinds).2

section Dropped

variable (wf : doc.WellFormed)

include wf

lemma mem_dropped : id ∈ doc.mixins.filter doc.isAttached ↔ (doc.kind id).isMixin ∧ doc.isAttached id := by
  rw [wf.indexed.mixins, mem_filter, mem_listed]
  constructor
  · rintro ⟨⟨-, isMixin⟩, attached⟩
    exact ⟨isMixin, attached⟩
  · rintro ⟨isMixin, attached⟩
    exact ⟨⟨inside_of_kind isMixin rfl, isMixin⟩, attached⟩

lemma dropMixins_drops : Drops doc doc.dropMixins (doc.mixins.filter doc.isAttached) := by
  have start : Drops doc doc [] := ⟨wf, fun _ => rfl, fun _ => rfl, fun _ => rfl, fun _ _ => rfl, by simp⟩
  have kinds : ∀ id ∈ doc.mixins.filter doc.isAttached,
      (doc.kind id).isMixin = true := fun id mem => ((mem_dropped wf).1 mem).1
  apply start.run wf
  · rw [wf.indexed.mixins]
    apply List.Pairwise.filter
    exact (doc.listed_sorted isMixin).imp Nat.ne_of_lt
  · simp
  · intro id mem
    refine wf.placed ((mem_dropped wf).1 mem).2 fun same => ?_
    have isMixin := kinds id mem
    rw [same] at isMixin
    cases isMixin
  · intro id mem
    exact mixin_no_attribute (kinds id mem)

lemma dropMixins_treeAt (attached : doc.isAttached id) :
    doc.dropMixins.treeAt id = (doc.treeAt id).withoutMixins := by
  have drops := dropMixins_drops wf
  have sameAttributes : ∀ id : Nat, (doc.kind id).isAttribute = true →
      doc.dropMixins.treeAt id = doc.treeAt id := by
    apply treeAt_congr wf drops.well_formed fun id => (doc.kind id).isAttribute = true
    · intro id kind below mem
      rcases mem_append.1 mem with asAttribute | child
      · exact wf.attribute_kind asAttribute
      · change below ∈ doc.children id at child
        rw [wf.leaf kind] at child
        cases child
    · intro id kind
      refine ⟨drops.kind id, drops.position id, drops.attributes id, ?_⟩
      rw [drops.children, wf.leaf kind]
      rfl
  induction id using wf.owned_induction with
  | step id ih =>
    have attrs : (doc.attributes id).map doc.dropMixins.treeAt = (doc.attributes id).map doc.treeAt := by
      apply map_congr_left
      intro owned mem
      exact sameAttributes owned (wf.attribute_kind mem)
    have childAttached : ∀ child : Nat, child ∈ doc.children id → doc.isAttached child = true := fun child mem =>
      (wf.attached_iff (wf.child_parent mem)).2 attached
    have children : (doc.dropMixins.children id).map doc.dropMixins.treeAt =
        Tree.dropMixins ((doc.children id).map doc.treeAt) := by
      rw [drops.children, Tree.dropMixins_eq_map, filter_map, map_map]
      have kept : (doc.children id).filter (fun child => child ∉ doc.mixins.filter doc.isAttached) =
            (doc.children id).filter ((fun tree : Tree => !tree.kind.isMixin) ∘ doc.treeAt) := by
        apply filter_congr
        intro child mem
        simp [mem_dropped wf, childAttached child mem, kind_treeAt]
      rw [kept]
      apply map_congr_left
      intro child mem
      have inChildren := (mem_filter.1 mem).1
      exact ih child (mem_append_right _ inChildren) (childAttached child inChildren)
    rw [drops.well_formed.treeAt_eq, drops.kind, drops.position, drops.attributes, attrs, children, wf.treeAt_eq id]
    rfl

lemma dropMixins_kinds (settled : ∀ id : Nat, doc.isLive id → (doc.kind id).isCall = false) :
    ∀ tree ∈ doc.dropMixins.tree.descendants, tree.kind.isMixin = false ∧ tree.kind.isCall = false := by
  have drops := dropMixins_drops wf
  have live : ∀ id ∈ doc.dropMixins.descendants root, doc.isLive id = true ∧ (doc.kind id).isMixin = false := by
    apply drops.well_formed.descendants_closed
      (fun id => doc.isLive id = true ∧ (doc.kind id).isMixin = false)
    · refine ⟨wf.root_live, ?_⟩
      rw [wf.root_kind]
      rfl
    · rintro id ⟨idLive, noMixin⟩ child mem
      rw [drops.children] at mem
      obtain ⟨inChildren, notDropped⟩ := mem_filter.1 mem
      have childLive := (wf.live_iff (wf.child_parent inChildren)).2 ⟨idLive, noMixin⟩
      refine ⟨childLive, ?_⟩
      simpa [mem_dropped wf, (live_ancestors childLive).1] using notDropped
  intro tree mem
  change tree ∈ (doc.dropMixins.treeAt root).descendants at mem
  rw [← drops.well_formed.descendants_treeAt] at mem
  obtain ⟨id, inTree, rfl⟩ := mem_map.1 mem
  obtain ⟨idLive, noMixin⟩ := live id inTree
  rw [kind_treeAt, drops.kind]
  exact ⟨noMixin, settled id idLive⟩

end Dropped

end Document

lemma Tree.expandMixins_eq_some_iff {tree ok : Tree} {limit} {stash : Nat → String} :
    tree.expandMixins limit quote stash = some ok ↔
      ∃ count expanded, Expands tree.definitions quote limit tree.children
        ((range' 0 count).map stash) expanded ∧ ok = tree.withChildren (dropMixins expanded) := by
  constructor
  · intro done
    obtain ⟨⟨expanded, last⟩, inside, same⟩ := Option.bind_eq_some_iff.1 done
    obtain ⟨count, -, expands⟩ :=
      expandAllIn_expands (expandCall_expands limit) tree.children 0 expanded last inside
    exact ⟨count, expanded, expands, (Option.some.inj same).symm⟩
  · rintro ⟨count, expanded, expands, rfl⟩
    have inside := expands.expandAllIn_eq stash 0 (by simp)
    unfold expandMixins
    dsimp only
    rw [inside]
    rfl

namespace Document

lemma expands_root_iff (wf : doc.WellFormed) : Tree.Expands defs quote fuel [doc.tree] names out ↔
    ∃ expanded, Tree.Expands defs quote fuel doc.tree.children names expanded ∧
      out = [doc.tree.withChildren expanded] := by
  have kind : doc.tree.kind = .document := (kind_treeAt doc root).trans wf.root_kind
  constructor
  · intro expands
    cases expands with
    | mixin isMixin rest =>
      rw [kind] at isMixin
      cases isMixin
    | call stash called found inside rest =>
      rw [kind] at called
      cases called
    | other noMixin noCall below rest =>
      cases rest
      rw [append_nil]
      exact ⟨_, below, rfl⟩
  · rintro ⟨expanded, below, rfl⟩
    have noMixin : doc.tree.kind.isMixin = false := by
      rw [kind]
      rfl
    have noCall : doc.tree.kind.isCall = false := by
      rw [kind]
      rfl
    have whole := Tree.Expands.other noMixin noCall below .nil
    rw [append_nil] at whole
    exact whole

lemma renumbering {count} (perm : numbers.Perm (range' 1 count)) :
    ∃ renumber : Nat → Nat, Function.Injective renumber ∧ numbers = (range' 0 count).map renumber := by
  have length : numbers.length = count := by
    rw [perm.length_eq, length_range']
  -- numbers beyond the last are renumbered so that the list could go on with them
  let renumber := fun index => numbers.getD index (index + 1)
  have listed : ∀ {index size}, index < count + size →
      (numbers ++ range' (1 + count) size)[index]? = some (renumber index) := by
    intro index size inside
    rcases Nat.lt_or_ge index count with early | late
    · rw [getElem?_append_left (by omega)]
      simp [renumber, length, early]
    · have further : index - count < size := by omega
      rw [getElem?_append_right (by omega)]
      simp [renumber, length, late, further]
      omega
  have distinct : ∀ size, (numbers ++ range' (1 + count) size).Nodup := by
    intro size
    rw [(perm.append_right _).nodup_iff, range'_append_1]
    exact nodup_range'
  refine ⟨renumber, ?_, ?_⟩
  · intro first second same
    have inside : first < count + (first + second + 1) := by omega
    refine (getElem?_inj (by simpa [length] using inside) (distinct (first + second + 1))).1 ?_
    rw [listed inside, listed (by omega), same]
  · apply ext_getElem?
    intro index
    have here := @listed index 0
    rcases Nat.lt_or_ge index count with early | late
    · simpa [early] using here early
    · simp [length, late]

lemma expandMixins_tree (wf : doc.WellFormed) (limit quote) {expanded}
    (ok : doc.expandMixins limit quote = .ok expanded) :
    (∃ renumber : Nat → Nat, Function.Injective renumber ∧
      doc.tree.expandMixins limit quote (fun number => Mixin.stashName (renumber number)) = some expanded.tree) ∧
    ∀ tree ∈ expanded.tree.descendants, tree.kind.isMixin = false ∧ tree.kind.isCall = false := by
  obtain ⟨final, levels, ⟨⟩⟩ := ok_of_pure ok
  have unrolled := expandLevels_done wf limit (Advances.refl wf) (pending_start wf) levels
  have finalWf := unrolled.advances.well_formed
  refine ⟨?_, dropMixins_kinds finalWf unrolled.settled⟩
  obtain ⟨count, numbers, perm, expands⟩ := unrolled.numbered
  obtain ⟨renumber, injective, rfl⟩ := renumbering perm
  obtain ⟨inside, below, same⟩ := (expands_root_iff wf).1 expands
  refine ⟨renumber, injective, Tree.expandMixins_eq_some_iff.2 ⟨count, inside, ?_, ?_⟩⟩
  · rw [map_map] at below
    exact below
  · have tree : final.tree = doc.tree.withChildren inside := head_eq_of_cons_eq same
    have attached := root_attached final
    change final.dropMixins.treeAt root = _
    rw [dropMixins_treeAt finalWf attached]
    change final.tree.withoutMixins = _
    rw [tree]
    rfl

lemma expandMixins_succeeds_iff (wf : doc.WellFormed) (limit quote) (stash : Nat → String) :
    (∃ expanded, doc.expandMixins limit quote = .ok expanded) ↔
      ∃ tree, doc.tree.expandMixins limit quote stash = some tree := by
  constructor
  · rintro ⟨expanded, ok⟩
    obtain ⟨⟨renumber, -, done⟩, -⟩ := expandMixins_tree wf limit quote ok
    obtain ⟨count, inside, expands, -⟩ := Tree.expandMixins_eq_some_iff.1 done
    obtain ⟨renamed, below⟩ := expands.rename ((range' 0 count).map stash) (by simp)
    exact ⟨_, Tree.expandMixins_eq_some_iff.2 ⟨count, renamed, below, rfl⟩⟩
  · rintro ⟨tree, done⟩
    obtain ⟨count, inside, below, -⟩ := Tree.expandMixins_eq_some_iff.1 done
    have expands := (expands_root_iff wf).2 ⟨inside, below, rfl⟩
    obtain ⟨final, levels⟩ := @expandLevels_total quote doc wf limit limit
      ⟨doc, 0⟩ _ (Advances.refl wf) (pending_start wf) ⟨_, _, expands⟩
    unfold expandMixins
    dsimp only
    rw [levels]
    exact ⟨_, rfl⟩

end Document

namespace Compiler

/-- The expansion of mixins is a substitution on trees. It succeeds on a loaded template exactly if
the substitution does, whatever the names of saved variables are, and then gives the same tree up
to the numbers in these names. Neither mixins nor calls are left. -/
theorem expansion_refines_substitution (compiler : Compiler) (disk : Disk) (source : String)
    (origin : Option Path) (document : Document)
    (loaded : compiler.load disk source origin = .ok document) (limit : Nat) (quote : Char) :
    (∀ stash : Nat → String,
      (∃ expanded, document.expandMixins limit quote = .ok expanded) ↔
        ∃ tree, document.tree.expandMixins limit quote stash = some tree) ∧
    ∀ expanded, document.expandMixins limit quote = .ok expanded →
      (∃ renumber : Nat → Nat, Function.Injective renumber ∧
        document.tree.expandMixins limit quote (fun number => Mixin.stashName (renumber number)) =
          some expanded.tree) ∧
      ∀ tree ∈ expanded.tree.descendants,
        tree.kind.isMixin = false ∧ tree.kind.isCall = false := by
  have wellFormed := loadWithin_well_formed loaded
  constructor
  · exact document.expandMixins_succeeds_iff wellFormed limit quote
  · intro expanded result
    exact document.expandMixins_tree wellFormed limit quote result

/-- A mixin that calls another one and has a slot, which a call fills with a further call. -/
def nestedSource : String :=
  "mixin item(a)\n  li= $a\n  block\nmixin list(b)\n  +item($b)\n    block\n+list(1)\n  +item(2)\n"

theorem expansion_refines_nested : ∃ document expanded : Document,
    (Compiler.ofOptions Options.standard).load (⟨[], []⟩ : Disk) nestedSource none = .ok document ∧
      document.expandMixins 3 '"' = .ok expanded ∧
      (∃ renumber : Nat → Nat, Function.Injective renumber ∧
        document.tree.expandMixins 3 '"' (fun number => Mixin.stashName (renumber number)) =
          some expanded.tree) ∧
      (∀ tree ∈ expanded.tree.descendants,
        tree.kind.isMixin = false ∧ tree.kind.isCall = false) ∧
      ¬ ∃ tree, document.tree.expandMixins 2 '"' Mixin.stashName = some tree := by
  have loads : (((Compiler.ofOptions Options.standard).load (⟨[], []⟩ : Disk) nestedSource none).toOption.map
      fun document => ((document.expandMixins 3 '"').isOk, (document.expandMixins 2 '"').isOk)) =
        some (true, false) := by
    decide +kernel
  cases loaded : (Compiler.ofOptions Options.standard).load (⟨[], []⟩ : Disk) nestedSource none with
  | error failure =>
    rw [loaded] at loads
    cases loads
  | ok document =>
      rw [loaded] at loads
      have both := Option.some.inj loads
      rw [Prod.mk.injEq] at both
      cases result : document.expandMixins 3 '"' with
      | error failure =>
        rw [result] at both
        cases both.1
      | ok expanded =>
          have refined := (expansion_refines_substitution _ _ _ _ document loaded 3 '"').2
          have failing := (expansion_refines_substitution _ _ _ _ document loaded 2 '"').1
          obtain ⟨renamed, kinds⟩ := refined expanded result
          refine ⟨document, expanded, rfl, result, renamed, kinds, ?_⟩
          intro succeeds
          obtain ⟨shallow, shallowResult⟩ := (failing Mixin.stashName).2 succeeds
          rw [shallowResult] at both
          cases both.2

end Compiler

end PugTemplate
