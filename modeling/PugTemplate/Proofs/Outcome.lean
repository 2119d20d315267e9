import PugTemplate.Proofs.Instantiation

/-!
# What nodes become

While the calls of a level are expanded one after the other, a document holds calls of two levels, told
apart by their place in the store. `Becomes` says what such a document comes to in the end. An
expansion changes the children of one node, and what the document becomes depends on nothing but what
these children become.
-/

namespace PugTemplate.Document

open List

/-- The trees that nodes of a document become once all calls are expanded. Calls before `bound`
have one level more left than the others. -/
inductive Becomes (definitions : List (String × Tree)) (quote : Char) (doc : Document)
    (bound remaining : Nat) : List Nat → List String → List Tree → Prop
  | nil : Becomes definitions quote doc bound remaining [] [] []
  | mixin {id more names out}
      (isMixin : (doc.kind id).isMixin)
      (rest : Becomes definitions quote doc bound remaining more names out) :
      Becomes definitions quote doc bound remaining (id :: more) names
        (doc.treeAt id :: out)
  | call {id more inner names expanded out}
      (isCall : (doc.kind id).isCall)
      (inside : Tree.Expands definitions quote (if id < bound then remaining + 1 else remaining)
        [doc.treeAt id] inner expanded)
      (rest : Becomes definitions quote doc bound remaining more names out) :
      Becomes definitions quote doc bound remaining (id :: more) (inner ++ names)
        (expanded ++ out)
  | other {id more inner names expanded out}
      (noMixin : (doc.kind id).isMixin = false) (noCall : (doc.kind id).isCall = false)
      (below : Becomes definitions quote doc bound remaining (doc.children id) inner
        expanded)
      (rest : Becomes definitions quote doc bound remaining more names out) :
      Becomes definitions quote doc bound remaining (id :: more) (inner ++ names)
        ((doc.treeAt id).withChildren expanded :: out)

variable {id : Nat}

namespace Becomes

variable {doc : Document} {bound : Nat}

lemma append (left : Becomes defs quote doc bound fuel first firstNames firstOut)
    (right : Becomes defs quote doc bound fuel second secondNames secondOut) :
    Becomes defs quote doc bound fuel (first ++ second)
      (firstNames ++ secondNames) (firstOut ++ secondOut) := by
  induction left with
  | nil => exact right
  | mixin isMixin rest ih => exact .mixin isMixin ih
  | call isCall inside rest ih =>
    have whole := call isCall inside ih
    simpa only [cons_append, append_assoc] using whole
  | other noMixin noCall below rest _ ih =>
    have whole := other noMixin noCall below ih
    simpa only [cons_append, append_assoc] using whole

lemma append_inv {first second names out}
    (whole : Becomes defs quote doc bound fuel (first ++ second) names out) :
    ∃ firstNames secondNames firstOut secondOut, names = firstNames ++ secondNames ∧ out = firstOut ++ secondOut ∧
      Becomes defs quote doc bound fuel first firstNames firstOut ∧
      Becomes defs quote doc bound fuel second secondNames secondOut := by
  induction first generalizing names out with
  | nil => exact ⟨[], names, [], out, rfl, rfl, .nil, whole⟩
  | cons id more ih =>
    cases whole with
    | mixin isMixin rest =>
      obtain ⟨left, right, leftOut, rightOut, rfl, rfl, moreBecomes, secondBecomes⟩ := ih rest
      exact ⟨left, right, _, rightOut, rfl, rfl, .mixin isMixin moreBecomes, secondBecomes⟩
    | call isCall inside rest =>
      obtain ⟨left, right, leftOut, rightOut, rfl, rfl, moreBecomes, secondBecomes⟩ := ih rest
      refine ⟨_, right, _, rightOut, ?_, ?_, .call isCall inside moreBecomes, secondBecomes⟩
      · simp only [append_assoc]
      · simp only [append_assoc]
    | other noMixin noCall below rest =>
      obtain ⟨left, right, leftOut, rightOut, rfl, rfl, moreBecomes, secondBecomes⟩ := ih rest
      refine ⟨_, right, _, rightOut, ?_, ?_, .other noMixin noCall below moreBecomes, secondBecomes⟩
      · simp only [append_assoc]
      · simp only [cons_append]

section Levels

/-- Where all calls have the same number of levels left, the two ways to count them agree. The
nodes asked for are closed under children, mixins aside. -/
structure Uniform (doc : Document) (bound remaining depth : Nat) (kept : Nat → Prop) : Prop where
  closed : ∀ id, kept id → (doc.kind id).isMixin = false → ∀ child : Nat, child ∈ doc.children id → kept child
  level : ∀ id, kept id → (doc.kind id).isCall → (if id < bound then remaining + 1 else remaining) = depth

variable {depth : Nat}

lemma expands (wf : doc.WellFormed) (uniform : Uniform doc bound fuel depth kept)
    (becomes : Becomes defs quote doc bound fuel ids names out) (all : ∀ id ∈ ids, kept id) :
    Tree.Expands defs quote depth (ids.map doc.treeAt) names out := by
  induction becomes with
  | nil => exact .nil
  | mixin isMixin rest ih =>
    apply Tree.Expands.mixin
    · rw [kind_treeAt]
      exact isMixin
    · exact ih fun id mem => all id (by simp [mem])
  | call isCall inside rest ih =>
    rw [uniform.level _ (all _ mem_cons_self) isCall] at inside
    exact inside.append (ih fun id mem => all id (by simp [mem]))
  | @other id _ _ _ _ _ noMixin noCall below rest belowIh restIh =>
    have keptId := all id mem_cons_self
    apply Tree.Expands.other
    · rw [kind_treeAt]
      exact noMixin
    · rw [kind_treeAt]
      exact noCall
    · rw [children_treeAt wf]
      exact belowIh (uniform.closed id keptId noMixin)
    · exact restIh fun id mem => all id (by simp [mem])

lemma of_each (each : ∀ id ∈ ids, ∀ names out, Tree.Expands defs quote depth [doc.treeAt id] names out →
        Becomes defs quote doc bound fuel [id] names out)
    (expands : Tree.Expands defs quote depth (ids.map doc.treeAt) names out) :
    Becomes defs quote doc bound fuel ids names out := by
  induction ids generalizing names out with
  | nil =>
    cases expands
    exact .nil
  | cons id more ih =>
    obtain ⟨first, rest, firstOut, restOut, rfl, rfl, firstExpands, restExpands⟩ :=
      @Tree.Expands.append_inv _ _ _ [doc.treeAt id] _ _ _ expands
    apply append (each id (by simp) first firstOut firstExpands)
    exact ih (fun other mem => each other (by simp [mem])) restExpands

lemma of_expands (wf : doc.WellFormed) (uniform : Uniform doc bound fuel depth kept)
    (keptId : kept id) (names out)
    (expands : Tree.Expands defs quote depth [doc.treeAt id] names out) :
    Becomes defs quote doc bound fuel [id] names out := by
  induction id using wf.owned_induction generalizing names out with
  | step id ih =>
    cases isCall : (doc.kind id).isCall with
    | true =>
      rw [← uniform.level id keptId isCall] at expands
      have whole := call isCall expands .nil
      simpa using whole
    | false =>
      cases expands with
      | mixin isMixin rest =>
        cases rest
        rw [kind_treeAt] at isMixin
        exact .mixin isMixin .nil
      | call stash called found inside rest =>
        rw [kind_treeAt] at called
        rw [NodeKind.isCall_of_calledName called] at isCall
        cases isCall
      | other noMixin noCall below rest =>
        cases rest
        rw [kind_treeAt] at noMixin
        rw [children_treeAt wf] at below
        refine .other noMixin isCall (of_each ?_ below) .nil
        intro child isChild
        exact ih child (mem_append_right _ isChild) (uniform.closed id keptId noMixin child isChild)

/-- Where all calls have the same number of levels left, nodes become what their trees expand
to. -/
theorem expands_iff (wf : doc.WellFormed) (depth) (kept : Nat → Prop)
    (closed : ∀ id, kept id → (doc.kind id).isMixin = false → ∀ child : Nat, child ∈ doc.children id → kept child)
    (level : ∀ id, kept id → (doc.kind id).isCall →
      (if id < bound then fuel + 1 else fuel) = depth) (all : ∀ id ∈ ids, kept id) :
    Becomes defs quote doc bound fuel ids names out ↔
      Tree.Expands defs quote depth (ids.map doc.treeAt) names out := by
  have uniform : Uniform doc bound fuel depth kept := ⟨closed, level⟩
  constructor
  · intro becomes
    exact becomes.expands wf uniform all
  · exact of_each fun id mem => of_expands wf uniform (all id mem)

end Levels

lemma congr {after} (beforeWf : before.WellFormed) (afterWf : after.WellFormed)
    (kept : Nat → Prop) (closed : ∀ id, kept id → ∀ below ∈ (before.node id).owned, kept below)
    (same : ∀ id, kept id → SameContent before after id) (all : ∀ id ∈ ids, kept id)
    (becomes : Becomes defs quote before bound fuel ids names out) :
    Becomes defs quote after bound fuel ids names out := by
  have trees := treeAt_congr beforeWf afterWf kept closed same
  induction becomes with
  | nil => exact .nil
  | mixin isMixin rest ih =>
    rename_i id more names out
    have keptId := all id mem_cons_self
    rw [← trees id keptId]
    apply mixin
    · rw [(same id keptId).kind]
      exact isMixin
    · exact ih fun id mem => all id (by simp [mem])
  | call isCall inside rest ih =>
    rename_i id more inner names expanded out
    have keptId := all id mem_cons_self
    rw [← trees id keptId] at inside
    apply call _ inside
    · exact ih fun id mem => all id (by simp [mem])
    · rw [(same id keptId).kind]
      exact isCall
  | other noMixin noCall below rest belowIh restIh =>
    rename_i id more inner names expanded out
    have keptId := all id mem_cons_self
    have content := same id keptId
    rw [← trees id keptId]
    apply other
    · rw [content.kind]
      exact noMixin
    · rw [content.kind]
      exact noCall
    · rw [content.children]
      exact belowIh fun child mem => closed id keptId child (mem_append_right _ mem)
    · exact restIh fun id mem => all id (by simp [mem])

end Becomes

/-- What `ids` become in a document, with `hole` among or below them, is what `others` become in
another document, up to what stands in the hole there. -/
def Exchanges (definitions : List (String × Tree)) (quote : Char) (bound remaining : Nat)
    (doc other : Document) (hole filling ids others : List Nat) : Prop :=
  ∀ names out, Becomes definitions quote doc bound remaining ids names out →
    ∃ (front back inner : List String) (expanded : List Tree) (around : List Tree → List Tree),
      names = front ++ inner ++ back ∧ out = around expanded ∧
      Becomes definitions quote doc bound remaining hole inner expanded ∧
      ∀ innerNames expansion, Becomes definitions quote other bound remaining filling innerNames expansion →
          Becomes definitions quote other bound remaining others (front ++ innerNames ++ back)
            (around expansion)

namespace Exchanges

lemma refl : Exchanges defs quote bound fuel doc other hole filling hole filling := by
  intro names out becomes
  refine ⟨[], [], names, out, id, by simp, rfl, becomes, ?_⟩
  intro innerNames expansion inner
  simpa using inner

lemma siblings {ids others front back}
    (exchanges : Exchanges defs quote bound fuel doc other hole filling ids others)
    (same : ∀ id ∈ front ++ back, ∀ names out, Becomes defs quote doc bound fuel [id] names out →
        Becomes defs quote other bound fuel [id] names out) :
    Exchanges defs quote bound fuel doc other hole filling
      (front ++ ids ++ back) (front ++ others ++ back) := by
  have list : ∀ siblings : List Nat, (∀ id ∈ siblings, id ∈ front ++ back) → ∀ names out,
      Becomes defs quote doc bound fuel siblings names out →
        Becomes defs quote other bound fuel siblings names out := by
    intro siblings among
    induction siblings with
    | nil =>
      intro names out becomes
      cases becomes
      exact .nil
    | cons id more ih =>
      intro names out becomes
      obtain ⟨first, rest, firstOut, restOut, rfl, rfl, firstBecomes, restBecomes⟩ :=
        @Becomes.append_inv _ _ _ _ _ [id] _ _ _ becomes
      apply Becomes.append (same id (among id (by simp)) _ _ firstBecomes)
      exact ih (fun id mem => among id (by simp [mem])) _ _ restBecomes
  intro names out becomes
  obtain ⟨early, lateNames, earlyOut, lateOut, rfl, rfl, earlyBecomes, late⟩ := becomes.append_inv
  obtain ⟨first, middle, firstOut, middleOut, rfl, rfl, firstBecomes, middleBecomes⟩ := earlyBecomes.append_inv
  obtain ⟨before, after, inner, expanded, around, rfl, rfl, inside, again⟩ := exchanges _ _ middleBecomes
  refine ⟨first ++ before, after ++ lateNames, inner, expanded,
    fun trees => firstOut ++ around trees ++ lateOut, by simp, rfl, inside, ?_⟩
  intro innerNames expansion filled
  have firstAgain := list front (fun id mem => mem_append_left _ mem) _ _ firstBecomes
  have lateAgain := list back (fun id mem => mem_append_right _ mem) _ _ late
  have whole := (firstAgain.append (again _ _ filled)).append lateAgain
  simpa using whole

lemma node {id} (sameTree : ∀ trees, (other.treeAt id).withChildren trees =
      (doc.treeAt id).withChildren trees) (kind : other.kind id = doc.kind id)
    (noMixin : (doc.kind id).isMixin = false) (noCall : (doc.kind id).isCall = false)
    (exchanges : Exchanges defs quote bound fuel doc other hole filling
      (doc.children id) (other.children id)) :
    Exchanges defs quote bound fuel doc other hole filling [id] [id] := by
  intro names out becomes
  cases becomes with
  | mixin isMixin rest =>
    rw [noMixin] at isMixin
    cases isMixin
  | call isCall inside rest =>
    rw [noCall] at isCall
    cases isCall
  | other _ _ below rest =>
    cases rest
    obtain ⟨before, after, inner, expanded, around, rfl, rfl, inside, again⟩ := exchanges _ _ below
    refine ⟨before, after, inner, expanded,
      fun trees => [(doc.treeAt id).withChildren (around trees)], by simp, rfl, inside, ?_⟩
    intro innerNames expansion filled
    rw [← kind] at noMixin noCall
    have whole := Becomes.other noMixin noCall (again _ _ filled) .nil
    rw [sameTree] at whole
    simpa using whole

end Exchanges

lemma WellFormed.split_child {doc : Document} (wf : doc.WellFormed) {owner}
    (parent : doc.parent id = some owner) (content : (doc.kind id).isAttribute = false) :
    ∃ early late, doc.children owner = early ++ [id] ++ late ∧
      ∀ sibling ∈ early ++ late, sibling ∈ doc.children owner ∧ sibling ≠ id := by
  obtain ⟨early, late, split⟩ := append_of_mem (wf.child_of_parent parent content)
  have distinct := wf.children_distinct owner
  rw [split] at distinct
  obtain ⟨-, lateDistinct, disjoint⟩ := nodup_append.1 distinct
  refine ⟨early, late, by simp [split], ?_⟩
  intro sibling mem
  rw [split]
  rcases mem_append.1 mem with inEarly | inLate
  · refine ⟨mem_append_left _ inEarly, ?_⟩
    exact disjoint sibling inEarly id mem_cons_self
  · refine ⟨mem_append_right _ (mem_cons_of_mem _ inLate), ?_⟩
    intro same
    rw [same] at inLate
    exact (nodup_cons.1 lateDistinct).1 inLate

/-- The other document is the same, but for some of the children of one node. -/
structure Differs (doc other : Document) (owner : Nat) (front hole back : List Nat) : Prop where
  well_formed : other.WellFormed
  content : ∀ id, id < doc.size → id ≠ owner → SameContent doc other id
  kind : other.kind owner = doc.kind owner
  position : other.position owner = doc.position owner
  attributes : other.attributes owner = doc.attributes owner
  children : other.children owner = front ++ hole ++ back

section Differs

variable {doc : Document} (wf : doc.WellFormed) {owner : Nat}
  {front hole filling back : List Nat} {left right : Document}
  (leftDiffers : Differs doc left owner front hole back)
  (rightDiffers : Differs doc right owner front filling back)

include leftDiffers rightDiffers

lemma differs_same (inside : id < doc.size) (other : id ≠ owner) : SameContent left right id :=
  (leftDiffers.content id inside other).symm.trans (rightDiffers.content id inside other)

include wf

lemma differs_apart (inside : id < doc.size) (apart : id ∉ doc.lineage owner) : right.treeAt id = left.treeAt id ∧
      ∀ {defs : List (String × Tree)} {quote : Char} {bound fuel : Nat} names out,
        Becomes defs quote left bound fuel [id] names out → Becomes defs quote right bound fuel [id] names out := by
  let kept : Nat → Prop := fun id => id < doc.size ∧ id ∉ doc.lineage owner
  have notOwner : ∀ id, kept id → id ≠ owner := by
    intro id keptId same
    rw [same] at keptId
    exact keptId.2 (doc.self_lineage owner)
  have same : ∀ id, kept id → SameContent left right id := fun id keptId =>
    differs_same leftDiffers rightDiffers keptId.1 (notOwner id keptId)
  have closed : ∀ id, kept id → ∀ below ∈ (left.node id).owned, kept below := by
    intro id keptId below owned
    rw [(leftDiffers.content id keptId.1 (notOwner id keptId)).owned] at owned
    refine ⟨wf.owned_inside owned, fun above => keptId.2 ?_⟩
    exact wf.lineage_parent above (wf.owned_iff.1 owned)
  constructor
  · exact treeAt_congr leftDiffers.well_formed rightDiffers.well_formed kept closed same id ⟨inside, apart⟩
  · intro defs quote bound fuel names out becomes
    apply becomes.congr leftDiffers.well_formed rightDiffers.well_formed kept closed same
    intro other mem
    rw [mem_singleton.1 mem]
    exact ⟨inside, apart⟩

lemma differs_apart_children (ownerKind : (doc.kind owner).isAttribute = false) (inside : id < doc.size) :
    right.kind id = left.kind id ∧ ∀ trees, (right.treeAt id).withChildren trees =
      (left.treeAt id).withChildren trees := by
  have same : left.kind id = doc.kind id ∧ right.kind id = doc.kind id ∧
      left.position id = right.position id ∧ left.attributes id = doc.attributes id ∧
      right.attributes id = doc.attributes id := by
    by_cases isOwner : id = owner
    · rw [isOwner]
      exact ⟨leftDiffers.kind, rightDiffers.kind,
        leftDiffers.position.trans rightDiffers.position.symm, leftDiffers.attributes,
        rightDiffers.attributes⟩
    · have leftSame := leftDiffers.content id inside isOwner
      have rightSame := rightDiffers.content id inside isOwner
      exact ⟨leftSame.kind, rightSame.kind, leftSame.position.trans rightSame.position.symm,
        leftSame.attributes, rightSame.attributes⟩
  obtain ⟨leftKind, rightKind, pos, leftAttributes, rightAttributes⟩ := same
  have trees : (doc.attributes id).map right.treeAt = (doc.attributes id).map left.treeAt := by
    apply map_congr_left
    intro owned mem
    have ownedInside := parent_inside (wf.attribute_parent mem)
    refine (differs_apart wf leftDiffers rightDiffers ownedInside ?_).1
    intro inLineage
    have noAttribute := wf.lineage_no_attribute ownerKind inLineage
    rw [wf.attribute_kind mem] at noAttribute
    cases noAttribute
  refine ⟨rightKind.trans leftKind.symm, ?_⟩
  intro children
  rw [leftDiffers.well_formed.treeAt_eq, rightDiffers.well_formed.treeAt_eq]
  unfold Tree.withChildren Tree.kind Tree.position Tree.attributes
  rw [rightKind, leftKind, pos, rightAttributes, leftAttributes, trees]

lemma exchange_above (ownerKind : (doc.kind owner).isAttribute = false) (inside : id < doc.size)
    (clear : (doc.kind id).isMixin = false ∧ (doc.kind id).isCall = false)
    (below : Exchanges defs quote bound fuel left right hole filling (left.children id) (right.children id)) :
    Exchanges defs quote bound fuel left right hole filling [id] [id] := by
  obtain ⟨kind, trees⟩ := differs_apart_children wf leftDiffers rightDiffers ownerKind inside
  have leftKind : left.kind id = doc.kind id := by
    by_cases isOwner : id = owner
    · rw [isOwner]
      exact leftDiffers.kind
    · exact (leftDiffers.content id inside isOwner).kind
  apply Exchanges.node trees kind _ _ below
  · rw [leftKind]
    exact clear.1
  · rw [leftKind]
    exact clear.2

lemma exchange_parent (ownerKind : (doc.kind owner).isAttribute = false) {next}
    (above : id ∈ doc.lineage owner) (parent : doc.parent id = some next) (inside : id < doc.size)
    (clear : (doc.kind next).isMixin = false ∧ (doc.kind next).isCall = false)
    (exchanges : Exchanges defs quote bound fuel left right hole filling [id] [id]) :
    Exchanges defs quote bound fuel left right hole filling [next] [next] := by
  have before := wf.ordered parent
  have idLe := wf.lineage_le above
  have notOwner : next ≠ owner := Nat.ne_of_lt (Nat.lt_of_lt_of_le before idLe)
  have nextInside : next < doc.size := Nat.lt_trans before inside
  have idKind := wf.lineage_no_attribute ownerKind above
  obtain ⟨early, late, shape, others⟩ := wf.split_child parent idKind
  apply exchange_above wf leftDiffers rightDiffers ownerKind nextInside clear
  rw [(leftDiffers.content next nextInside notOwner).children,
    (rightDiffers.content next nextInside notOwner).children, shape]
  apply exchanges.siblings
  intro sibling mem
  obtain ⟨isChild, notId⟩ := others sibling mem
  refine (differs_apart wf leftDiffers rightDiffers (wf.child_inside isChild) ?_).2
  intro inLineage
  exact notId (wf.lineage_unique inLineage above (wf.child_parent isChild) parent)

/-- Two documents that differ among the children of a node outside of mixins and calls become the
same, up to what these children become. -/
theorem exchange_root (siblings : ∀ id ∈ front ++ back, doc.parent id = some owner)
    (ownerKind : (doc.kind owner).isAttribute = false) (attached : doc.isAttached owner)
    (clear : ∀ id ∈ doc.lineage owner, (doc.kind id).isMixin = false ∧ (doc.kind id).isCall = false)
    (ownerInside : owner < doc.size) :
    Exchanges defs quote bound fuel left right hole filling [root] [root] := by
  have atOwner : Exchanges defs quote bound fuel left right hole filling [owner] [owner] := by
    apply exchange_above wf leftDiffers rightDiffers ownerKind ownerInside
      (clear owner (doc.self_lineage owner))
    rw [leftDiffers.children, rightDiffers.children]
    apply Exchanges.refl.siblings
    intro id mem
    have parent := siblings id mem
    refine (differs_apart wf leftDiffers rightDiffers (parent_inside parent) ?_).2
    intro inLineage
    have before := wf.ordered parent
    have after := wf.lineage_le inLineage
    omega
  rw [isAttached, contains_iff_mem] at attached
  refine (wf.lineage_up (fun id => id ∈ doc.lineage owner ∧ id < doc.size ∧
    Exchanges defs quote bound fuel left right hole filling [id] [id]) ?_ attached
    ⟨doc.self_lineage owner, ownerInside, atOwner⟩).2.2
  rintro id next parent ⟨above, inside, exchanges⟩
  have nextAbove := wf.lineage_parent above parent
  exact ⟨nextAbove, Nat.lt_trans (wf.ordered parent) inside, exchange_parent wf leftDiffers rightDiffers
    ownerKind above parent inside (clear next nextAbove) exchanges⟩

end Differs

end PugTemplate.Document
