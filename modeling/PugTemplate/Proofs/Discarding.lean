import PugTemplate.Proofs.Sharing

/-!
# What a layout takes from a template

A template that extends a layout hands over its named blocks, its mixins and its code. Two templates
that agree in these parts are therefore merged to the same document, as long as the discarded parts
hold no named block outside of other blocks.
-/

namespace PugTemplate

open List

def Contribution.reposition (view : Position → Position) (part : Contribution) : Contribution :=
  { part with content := part.content.map (Tree.reposition view) }

namespace Tree

variable (view : Position → Position)

mutual

lemma merge_reposition (part) : ∀ tree : Tree,
    (tree.merge part).reposition view = (tree.reposition view).merge (part.reposition view)
  | node kind pos attrs children => by
    have below := mergeAll_reposition part children
    have same : (part.reposition view).name = part.name := rfl
    have sameMode : (part.reposition view).mode = part.mode := rfl
    simp only [merge, reposition, repositionAll_eq_map, same, sameMode]
    split
    · cases part.mode with
      | replace => rfl
      | append | prepend =>
        dsimp only
        rw [map_append, below]
        rfl
    · rw [below]

lemma mergeAll_reposition (part) : ∀ trees : List Tree, (mergeAll part trees).map (reposition view) =
      mergeAll (part.reposition view) (trees.map (reposition view))
  | [] => rfl
  | tree :: more => by
    rw [mergeAll, map_cons, map_cons, mergeAll, merge_reposition part tree, mergeAll_reposition part more]

end

lemma mergeParts_reposition (parts) (tree : Tree) : (tree.mergeParts parts).reposition view =
      (tree.reposition view).mergeParts (parts.map (Contribution.reposition view)) := by
  induction parts generalizing tree with
  | nil => rfl
  | cons part more ih =>
    change ((tree.merge part).mergeParts more).reposition view = _
    rw [ih, merge_reposition]
    rfl

/-- What a layout takes from a child are its declarations, its mixins and its contributions. -/
theorem extend_reposition {layout left right : Tree} {leftParts rightParts : List Contribution}
    (declarations : (right.children.filter (·.kind.isDeclaration)).map (reposition view) =
      (left.children.filter (·.kind.isDeclaration)).map (reposition view))
    (mixins : (right.children.filter (·.kind.isMixin)).map (reposition view) =
      (left.children.filter (·.kind.isMixin)).map (reposition view))
    (parts : rightParts.map (Contribution.reposition view) = leftParts.map (Contribution.reposition view)) :
    (layout.extend right rightParts).reposition view = (layout.extend left leftParts).reposition view := by
  have adopted : (layout.adopt right).reposition view = (layout.adopt left).reposition view := by
    simp only [adopt, reposition, repositionAll_eq_map, map_append, declarations, mixins]
  rw [extend, extend, mergeParts_reposition, mergeParts_reposition, parts, adopted]

end Tree

lemma NodeKind.named_form {kind : NodeKind} (isNamed : kind.isNamedBlock) :
    ∃ name mode, kind = .statement (.block (some name) mode) := by
  unfold NodeKind.isNamedBlock at isNamed
  split at isNamed
  · exact ⟨_, _, rfl⟩
  · cases isNamed

lemma NodeKind.named_no_attribute {kind : NodeKind} (isNamed : kind.isNamedBlock) : kind.isAttribute = false := by
  obtain ⟨name, mode, rfl⟩ := NodeKind.named_form isNamed
  rfl

lemma NodeKind.attribute_undeclared {kind : NodeKind} (isAttribute : kind.isAttribute) :
    kind.isDeclaration = false ∧ kind.isMixin = false := by
  cases kind with
  | attr | assignment => exact ⟨rfl, rfl⟩
  | _ => cases isAttribute

variable {doc : Document} {id one other : Nat}

namespace Document

lemma filter_range {bound} {ids : List Nat} (sorted : ids.Pairwise (· < ·))
    (inside : ∀ id ∈ ids, id < bound) {test}
    (silent : ∀ id, id < bound → id ∉ ids → test id = false) :
    (List.range bound).filter test = ids.filter test := by
  have distinct : ∀ {list : List Nat}, list.Pairwise (· < ·) → (list.filter test).Nodup :=
    fun ascending => (ascending.filter test).imp Nat.ne_of_lt
  refine List.Perm.eq_of_pairwise ?_ (pairwise_lt_range.filter test) (sorted.filter test) ?_
  · intro first second _ _ less more
    exact absurd less (Nat.lt_asymm more)
  · rw [perm_ext_iff_of_nodup (distinct pairwise_lt_range) (distinct sorted)]
    intro id
    rw [mem_filter, mem_filter, mem_range]
    constructor
    · intro ⟨small, passes⟩
      refine ⟨?_, passes⟩
      by_contra outside
      rw [silent id small outside] at passes
      cases passes
    · intro ⟨mem, passes⟩
      exact ⟨inside id mem, passes⟩

lemma contributions_eq {child : Document} (wf : child.WellFormed) : child.contributions =
    ((List.range child.size).filter fun id => (child.partAt id).isSome).filterMap child.partAt := by
  rw [contributions, wf.indexed.blocks, listed, filterMap_filter, filterMap_filter]
  apply filterMap_congr
  intro id _
  cases part : child.partAt id with
  | none => simp
  | some found =>
    have isBlock : (child.kind id).isBlock := by
      unfold partAt at part
      split at part
      · rename_i kind
        rw [kind]
        rfl
      · cases part
    simp [isBlock]

lemma partAt_unnamed (unnamed : (doc.kind id).isNamedBlock = false) : doc.partAt id = none := by
  unfold partAt
  split
  · rename_i named
    rw [named] at unnamed
    cases unnamed
  · rfl

lemma Discards.partAt {kept} (discards : Discards kept doc)
    (wf : doc.WellFormed) (inside : id < doc.size) (outside : id ∉ kept) : doc.partAt id = none := by
  cases isNamed : (doc.kind id).isNamedBlock with
  | false => exact partAt_unnamed isNamed
  | true =>
    obtain ⟨name, mode, form⟩ := NodeKind.named_form isNamed
    obtain ⟨block, above, isBlock⟩ := discards.covered id inside outside isNamed
    have listed : id ∈ doc.blocks := by
      rw [wf.indexed.blocks]
      exact mem_listed.2 ⟨inside, by rw [form]; rfl⟩
    have inner : doc.isOutermost id = false := by
      rw [Bool.eq_false_iff, Ne, outermost_iff wf listed]
      intro ⟨_, noBlock⟩
      rw [noBlock block above] at isBlock
      cases isBlock
    unfold Document.partAt
    rw [form, inner]
    rfl

namespace Alongside

variable {view : Position → Position} {links : List (Nat × Nat)} {left right : Document}
  (alongside : Alongside view links left right)

include alongside

lemma filtered {leftTest rightTest : Nat → Bool}
    (same : ∀ {one other : Nat}, Linked links one other → rightTest other = leftTest one)
    (leftSilent : ∀ id, id < left.size → id ∉ lefts links → leftTest id = false)
    (rightSilent : ∀ id, id < right.size → id ∉ rights links → rightTest id = false) :
    List.Forall₂ (Linked links) ((List.range left.size).filter leftTest)
      ((List.range right.size).filter rightTest) := by
  have ascends := alongside.shares.ascends
  have leftSorted : (lefts links).Pairwise (· < ·) := pairwise_map.2 (ascends.imp fun both => both.1)
  have rightSorted : (rights links).Pairwise (· < ·) := pairwise_map.2 (ascends.imp fun both => both.2)
  have pairs : List.Forall₂ (Linked links) (lefts links) (rights links) := by
    rw [lefts, rights, forall₂_map_left_iff, forall₂_map_right_iff, forall₂_same]
    intro link mem
    exact mem
  rw [filter_range leftSorted ?_ leftSilent, filter_range rightSorted ?_ rightSilent]
  · refine rel_filter ?_ pairs
    intro one other linked
    beta_reduce
    rw [same linked]
  · intro id mem
    obtain ⟨link, isLink, rfl⟩ := mem_map.1 mem
    exact (alongside.shares.inside (show Linked links link.1 link.2 from isLink)).2
  · intro id mem
    obtain ⟨link, isLink, rfl⟩ := mem_map.1 mem
    exact (alongside.shares.inside (show Linked links link.1 link.2 from isLink)).1

lemma imports : List.Forall₂ (Linked links) left.imports right.imports := by
  rw [alongside.leftWell.indexed.imports, alongside.rightWell.indexed.imports]
  apply alongside.filtered
  · intro one other linked
    rw [(alongside.shares.node linked).kind]
  · exact alongside.leftRest.kind
  · exact alongside.rightRest.kind

lemma importsOf (kind) : List.Forall₂ (Linked links) (left.importsOf kind) (right.importsOf kind) := by
  refine rel_filter ?_ alongside.imports
  intro one other linked
  beta_reduce
  rw [alongside.shares.attached alongside.leftWell alongside.rightWell linked, (alongside.shares.node linked).kind]

lemma trees (pairs : List.Forall₂ (Linked links) ids places)
    (notRoot : ∀ id ∈ ids, id ≠ root) : (places.map right.treeAt).map (Tree.reposition view) =
      (ids.map left.treeAt).map (Tree.reposition view) := by
  induction pairs with
  | nil => rfl
  | @cons id place more morePlaces here rest ih =>
    rw [map_cons, map_cons, map_cons, map_cons, alongside.treeAt here (notRoot id mem_cons_self),
      ih (forall_mem_cons.1 notRoot).2]

lemma topTrees {test : NodeKind → Bool}
    (declared : ∀ kind, test kind → kind.isDeclaration ∨ kind.isMixin) :
    (right.tree.children.filter (test ·.kind)).map (Tree.reposition view) =
      (left.tree.children.filter (test ·.kind)).map (Tree.reposition view) := by
  have passing : ∀ {doc : Document} {kept : List Nat}, doc.WellFormed → Discards kept doc →
      ((doc.children root).filter (· ∈ kept)).filter (fun id => test (doc.kind id)) =
        (doc.children root).filter fun id => test (doc.kind id) := by
    intro doc kept wf discards
    rw [filter_filter]
    apply filter_congr
    intro id isChild
    by_cases isKept : id ∈ kept
    · simp [isKept]
    · obtain ⟨noDeclaration, noMixin⟩ := discards.undeclared id isKept (wf.child_parent isChild)
      cases passes : test (doc.kind id) with
      | false => rfl
      | true =>
        rcases declared _ passes with isDeclaration | isMixin
        · rw [noDeclaration] at isDeclaration
          cases isDeclaration
        · rw [noMixin] at isMixin
          cases isMixin
  have top : ∀ {doc : Document}, doc.WellFormed → doc.tree.children.filter (test ·.kind) =
        ((doc.children root).filter fun id => test (doc.kind id)).map doc.treeAt := by
    intro doc wf
    rw [tree, wf.treeAt_eq, Tree.children, filter_map]
    simp only [Function.comp_def, kind_treeAt]
  have pairs := (alongside.shares.node alongside.shares.rooted).children
  have handed : List.Forall₂ (Linked links) ((left.children root).filter fun id => test (left.kind id))
      ((right.children root).filter fun id => test (right.kind id)) := by
    rw [← passing alongside.leftWell alongside.leftRest, ← passing alongside.rightWell alongside.rightRest]
    refine rel_filter ?_ pairs
    intro one other linked
    beta_reduce
    rw [(alongside.shares.node linked).kind]
  rw [top alongside.leftWell, top alongside.rightWell]
  refine alongside.trees handed fun id mem => ?_
  exact Nat.ne_of_gt (alongside.leftWell.child_after (mem_filter.1 mem).1)

lemma outermost (linked : Linked links one other) (isBlock : (left.kind one).isBlock) :
    right.isOutermost other = left.isOutermost one := by
  obtain ⟨leftInside, rightInside⟩ := alongside.shares.inside linked
  have kind := (alongside.shares.node linked).kind
  have leftListed : one ∈ left.blocks := by
    rw [alongside.leftWell.indexed.blocks]
    exact mem_listed.2 ⟨leftInside, isBlock⟩
  have rightListed : other ∈ right.blocks := by
    rw [alongside.rightWell.indexed.blocks]
    exact mem_listed.2 ⟨rightInside, kind ▸ isBlock⟩
  have noBlocks : ∀ {ids places : List Nat}, List.Forall₂ (Linked links) ids places →
      ((∀ above ∈ places, (right.kind above).isBlock = false) ↔
        ∀ above ∈ ids, (left.kind above).isBlock = false) := by
    intro ids places pairs
    induction pairs with
    | nil => simp
    | cons here rest ih =>
      rw [forall_mem_cons, forall_mem_cons, ih, (alongside.shares.node here).kind]
  rw [Bool.eq_iff_iff, outermost_iff alongside.rightWell rightListed, outermost_iff alongside.leftWell leftListed,
    alongside.shares.attached alongside.leftWell alongside.rightWell linked,
    noBlocks (alongside.shares.ancestors alongside.leftWell alongside.rightWell linked)]

lemma partAt (linked : Linked links one other) : (right.partAt other).map (Contribution.reposition view) =
    (left.partAt one).map (Contribution.reposition view) := by
  have kind := (alongside.shares.node linked).kind
  cases isNamed : (left.kind one).isNamedBlock with
  | false => rw [partAt_unnamed isNamed, partAt_unnamed (kind ▸ isNamed)]
  | true =>
    obtain ⟨name, mode, form⟩ := NodeKind.named_form isNamed
    have notRoot : one ≠ root := alongside.leftWell.not_root (by simp [form])
    have content := alongside.trees (alongside.children linked notRoot) fun id isChild =>
      Nat.ne_of_gt (Nat.zero_lt_of_lt (alongside.leftWell.child_after isChild))
    unfold Document.partAt
    rw [alongside.outermost linked (by rw [form]; rfl), kind, form]
    dsimp only
    split
    · simp only [Option.map_some, Contribution.reposition, content]
    · rfl

lemma contributions : right.contributions.map (Contribution.reposition view) =
    left.contributions.map (Contribution.reposition view) := by
  have same : ∀ {one other : Nat}, Linked links one other →
      (right.partAt other).isSome = (left.partAt one).isSome := by
    intro one other linked
    rw [← Option.isSome_map (f := Contribution.reposition view), alongside.partAt linked, Option.isSome_map]
  have pairs := alongside.filtered same (fun id inside outside => by
      rw [alongside.leftRest.partAt alongside.leftWell inside outside]
      rfl)
    (fun id inside outside => by
      rw [alongside.rightRest.partAt alongside.rightWell inside outside]
      rfl)
  rw [contributions_eq alongside.leftWell, contributions_eq alongside.rightWell, map_filterMap, map_filterMap]
  generalize (List.range left.size).filter _ = ids at pairs ⊢
  generalize (List.range right.size).filter _ = places at pairs ⊢
  induction pairs with
  | nil => rfl
  | cons here rest ih =>
    rw [filterMap_cons, filterMap_cons, alongside.partAt here, ih]

end Alongside

end Document

namespace Compiler

open Document

variable {compiler : Compiler} {disk : Disk} {view : Position → Position}

lemma extendLayout_alongside {load} (loads : ∀ file left right, Agrees
    (fun one other => other = one ∧ one.WellFormed) (load file left) (load file right)) (origin)
    {links left right} (alongside : Alongside view links left right)
    (extending : left.importsOf .extending ≠ []) :
    Agrees (fun newLeft newRight => newRight.tree.reposition view = newLeft.tree.reposition view)
      (compiler.extendLayout disk load origin left) (compiler.extendLayout disk load origin right) := by
  have imports := alongside.importsOf .extending
  generalize leftImports : left.importsOf .extending = ids at imports extending
  generalize rightImports : right.importsOf .extending = places at imports
  cases imports with
  | nil => exact absurd rfl extending
  | @cons id _ _ _ linked rest =>
    cases rest with
    | nil =>
      obtain ⟨name, filter, named⟩ := importsOf_kind (leftImports ▸ mem_singleton_self id)
      rw [extendLayout_single leftImports named, extendLayout_single rightImports
        ((alongside.shares.node linked).kind.trans named)]
      refine (locate_agrees origin name _ _).bind ?_
      rintro file _ - rfl
      refine (loads file _ _).bind ?_
      rintro _ layout - ⟨rfl, wf⟩
      refine .some ?_
      rw [(extend_tree wf alongside.leftWell).2, (extend_tree wf alongside.rightWell).2]
      exact Tree.extend_reposition view (alongside.topTrees fun kind declared => .inl declared)
        (alongside.topTrees fun kind declared => .inr declared) alongside.contributions
    | cons second third =>
      unfold extendLayout
      rw [leftImports, rightImports]
      exact .none

lemma loaderWithin_agrees (fuel file left right) :
    Agrees (fun one other => other = one ∧ one.WellFormed) (compiler.loaderWithin disk fuel file left)
      (compiler.loaderWithin disk fuel file right) := by
  cases fuel with
  | zero => exact .none
  | succ fuel =>
    change Agrees _ (compiler.loaderWithin disk (fuel + 1) file left)
      (compiler.loaderWithin disk (fuel + 1) file left)
    cases loaded : compiler.loaderWithin disk (fuel + 1) file left with
    | error failure => exact .none
    | ok doc =>
      obtain ⟨before, content, -, -, within⟩ := loaderWithin_ok.1 loaded
      exact .some ⟨rfl, loadWithin_well_formed within⟩

end Compiler

namespace Tree

mutual

/-- Whether no named block stands in the tree but inside of other blocks. -/
def isInert : Tree → Bool
  | node (.statement (.block name _)) _ _ _ => name.isNone
  | node _ _ _ children => areInert children

def areInert : List Tree → Bool
  | [] => true
  | tree :: more => tree.isInert && areInert more

end

lemma areInert_eq_all : areInert trees = trees.all isInert := by
  induction trees with
  | nil => rfl
  | cons tree more ih => rw [areInert, ih, all_cons]

/-- Whether a top-level tree is declared for a layout: a named block, a mixin, or code. -/
def isDeclared (tree : Tree) : Bool :=
  tree.kind.isNamedBlock || tree.kind.isMixin || tree.kind.isDeclaration

/-- Whether a top-level tree counts for a layout: it is declared, or it has an import. -/
def isEssential (tree : Tree) : Bool :=
  tree.isDeclared || tree.descendants.any (·.kind.isImport)

lemma isInert_node {kind} (noBlock : kind.isBlock = false) {pos attrs children} :
    (node kind pos attrs children).isInert = children.all isInert := by
  rw [← areInert_eq_all]
  unfold isInert
  split
  · rename_i same
    cases same
    cases noBlock
  · rename_i same
    cases same
    rfl

end Tree

lemma zip_flatMap {α β γ δ : Type} {first : α → List γ} {second : β → List δ} {left} {right : List β}
    (same : List.Forall₂ (fun one other => (first one).length = (second other).length) left right) :
    (left.flatMap first).zip (right.flatMap second) =
      (left.zip right).flatMap fun pair => (first pair.1).zip (second pair.2) := by
  induction same with
  | nil => rfl
  | cons length rest ih =>
    rw [flatMap_cons, flatMap_cons, zip_append length, zip_cons_cons, flatMap_cons, ih]

namespace Document

section Pages

variable {view : Position → Position} {left right : Document} (leftWell : left.WellFormed)
  (rightWell : right.WellFormed)

def SameTree (view : Position → Position) (left right : Document) (one other : Nat) : Prop :=
  (right.treeAt other).reposition view = (left.treeAt one).reposition view

namespace SameTree

variable {one other : Nat} (same : SameTree view left right one other)

include leftWell rightWell same

lemma node : right.kind other = left.kind one ∧ view (right.position other) = view (left.position one) ∧
      List.Forall₂ (SameTree view left right) (left.attributes one) (right.attributes other) ∧
      List.Forall₂ (SameTree view left right) (left.children one) (right.children other) := by
  have lists : ∀ {ids places : List Nat}, places.map (fun place => (right.treeAt place).reposition view) =
        ids.map (fun id => (left.treeAt id).reposition view) →
      List.Forall₂ (SameTree view left right) ids places := by
    intro ids places equal
    rw [← forall₂_eq_eq_eq, forall₂_map_left_iff, forall₂_map_right_iff] at equal
    exact equal.flip
  rw [SameTree, leftWell.reposition_treeAt, rightWell.reposition_treeAt, Tree.node.injEq] at same
  exact ⟨same.1, same.2.1, lists same.2.2.1, lists same.2.2.2⟩

lemma owned : List.Forall₂ (SameTree view left right) (left.node one).owned (right.node other).owned := by
  obtain ⟨-, -, attrs, children⟩ := same.node leftWell rightWell
  exact rel_append attrs children

lemma preorder : List.Forall₂ (SameTree view left right) (left.preorder one) (right.preorder other) := by
  induction one using leftWell.owned_induction generalizing other with
  | step one ih =>
    obtain ⟨length, pairs⟩ := forall₂_iff_zip.1 (same.owned leftWell rightWell)
    have below : List.Forall₂ (fun id place => List.Forall₂ (SameTree view left right)
        (left.preorder id) (right.preorder place)) (left.node one).owned (right.node other).owned := by
      refine forall₂_iff_zip.2 ⟨length, fun {id place} mem => ?_⟩
      exact ih id (of_mem_zip mem).1 (pairs mem)
    rw [leftWell.preorder_eq, rightWell.preorder_eq]
    exact .cons same (rel_flatMap below fun _ _ nodes => nodes)

lemma zip_preorder : (left.preorder one).zip (right.preorder other) = (one, other) ::
      ((left.node one).owned.zip (right.node other).owned).flatMap fun pair =>
        (left.preorder pair.1).zip (right.preorder pair.2) := by
  obtain ⟨length, pairs⟩ := forall₂_iff_zip.1 (same.owned leftWell rightWell)
  rw [leftWell.preorder_eq, rightWell.preorder_eq, zip_cons_cons, zip_flatMap]
  exact forall₂_iff_zip.2 ⟨length, fun mem => ((pairs mem).preorder leftWell rightWell).length_eq⟩

lemma head_mem : (one, other) ∈ (left.preorder one).zip (right.preorder other) := by
  rw [same.zip_preorder leftWell rightWell]
  exact mem_cons_self

lemma linked (isLinked : ∀ pair ∈ (left.preorder one).zip (right.preorder other), pair ∈ links)
    (mem : (id, place) ∈ (left.preorder one).zip (right.preorder other)) :
    List.Forall₂ (Linked links) (left.attributes id) (right.attributes place) ∧
      List.Forall₂ (Linked links) (left.children id) (right.children place) ∧
      ((id, place) = (one, other) ∨ ∃ owner rightOwner, Linked links owner rightOwner ∧
        left.parent id = some owner ∧ right.parent place = some rightOwner) := by
  induction one using leftWell.owned_induction generalizing other with
  | step one ih =>
    obtain ⟨-, pairs⟩ := forall₂_iff_zip.1 (same.owned leftWell rightWell)
    have zipped := same.zip_preorder leftWell rightWell
    have here : Linked links one other := isLinked _ (same.head_mem leftWell rightWell)
    have inner : ∀ pair ∈ (left.node one).owned.zip (right.node other).owned,
        ∀ below ∈ (left.preorder pair.1).zip (right.preorder pair.2), below ∈ links := by
      intro pair isPair below isBelow
      apply isLinked
      rw [zipped]
      exact mem_cons_of_mem _ (mem_flatMap.2 ⟨pair, isPair, isBelow⟩)
    have heads : ∀ {first second : Nat}, (first, second) ∈ (left.node one).owned.zip (right.node other).owned →
        Linked links first second := by
      intro first second isPair
      exact inner _ isPair _ ((pairs isPair).head_mem leftWell rightWell)
    rw [zipped] at mem
    rcases mem_cons.1 mem with isHere | isBelow
    · obtain ⟨rfl, rfl⟩ := Prod.mk.inj isHere
      obtain ⟨-, -, attrs, children⟩ := same.node leftWell rightWell
      have split : (left.node id).owned.zip (right.node place).owned =
          (left.attributes id).zip (right.attributes place) ++ (left.children id).zip (right.children place) :=
        zip_append attrs.length_eq
      rw [split] at heads
      exact ⟨forall₂_iff_zip.2 ⟨attrs.length_eq, fun isPair =>
          heads (mem_append_left _ isPair)⟩,
        forall₂_iff_zip.2 ⟨children.length_eq, fun isPair =>
          heads (mem_append_right _ isPair)⟩, .inl rfl⟩
    · obtain ⟨⟨first, second⟩, isPair, further⟩ := mem_flatMap.1 isBelow
      obtain ⟨isOwned, rightOwned⟩ := of_mem_zip isPair
      obtain ⟨attrs, children, above⟩ := ih first isOwned (pairs isPair) (inner _ isPair) further
      refine ⟨attrs, children, .inr ?_⟩
      rcases above with isTop | parents
      · obtain ⟨rfl, rfl⟩ := Prod.mk.inj isTop
        exact ⟨one, other, here, leftWell.owned_iff.1 isOwned, rightWell.owned_iff.1 rightOwned⟩
      · exact parents

end SameTree

end Pages

def essentials (doc : Document) : List Nat :=
  (doc.children root).filter fun id => (doc.treeAt id).isEssential

def essentialNodes (doc : Document) : List Nat :=
  root :: doc.essentials.flatMap doc.preorder

/-- Links between the nodes that count, in their order. -/
def commonLinks (left right : Document) : List (Nat × Nat) :=
  left.essentialNodes.zip right.essentialNodes

lemma mem_essentialNodes (notRoot : id ≠ root) : id ∈ doc.essentialNodes ↔ ∃ top ∈ doc.children root,
    (doc.treeAt top).isEssential ∧ id ∈ doc.preorder top := by
  simp only [essentialNodes, essentials, mem_cons, notRoot, false_or, mem_flatMap, mem_filter, and_assoc]

lemma not_root_of_outside (outside : id ∉ doc.essentialNodes) : id ≠ root := by
  rintro rfl
  exact outside mem_cons_self

lemma zip_ascends {left right : List Nat} (leftSorted : left.Pairwise (· < ·))
    (rightSorted : right.Pairwise (· < ·)) : Ascends (left.zip right) := by
  induction leftSorted generalizing right with
  | nil => exact .nil
  | cons first rest ih =>
    cases rightSorted with
    | nil => exact .nil
    | cons second others =>
      refine .cons ?_ (ih others)
      intro link mem
      obtain ⟨isLeft, isRight⟩ := of_mem_zip (show (link.1, link.2) ∈ _ from mem)
      exact ⟨first _ isLeft, second _ isRight⟩

section Page

variable {page : Document} (wf : page.WellFormed)

include wf

/-- A named block of a tree that has none but inside of other blocks is inside of a block. -/
theorem inert_covered {top} (inert : (page.treeAt top).isInert)
    (below : id ∈ page.descendants top) (isNamed : (page.kind id).isNamedBlock) :
    ∃ above ∈ page.ancestors id, (page.kind above).isBlock := by
  induction top using wf.owned_induction with
  | step top ih =>
    rw [wf.treeAt_eq] at inert
    by_cases isBlock : (page.kind top).isBlock = true
    · refine ⟨top, ?_, isBlock⟩
      rcases mem_cons.1 (wf.descendants_lineage below) with same | above
      · obtain ⟨name, mode, form⟩ := NodeKind.named_form isNamed
        rw [same, form] at inert
        cases inert
      · exact above
    · rw [Tree.isInert_node (Bool.eq_false_iff.2 isBlock), all_eq_true] at inert
      rw [wf.descendants_eq] at below
      rcases mem_cons.1 below with same | further
      · obtain ⟨name, mode, form⟩ := NodeKind.named_form isNamed
        rw [← same, form] at isBlock
        exact absurd rfl isBlock
      · obtain ⟨child, isChild, inChild⟩ := mem_flatMap.1 further
        exact ih child (mem_append_right _ isChild) (inert _ (mem_map_of_mem isChild)) inChild

lemma essential_owned (isKept : owner ∈ page.essentialNodes) (notRoot : owner ≠ root)
    (owned : id ∈ (page.node owner).owned) : id ∈ page.essentialNodes := by
  obtain ⟨top, isChild, isEssential, below⟩ := (mem_essentialNodes notRoot).1 isKept
  have later := wf.ordered (wf.owned_iff.1 owned)
  refine (mem_essentialNodes (Nat.ne_of_gt (Nat.zero_lt_of_lt later))).2 ⟨top, isChild, isEssential, ?_⟩
  exact wf.preorder_owned below owned

/-- A node outside of what counts is an attribute, or stands in a top-level part that does not
count. -/
theorem outside_essentials (inOrder : page.InOrder) (inside : id < page.size)
    (outside : id ∉ page.essentialNodes) (noAttribute : (page.kind id).isAttribute = false) :
    ∃ top ∈ page.children root, id ∈ page.descendants top ∧ (page.treeAt top).isEssential = false := by
  have below := wf.mem_preorder_iff.2 (wf.root_above inOrder inside)
  rw [wf.preorder_eq] at below
  have notRoot := not_root_of_outside outside
  obtain ⟨top, owned, inTop⟩ := mem_flatMap.1 ((mem_cons.1 below).resolve_left notRoot)
  have above := wf.mem_preorder_iff.1 inTop
  have isChild := wf.child_of_parent (wf.owned_iff.1 owned) (wf.lineage_no_attribute noAttribute above)
  refine ⟨top, isChild, (wf.mem_descendants_iff noAttribute).2 above, ?_⟩
  rw [Bool.eq_false_iff]
  intro isEssential
  exact outside ((mem_essentialNodes notRoot).2 ⟨top, isChild, isEssential, inTop⟩)

/-- What does not count for a layout is discarded, if its named blocks are all inside of blocks. -/
theorem page_discards (inOrder : page.InOrder)
    (inert : ∀ tree ∈ page.tree.children, tree.isEssential = false → tree.isInert) :
    Discards page.essentialNodes page := by
  constructor
  case parent =>
    intro id inside outside
    obtain ⟨owner, parent, -⟩ := inOrder.next id (Nat.pos_of_ne_zero (not_root_of_outside outside)) inside
    refine ⟨owner, parent, ?_⟩
    by_cases isRoot : owner = root
    · exact .inl isRoot
    · refine .inr fun isKept => outside ?_
      exact essential_owned wf isKept isRoot (wf.owned_iff.2 parent)
  case kind =>
    intro id inside outside
    rw [Bool.eq_false_iff]
    intro isImport
    obtain ⟨top, isChild, below, notEssential⟩ := outside_essentials wf inOrder inside outside
      (NodeKind.import_no_attribute isImport)
    have found : (page.treeAt top).descendants.any (·.kind.isImport) := by
      rw [← wf.descendants_treeAt, any_eq_true]
      refine ⟨page.treeAt id, mem_map_of_mem below, ?_⟩
      rw [kind_treeAt]
      exact isImport
    rw [Tree.isEssential, found, Bool.or_true] at notEssential
    cases notEssential
  case undeclared =>
    intro id outside isTop
    cases isAttribute : (page.kind id).isAttribute with
    | true => exact NodeKind.attribute_undeclared isAttribute
    | false =>
      have isChild := wf.child_of_parent isTop isAttribute
      have undeclared : (page.treeAt id).isDeclared = false := by
        rw [Bool.eq_false_iff]
        intro isDeclared
        refine outside ((mem_essentialNodes (not_root_of_outside outside)).2 ⟨id, isChild, ?_, wf.self_preorder⟩)
        rw [Tree.isEssential, isDeclared, Bool.true_or]
      simp only [Tree.isDeclared, kind_treeAt, Bool.or_eq_false_iff] at undeclared
      exact ⟨undeclared.2, undeclared.1.2⟩
  case covered =>
    intro id inside outside isNamed
    obtain ⟨top, isChild, below, notEssential⟩ := outside_essentials wf inOrder inside outside
      (NodeKind.named_no_attribute isNamed)
    refine inert_covered wf (inert _ ?_ notEssential) below isNamed
    rw [tree, wf.treeAt_eq]
    exact mem_map_of_mem isChild

lemma essentialNodes_sorted (inOrder : page.InOrder) : page.essentialNodes.Pairwise (· < ·) := by
  have ordered := wf.preorder_sorted inOrder root
  rw [wf.preorder_eq] at ordered
  refine ordered.sublist (List.Sublist.cons_cons _ ?_)
  exact (filter_sublist.trans (sublist_append_right _ _)).flatMap page.preorder

lemma essentialNodes_inside (mem : id ∈ page.essentialNodes) : id < page.size := by
  rcases mem_cons.1 mem with isRoot | below
  · rw [isRoot]
    exact wf.root_inside
  · obtain ⟨top, isTop, inTop⟩ := mem_flatMap.1 below
    exact wf.preorder_inside (wf.child_inside (mem_filter.1 isTop).1) inTop

lemma filter_essentials : (page.children root).filter (· ∈ page.essentialNodes) = page.essentials := by
  apply filter_congr
  intro id isChild
  have self : id ∈ page.preorder id := wf.self_preorder
  rw [Bool.eq_iff_iff, decide_eq_true_eq, mem_essentialNodes (Nat.ne_of_gt (wf.child_after isChild))]
  constructor
  · rintro ⟨top, topChild, isEssential, below⟩
    have same := wf.siblings_disjoint (mem_append_right _ isChild) (mem_append_right _ topChild) self below
    rw [same]
    exact isEssential
  · exact fun isEssential => ⟨id, isChild, isEssential, self⟩

end Page

section Pages

variable {view : Position → Position} {left right : Document} (leftWell : left.WellFormed)
  (rightWell : right.WellFormed)

include leftWell rightWell

lemma essentials_same (same : (right.tree.children.filter Tree.isEssential).map (Tree.reposition view) =
      (left.tree.children.filter Tree.isEssential).map (Tree.reposition view)) :
    List.Forall₂ (SameTree view left right) left.essentials right.essentials := by
  rw [tree, tree, leftWell.treeAt_eq, rightWell.treeAt_eq, Tree.children, Tree.children,
    filter_map, filter_map, map_map, map_map, ← forall₂_eq_eq_eq,
    forall₂_map_left_iff, forall₂_map_right_iff] at same
  exact same.flip

variable (tops : List.Forall₂ (SameTree view left right) left.essentials right.essentials)

include tops

omit leftWell rightWell in
lemma top_pair (mem : (one, other) ∈ left.essentials.zip right.essentials) :
    SameTree view left right one other ∧ one ∈ left.children root ∧ other ∈ right.children root := by
  obtain ⟨isTop, rightTop⟩ := of_mem_zip mem
  exact ⟨(forall₂_iff_zip.1 tops).2 mem, (mem_filter.1 isTop).1, (mem_filter.1 rightTop).1⟩

lemma top_preorders : List.Forall₂ (fun one other => List.Forall₂ (SameTree view left right)
    (left.preorder one) (right.preorder other)) left.essentials right.essentials :=
  tops.imp fun _ _ same => same.preorder leftWell rightWell

lemma commonLinks_eq : commonLinks left right = (root, root) ::
    (left.essentials.zip right.essentials).flatMap fun pair =>
      (left.preorder pair.1).zip (right.preorder pair.2) := by
  rw [commonLinks, essentialNodes, essentialNodes, zip_cons_cons, zip_flatMap]
  exact (top_preorders leftWell rightWell tops).imp fun _ _ nodes => nodes.length_eq

lemma commonLinks_sides : lefts (commonLinks left right) = left.essentialNodes ∧
    rights (commonLinks left right) = right.essentialNodes := by
  have below : List.Forall₂ (SameTree view left right)
      (left.essentials.flatMap left.preorder) (right.essentials.flatMap right.preorder) :=
    rel_flatMap (top_preorders leftWell rightWell tops) fun _ _ nodes => nodes
  have length : left.essentialNodes.length = right.essentialNodes.length := congrArg Nat.succ below.length_eq
  exact ⟨map_fst_zip (Nat.le_of_eq length), map_snd_zip (Nat.le_of_eq length.symm)⟩

lemma common_shares (leftOrder : left.InOrder) (rightOrder : right.InOrder) :
    Shares view (commonLinks left right) left right := by
  have equation := commonLinks_eq leftWell rightWell tops
  obtain ⟨leftSide, rightSide⟩ := commonLinks_sides leftWell rightWell tops
  have rooted : Linked (commonLinks left right) root root := by
    rw [Linked, equation]
    exact mem_cons_self
  have within : ∀ pair ∈ left.essentials.zip right.essentials,
      ∀ below ∈ (left.preorder pair.1).zip (right.preorder pair.2), below ∈ commonLinks left right := by
    intro pair isPair below isBelow
    rw [equation]
    exact mem_cons_of_mem _ (mem_flatMap.2 ⟨pair, isPair, isBelow⟩)
  have heads : List.Forall₂ (Linked (commonLinks left right)) left.essentials right.essentials := by
    refine forall₂_iff_zip.2 ⟨tops.length_eq, fun {one other} mem => ?_⟩
    exact within _ mem _ ((top_pair tops mem).1.head_mem leftWell rightWell)
  constructor
  case rooted => exact rooted
  case ascends =>
    exact zip_ascends (essentialNodes_sorted leftWell leftOrder) (essentialNodes_sorted rightWell rightOrder)
  case inside =>
    intro one other linked
    obtain ⟨isKept, rightKept⟩ := of_mem_zip linked
    exact ⟨essentialNodes_inside leftWell isKept, essentialNodes_inside rightWell rightKept⟩
  case node =>
    intro one other linked
    rw [Linked, equation] at linked
    rcases mem_cons.1 linked with isRoot | isBelow
    · obtain ⟨rfl, rfl⟩ := Prod.mk.inj isRoot
      constructor
      · rw [leftWell.root_kind, rightWell.root_kind]
      · rw [leftWell.root_parent, rightWell.root_parent]
        exact .none
      · exact fun notRoot => absurd rfl notRoot
      · exact fun notRoot => absurd rfl notRoot
      · rw [leftSide, rightSide, filter_essentials leftWell, filter_essentials rightWell]
        exact heads
    · obtain ⟨⟨top, rightTop⟩, isPair, mem⟩ := mem_flatMap.1 isBelow
      obtain ⟨same, isTop, isRightTop⟩ := top_pair tops isPair
      obtain ⟨attrs, children, above⟩ := same.linked leftWell rightWell (within _ isPair) mem
      have nodes := same.preorder leftWell rightWell
      obtain ⟨kind, pos, -, -⟩ := ((forall₂_iff_zip.1 nodes).2 mem).node leftWell rightWell
      refine ⟨kind, ?_, fun _ => pos, fun _ => attrs, ?_⟩
      · rcases above with isHead | ⟨owner, rightOwner, owners, parent, rightParent⟩
        · obtain ⟨rfl, rfl⟩ := Prod.mk.inj isHead
          rw [leftWell.child_parent isTop, rightWell.child_parent isRightTop]
          exact .some rooted
        · rw [parent, rightParent]
          exact .some owners
      · rw [(linked_filter children).1, (linked_filter children).2]
        exact children

end Pages

lemma pages_alongside (leftWell : left.WellFormed) (rightWell : right.WellFormed)
    (leftOrder : left.InOrder) (rightOrder : right.InOrder)
    (same : (right.tree.children.filter Tree.isEssential).map (Tree.reposition view) =
      (left.tree.children.filter Tree.isEssential).map (Tree.reposition view))
    (leftInert : ∀ tree ∈ left.tree.children, tree.isEssential = false → tree.isInert)
    (rightInert : ∀ tree ∈ right.tree.children, tree.isEssential = false → tree.isInert) :
    Alongside view (commonLinks left right) left right := by
  have tops := essentials_same leftWell rightWell same
  obtain ⟨leftSide, rightSide⟩ := commonLinks_sides leftWell rightWell tops
  refine ⟨leftWell, rightWell, common_shares leftWell rightWell tops leftOrder rightOrder, ?_, ?_⟩
  · rw [leftSide]
    exact page_discards leftWell leftOrder leftInert
  · rw [rightSide]
    exact page_discards rightWell rightOrder rightInert

end Document

namespace Compiler

open Document

variable {compiler : Compiler} {disk : Disk}

lemma includes_extending {load} (loads : ∀ file pos doc, load file pos = .ok doc → doc.WellFormed)
    {source origin page complete}
    (parsed : parse source = .ok page) (extending : page.importsOf .extending ≠ [])
    (included : page.imports.foldlM (compiler.includeFile disk load origin) page = .ok complete) :
    complete.importsOf .extending ≠ [] := by
  obtain ⟨pending, -⟩ := parsed_pending loads parsed included
  obtain ⟨id, mem⟩ := exists_mem_of_ne_nil _ extending
  obtain ⟨name, filter, named⟩ := importsOf_kind mem
  have inside : id < page.size := WellFormed.import_inside (by rw [named]; rfl)
  have stillNamed := (pending.kind id inside).trans named
  apply ne_nil_of_mem
  refine mem_filter.2 ⟨pending.well_formed.mem_imports (by rw [stillNamed]; rfl), ?_⟩
  rw [pending.waits id (by rw [named]; rfl) (.inr (by rw [named]; rfl)), stillNamed]
  rfl

/-- Only the declared parts of a template survive its layout. Two templates that extend a layout, and
that differ in nothing but top-level parts that are not declared, import nothing and have no named
block outside of other blocks, are merged to the same document or fail together. -/
theorem only_declared_parts_survive (compiler : Compiler) (disk : Disk) (remaining : Nat)
    (origin : Option Path) (view : Position → Position) {source other : String}
    {page variant : Document} (parsed : parse source = .ok page)
    (parsedOther : parse other = .ok variant) (extending : page.importsOf .extending ≠ [])
    (same : (variant.tree.children.filter Tree.isEssential).map (Tree.reposition view) =
      (page.tree.children.filter Tree.isEssential).map (Tree.reposition view))
    (inert : ∀ tree ∈ page.tree.children ++ variant.tree.children,
      tree.isEssential = false → tree.isInert = true) :
    ((compiler.loadWithin disk remaining other origin).toOption.map fun document =>
        document.tree.reposition view) =
      (compiler.loadWithin disk remaining source origin).toOption.map fun document =>
        document.tree.reposition view := by
  have loads := fun file left right =>
    @loaderWithin_agrees compiler disk remaining file left right
  have wellFormed : ∀ file position document,
      compiler.loaderWithin disk remaining file position = .ok document → document.WellFormed := by
    intro file position document loaded
    obtain ⟨before, content, -, -, within⟩ := loaderWithin_ok.1 loaded
    exact loadWithin_well_formed within
  have alongside : Alongside view (commonLinks page variant) page variant :=
    pages_alongside (parse_well_formed parsed) (parse_well_formed parsedOther)
      (parse_inOrder parsed) (parse_inOrder parsedOther) same
      (fun tree member => inert tree (List.mem_append_left _ member))
      (fun tree member => inert tree (List.mem_append_right _ member))
  have merged : Agrees
      (fun left right => right.tree.reposition view = left.tree.reposition view)
      (compiler.loadWithin disk remaining source origin)
      (compiler.loadWithin disk remaining other origin) := by
    simp only [loadWithin_eq, assemble, parsed, parsedOther]
    refine (includeAll_alongside loads origin alongside alongside.imports).bind ?_
    rintro complete rest included ⟨links, further⟩
    exact extendLayout_alongside loads origin further
      (includes_extending wellFormed parsed extending included)
  exact merged.map_eq fun left right same => same

/-- A template with nothing but the block it declares, and one with more than that. -/
def briefSource : String :=
  "extends base\nblock body\n  p hi\n"

def longSource : String :=
  "extends base\ndiv\n  block\n    p gone\nblock body\n  p hi\nif $x\n  p away\n"

theorem long_page_is_brief :
    ∃ brief long, parse briefSource = .ok brief ∧ parse longSource = .ok long ∧
      brief.importsOf .extending ≠ [] ∧
      (pageCompiler.loadWithin pageDisk 1 briefSource none).toOption.isSome = true ∧
      ((pageCompiler.loadWithin pageDisk 1 longSource none).toOption.map fun document =>
          document.tree.reposition fun _ => .start) =
        (pageCompiler.loadWithin pageDisk 1 briefSource none).toOption.map fun document =>
          document.tree.reposition fun _ => .start := by
  have briefPage : ((parse briefSource).toOption.any fun page =>
      !(page.importsOf .extending).isEmpty &&
        page.tree.children.all fun tree => tree.isEssential || tree.isInert) = true := by
    decide +kernel
  have longPage : ((parse longSource).toOption.any fun page =>
      page.tree.children.all fun tree => tree.isEssential || tree.isInert) = true := by
    decide +kernel
  have essential : ((parse longSource).toOption.map fun page =>
      (page.tree.children.filter Tree.isEssential).map (Tree.reposition fun _ => .start)) =
        (parse briefSource).toOption.map fun page =>
          (page.tree.children.filter Tree.isEssential).map (Tree.reposition fun _ => .start) := by
    decide +kernel
  obtain ⟨brief, parsed, facts⟩ := ok_of_any briefPage
  obtain ⟨long, parsedLong, longInert⟩ := ok_of_any longPage
  simp only [Bool.and_eq_true, Bool.not_eq_true', List.isEmpty_eq_false_iff, List.all_eq_true,
    Bool.or_eq_true] at facts longInert
  obtain ⟨extending, briefInert⟩ := facts
  rw [parsed, parsedLong] at essential
  refine ⟨brief, long, parsed, parsedLong, extending, by decide +kernel,
    only_declared_parts_survive pageCompiler pageDisk 1 none (fun _ => .start) parsed parsedLong
      extending (Option.some.inj essential) ?_⟩
  intro tree member other
  have each : tree.isEssential = true ∨ tree.isInert = true :=
    (List.mem_append.1 member).elim (briefInert tree) (longInert tree)
  exact each.resolve_left (by rw [other]; exact Bool.false_ne_true)

end Compiler

end PugTemplate
