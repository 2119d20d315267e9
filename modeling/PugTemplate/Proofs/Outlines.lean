import PugTemplate.Proofs.ReadingOrder

/-!
# Outlines

The outline of a tree lists the kinds of its nodes in reading order, each with its depth and with
whether it is an attribute. A tree is known by its outline. A builder adds to the outline at its end,
so two builders that take tokens of the same kinds add the same, though perhaps at another depth.
-/

namespace PugTemplate

open List

/-- The depth of a node, whether it is an attribute, and its kind. -/
abbrev OutlineEntry := Nat × Bool × NodeKind

namespace OutlineEntry

def lower (levels : Nat) (entry : OutlineEntry) : OutlineEntry :=
  (entry.1 + levels, entry.2)

lemma lower_zero : lower 0 = id := rfl

end OutlineEntry

namespace Tree

def unplaced (tree : Tree) : Tree :=
  tree.reposition fun _ => .start

mutual

def outline (depth : Nat) (isAttribute : Bool) : Tree → List OutlineEntry
  | node kind _ attributes children =>
    (depth, isAttribute, kind) :: (outlines (depth + 1) true attributes ++ outlines (depth + 1) false children)

def outlines (depth : Nat) (areAttributes : Bool) : List Tree → List OutlineEntry
  | [] => []
  | tree :: more => tree.outline depth areAttributes ++ outlines depth areAttributes more

end

lemma outlines_eq_flatMap : outlines depth areAttributes trees = trees.flatMap (outline depth areAttributes) := by
  induction trees with
  | nil => rfl
  | cons tree more ih => rw [outlines, ih, flatMap_cons]

mutual

lemma outline_lower (levels) : ∀ (tree : Tree) (depth : Nat) (isAttribute : Bool),
    tree.outline (depth + levels) isAttribute = (tree.outline depth isAttribute).map (.lower levels)
  | node kind pos attrs children, depth, isAttribute => by
    rw [outline, outline, Nat.add_right_comm, outlines_lower levels attrs,
      outlines_lower levels children, map_cons, map_append]
    rfl

lemma outlines_lower (levels) : ∀ (trees : List Tree) (depth : Nat) (areAttributes : Bool),
    outlines (depth + levels) areAttributes trees = (outlines depth areAttributes trees).map (.lower levels)
  | [], _, _ => rfl
  | tree :: more, depth, areAttributes => by
    rw [outlines, outlines, outline_lower levels tree, outlines_lower levels more, map_append]

end

/-- The entries behind an outline do not belong to further trees of the same list. -/
def Ends (depth : Nat) (areAttributes : Bool) (rest : List OutlineEntry) : Prop :=
  ∀ entry ∈ rest.head?, entry.1 < depth ∨ entry.1 = depth ∧ entry.2.1 ≠ areAttributes

lemma outlines_head (isHead : entry ∈ (outlines depth areAttributes trees ++ rest).head?) :
    entry ∈ rest.head? ∨ entry.1 = depth ∧ entry.2.1 = areAttributes := by
  cases trees with
  | nil => exact .inl isHead
  | cons tree more =>
    cases tree with
    | node kind pos attrs children =>
      cases isHead
      exact .inr ⟨rfl, rfl⟩

mutual

/-- A tree can be told from its outline, also with other entries behind it. -/
theorem outline_injective : ∀ (tree tree' : Tree) {depth : Nat} {isAttribute : Bool}
    {rest rest' : List OutlineEntry}, (∀ entry ∈ rest.head?, entry.1 ≤ depth) →
    (∀ entry ∈ rest'.head?, entry.1 ≤ depth) →
    tree.outline depth isAttribute ++ rest = tree'.outline depth isAttribute ++ rest' →
    tree.unplaced = tree'.unplaced ∧ rest = rest'
  | node kind pos attrs children, node kind' position' attributes' children',
      depth, isAttribute, rest, rest', ends, ends', same => by
    simp only [outline, cons_append, append_assoc, List.cons.injEq, Prod.mk.injEq] at same
    obtain ⟨⟨-, -, rfl⟩, same⟩ := same
    have childrenEnd : ∀ {trees : List Tree} {rest : List OutlineEntry}, (∀ entry ∈ rest.head?, entry.1 ≤ depth) →
        Ends (depth + 1) true (outlines (depth + 1) false trees ++ rest) := by
      intro trees rest ends entry isHead
      rcases outlines_head isHead with behind | ⟨isDepth, isChild⟩
      · exact .inl (Nat.lt_succ_of_le (ends entry behind))
      · exact .inr ⟨isDepth, by simp [isChild]⟩
    obtain ⟨sameAttributes, same⟩ :=
      outlines_injective attrs attributes' (childrenEnd ends) (childrenEnd ends') same
    obtain ⟨sameChildren, same⟩ := outlines_injective children children'
      (fun entry isHead => .inl (Nat.lt_succ_of_le (ends entry isHead)))
      (fun entry isHead => .inl (Nat.lt_succ_of_le (ends' entry isHead))) same
    refine ⟨?_, same⟩
    simp only [unplaced, reposition, repositionAll_eq_map] at sameAttributes sameChildren ⊢
    rw [sameAttributes, sameChildren]

lemma outlines_injective : ∀ (trees trees' : List Tree) {depth : Nat} {areAttributes : Bool}
    {rest rest' : List OutlineEntry}, Ends depth areAttributes rest → Ends depth areAttributes rest' →
    outlines depth areAttributes trees ++ rest = outlines depth areAttributes trees' ++ rest' →
    trees.map (reposition fun _ => .start) = trees'.map (reposition fun _ => .start) ∧ rest = rest'
  | [], [], _, _, _, _, _, _, same => ⟨rfl, same⟩
  | [], node kind pos attrs children :: more, depth, areAttributes, rest, rest', ends, _, same => by
    rw [outlines, nil_append] at same
    rw [same] at ends
    rcases ends _ rfl with less | ⟨-, other⟩
    · exact absurd less (Nat.lt_irrefl _)
    · exact absurd rfl other
  | node kind pos attrs children :: more, [], depth, areAttributes, rest, rest', _, ends', same => by
    rw [outlines.eq_1, nil_append] at same
    rw [← same] at ends'
    rcases ends' _ rfl with less | ⟨-, other⟩
    · exact absurd less (Nat.lt_irrefl _)
    · exact absurd rfl other
  | tree :: more, tree' :: more', depth, areAttributes, rest, rest', ends, ends', same => by
    have shallow : ∀ {trees : List Tree} {rest : List OutlineEntry}, Ends depth areAttributes rest →
        ∀ entry ∈ (outlines depth areAttributes trees ++ rest).head?, entry.1 ≤ depth := by
      intro trees rest ends entry isHead
      rcases outlines_head isHead with behind | ⟨isDepth, -⟩
      · exact (ends entry behind).elim Nat.le_of_lt fun deep => Nat.le_of_eq deep.1
      · exact Nat.le_of_eq isDepth
    rw [outlines, outlines, append_assoc, append_assoc] at same
    obtain ⟨sameTree, same⟩ := outline_injective tree tree' (shallow ends) (shallow ends') same
    obtain ⟨sameMore, same⟩ := outlines_injective more more' ends ends' same
    exact ⟨cons_eq_cons.2 ⟨sameTree, sameMore⟩, same⟩

end

end Tree

namespace Document

/-- The number of nodes above a node. -/
def depth (doc : Document) (id : Nat) : Nat :=
  (doc.ancestors id).length

def entry (doc : Document) (id : Nat) : OutlineEntry :=
  (doc.depth id, (doc.kind id).isAttribute, doc.kind id)

/-- The entries of all nodes in the order of their creation. -/
def entries (doc : Document) : List OutlineEntry :=
  (List.range doc.size).map doc.entry

variable {doc before after : Document} {id owner : Nat}

lemma entries_length : doc.entries.length = doc.size := by
  rw [entries, length_map, length_range]

lemma entries_getElem (inside : id < doc.size) : doc.entries[id]? = some (doc.entry id) := by
  rw [entries, getElem?_map, getElem?_range inside, Option.map_some]

lemma entry_of_getElem (isFound : doc.entries[id]? = some found) : id < doc.size ∧ doc.entry id = found := by
  have inside : id < doc.size := by
    rw [← entries_length]
    exact (List.getElem?_eq_some_iff.1 isFound).1
  exact ⟨inside, Option.some.inj ((entries_getElem inside).symm.trans isFound)⟩

lemma entries_replaced (inside : id < doc.size) :
    ((List.range doc.size).flatMap fun node => if node = id then others else [doc.entry node]) =
      doc.entries.take id ++ (others ++ doc.entries.drop (id + 1)) := by
  have others_kept : ∀ ids : List Nat, id ∉ ids →
      (ids.flatMap fun node => if node = id then others else [doc.entry node]) = ids.map doc.entry := by
    intro ids apart
    rw [map_eq_flatMap]
    refine flatMap_congr fun node mem => if_neg ?_
    rintro rfl
    exact apart mem
  obtain ⟨count, size⟩ := Nat.exists_eq_add_of_le (Nat.succ_le_of_lt inside)
  have ids : List.range doc.size = List.range id ++ id :: (List.range count).map (id + 1 + ·) := by
    rw [size, range_add, range_succ, append_assoc]
    rfl
  rw [entries, ids, flatMap_append, flatMap_cons, if_pos rfl, others_kept _ (by simp),
    others_kept _ (by simp; omega), map_append, map_cons, take_left' (by simp),
    append_cons _ _ (List.map _ _), drop_left' (by simp)]

lemma WellFormed.depth_parent (wf : doc.WellFormed) (parent : doc.parent id = some owner) :
    doc.depth id = doc.depth owner + 1 := by
  rw [depth, wf.ancestors_some parent, length_cons, depth]

lemma depth_congr (wf : before.WellFormed) (wellFormed' : after.WellFormed)
    (parents : ∀ id, id < before.size → after.parent id = before.parent id) (inside : id < before.size) :
    after.depth id = before.depth id := by
  rw [depth, depth, ancestors_congr wf wellFormed' parents inside]

lemma WellFormed.outline_treeAt (wf : doc.WellFormed) (id) :
    (doc.treeAt id).outline (doc.depth id) (doc.kind id).isAttribute = (doc.preorder id).map doc.entry := by
  induction id using wf.owned_induction with
  | step id ih =>
    have below : ∀ ids : List Nat, ∀ areAttributes : Bool, (∀ other ∈ ids, other ∈ (doc.node id).owned ∧
        (doc.kind other).isAttribute = areAttributes) →
        Tree.outlines (doc.depth id + 1) areAttributes (ids.map doc.treeAt) =
          (ids.flatMap doc.preorder).map doc.entry := by
      intro ids areAttributes owned
      rw [Tree.outlines_eq_flatMap, flatMap_map, map_flatMap]
      apply flatMap_congr
      intro other mem
      obtain ⟨isOwned, rfl⟩ := owned other mem
      rw [← wf.depth_parent (wf.owned_iff.1 isOwned)]
      exact ih other isOwned
    rw [wf.treeAt_eq, Tree.outline, wf.preorder_eq, map_cons, Node.owned, flatMap_append, map_append]
    congr 2
    · exact below _ true fun other mem =>
        ⟨mem_append_left _ mem, wf.attribute_kind mem⟩
    · exact below _ false fun other mem =>
        ⟨mem_append_right _ mem, wf.child_kind mem⟩

/-- The store of a document in reading order is its outline. -/
theorem InOrder.outline_tree (inOrder : doc.InOrder) (wf : doc.WellFormed) :
    doc.tree.outline 0 false = doc.entries := by
  have whole := wf.outline_treeAt root
  rw [wf.preorder_eq_range inOrder, wf.root_kind, depth, ancestors_none wf.root_parent] at whole
  exact whole

lemma WellFormed.depth_climbs (wf : doc.WellFormed)
    (climbs : doc.Climbs levels id target) : doc.depth target + levels = doc.depth id := by
  induction levels generalizing id with
  | zero => rw [climbs, Nat.add_zero]
  | succ levels ih =>
    obtain ⟨parent, found, further⟩ := climbs
    rw [wf.depth_parent found, ← ih further, Nat.add_assoc]

variable {made : NodeKind} {pos : Position} {outer : Option Nat}

namespace Gains

variable (gains : Gains before after owner made pos outer) (wf : before.WellFormed)

include gains wf

lemma depth_old (old : id < before.size) : after.depth id = before.depth id := by
  refine depth_congr wf (gains.wellFormed wf) (fun other inside => ?_) old
  rw [gains.parent, if_neg (Nat.ne_of_lt inside)]

lemma entry_old (old : id < before.size) : after.entry id = before.entry id := by
  rw [entry, entry, gains.depth_old wf old, gains.kind, if_neg (Nat.ne_of_lt old)]

lemma entry_new : after.entry before.size = (before.depth owner + 1, made.isAttribute, made) := by
  have parent : after.parent before.size = some owner := by
    rw [gains.parent, if_pos rfl]
  rw [entry, (gains.wellFormed wf).depth_parent parent, gains.depth_old wf gains.inside, gains.kind, if_pos rfl]

lemma outline : after.entries = before.entries ++ [(before.depth owner + 1, made.isAttribute, made)] := by
  rw [entries, gains.size, range_succ, map_append, map_singleton, gains.entry_new wf]
  congr 1
  exact map_congr_left fun id old => gains.entry_old wf (mem_range.1 old)

end Gains

lemma depth_close (wf : doc.WellFormed) (isElement : doc.kind owner = .element tag closed)
    (inside : id < doc.size) : (doc.close owner tag).depth id = doc.depth id := by
  refine depth_congr wf (wf.close isElement) (fun other _ => ?_) inside
  rw [parent, close, node_modify_kind]
  rfl

lemma entry_close (wf : doc.WellFormed) {tag closed}
    (isElement : doc.kind owner = .element tag closed) (target : owner < doc.size)
    (inside : id < doc.size) : (doc.close owner tag).entry id =
      if id = owner then (doc.depth id, false, .element tag true) else doc.entry id := by
  rw [entry, depth_close wf isElement inside, kind, close, node_modify_kind]
  by_cases isTarget : id = owner
  · rw [if_pos isTarget, if_pos ⟨isTarget, target⟩]
    rfl
  · rw [if_neg isTarget, if_neg fun both => isTarget both.1]
    rfl

/-- What two documents have behind the nodes they started with is the same, but for its depth. -/
structure Continues (origin origin' : Document) (levels : Nat) (left right : Document) : Prop where
  size : ∃ count, left.size = origin.size + count ∧ right.size = origin'.size + count
  old : ∀ id, id < origin.size → left.entry id = origin.entry id
  old' : ∀ id, id < origin'.size → right.entry id = origin'.entry id
  new : ∀ number, origin.size + number < left.size →
    right.entry (origin'.size + number) = (left.entry (origin.size + number)).lower levels

namespace Continues

variable {origin origin' left right : Document} {levels : Nat}

lemma start (left right levels) : Continues left right levels left right where
  size := ⟨0, rfl, rfl⟩
  old := fun _ _ => rfl
  old' := fun _ _ => rfl
  new := fun _ inside => absurd inside (Nat.not_lt.2 (Nat.le_add_right _ _))

variable (continues : Continues origin origin' levels left right)

include continues

lemma outline : ∃ new, left.entries = origin.entries ++ new ∧
    right.entries = origin'.entries ++ new.map (.lower levels) := by
  obtain ⟨count, size, size'⟩ := continues.size
  refine ⟨(List.range count).map fun number => left.entry (origin.size + number), ?_, ?_⟩
  · rw [entries, size, range_add, map_append, map_map]
    congr 1
    exact map_congr_left fun id mem => continues.old id (mem_range.1 mem)
  · rw [entries, size', range_add, map_append, map_map, map_map]
    congr 1
    · exact map_congr_left fun id mem => continues.old' id (mem_range.1 mem)
    · refine map_congr_left fun number mem => continues.new number ?_
      have inside := mem_range.1 mem
      omega

lemma gain {owner'} (leftWell : left.WellFormed) (rightWell : right.WellFormed)
    (gains : Gains left left' owner made pos outer)
    (gains' : Gains right right' owner' made position' outer')
    (depths : right.depth owner' = left.depth owner + levels) :
    Continues origin origin' levels left' right' := by
  obtain ⟨count, size, size'⟩ := continues.size
  refine ⟨⟨count + 1, by rw [gains.size, size, Nat.add_assoc], by rw [gains'.size, size', Nat.add_assoc]⟩,
    ?_, ?_, ?_⟩
  · intro id old
    rw [gains.entry_old leftWell (by omega), continues.old id old]
  · intro id old
    rw [gains'.entry_old rightWell (by omega), continues.old' id old]
  · intro number isInside
    rw [gains.size, size] at isInside
    rcases Nat.lt_or_eq_of_le (Nat.le_of_lt_succ isInside) with isOld | isLast
    · rw [gains.entry_old leftWell (by omega), gains'.entry_old rightWell (by omega)]
      exact continues.new number (by omega)
    · rw [isLast, ← size, gains.entry_new leftWell, Nat.add_left_cancel isLast, ← size',
        gains'.entry_new rightWell, depths, Nat.add_right_comm]
      rfl

lemma close (leftWell : left.WellFormed) (rightWell : right.WellFormed)
    (inside : origin.size + number < left.size)
    (isElement : left.kind (origin.size + number) = .element tag closed)
    (isElement' : right.kind (origin'.size + number) = .element tag closed) :
    Continues origin origin' levels (left.close (origin.size + number) tag)
      (right.close (origin'.size + number) tag) := by
  obtain ⟨count, size, size'⟩ := continues.size
  have inside' : origin'.size + number < right.size := by omega
  have entries := fun {id} => @entry_close left id (origin.size + number) leftWell tag closed isElement inside
  have entries' := fun {id} => @entry_close right id (origin'.size + number) rightWell tag closed isElement' inside'
  refine ⟨⟨count, (size_modify _ _ _).trans size, (size_modify _ _ _).trans size'⟩, ?_, ?_, ?_⟩
  · intro id old
    rw [entries (by omega), if_neg (show ¬ id = origin.size + number by omega), continues.old id old]
  · intro id old
    rw [entries' (by omega), if_neg (show ¬ id = origin'.size + number by omega), continues.old' id old]
  · intro other isInside
    rw [Document.close, size_modify] at isInside
    have same := continues.new other isInside
    rw [entries isInside, entries' (by omega)]
    simp only [Nat.add_left_cancel_iff]
    split
    · have depths : right.depth (origin'.size + other) = _ := congrArg Prod.fst same
      rw [depths]
      rfl
    · exact same

end Continues

end Document

namespace Builder

open Document

variable {after : Builder} {made : NodeKind}

/-- Nodes that are the same number of nodes behind two places, or none. -/
inductive Matched (first second : Nat) : Option Nat → Option Nat → Prop
  | none : Matched first second none none
  | some (number : Nat) : Matched first second (some (first + number)) (some (second + number))

/-- Two builders that have added the same to what they started with and stand at corresponding places,
one of them further down by a number of levels. -/
structure InStep (origin origin' : Document) (levels : Nat) (frames : List Nat) (left right : Builder) :
    Prop where
  document : Continues origin origin' levels left.document right.document
  current : right.document.depth right.current = left.document.depth left.current + levels
  lineNode : Matched origin.size origin'.size left.lineNode right.lineNode
  listOwner : Matched origin.size origin'.size left.listOwner right.listOwner
  awaiting : Matched origin.size origin'.size left.awaiting right.awaiting
  last : (∀ id ∈ left.last, (left.document.kind id).acceptsChildren = false) ∨
    Matched origin.size origin'.size left.last right.last
  expansions : right.expansions = left.expansions
  frames : right.frames = left.frames ++ frames

namespace InStep

variable {origin origin' : Document} {levels : Nat} {frames : List Nat} {left right : Builder}
  (inStep : InStep origin origin' levels frames left right) (sound : left.Sound) (sound' : right.Sound)

include inStep

lemma depths {id id'} (matched : Matched origin.size origin'.size (some id) (some id'))
    (inside : id < left.document.size) : right.document.depth id' = left.document.depth id + levels := by
  cases matched with
  | some number => exact congrArg Prod.fst (inStep.document.new number inside)

lemma latest : Matched origin.size origin'.size (some left.document.size) (some right.document.size) := by
  obtain ⟨count, size, size'⟩ := inStep.document.size
  rw [size, size']
  exact .some count

include sound sound'

lemma gain {owner' document'} (gains : Gains left.document doc owner made pos outer)
    (gains' : Gains right.document document' owner' made position' outer')
    (depths : right.document.depth owner' = left.document.depth owner + levels) :
    InStep origin origin' levels frames { left with document := doc }
      { right with document := document' } where
  document := inStep.document.gain sound.document sound'.document gains gains' depths
  current := by
    rw [gains.depth_old sound.document sound.current.inside, gains'.depth_old sound'.document sound'.current.inside]
    exact inStep.current
  lineNode := inStep.lineNode
  listOwner := inStep.listOwner
  awaiting := inStep.awaiting
  last := by
    refine inStep.last.imp_left fun leaf id isLast => ?_
    rw [gains.kind, if_neg (Nat.ne_of_lt (sound.last id isLast).inside)]
    exact leaf id isLast
  expansions := inStep.expansions
  frames := inStep.frames

lemma extend {owner? owner?' : Option Nat} (matched : Matched origin.size origin'.size owner? owner?')
    (taken : left.Extends left' owner? made pos) (taken' : right.Extends right' owner?' made position') :
    InStep origin origin' levels frames left' right' := by
  obtain ⟨owner, outer, doc, isOwner, gains, rfl⟩ := taken
  obtain ⟨owner', outer', document', isOwner', gains', rfl⟩ := taken'
  rw [isOwner, isOwner'] at matched
  exact inStep.gain sound sound' gains gains' (inStep.depths matched gains.inside)

lemma opens (taken : left.Opens left' made pos) (taken' : right.Opens right' made position') :
    InStep origin origin' levels frames left' right' := by
  obtain ⟨doc, gains, rfl⟩ := taken
  obtain ⟨document', gains', rfl⟩ := taken'
  have depths : right.document.depth (right.lineNode.getD right.current) =
      left.document.depth (left.lineNode.getD left.current) + levels := by
    have matched := inStep.lineNode
    cases line : left.lineNode with
    | none =>
      generalize right.lineNode = line' at matched ⊢
      rw [line] at matched
      cases matched
      exact inStep.current
    | some owner =>
      generalize right.lineNode = line' at matched ⊢
      rw [line] at matched
      have inside := (sound.lineNode owner line).inside
      cases matched with
      | some number => exact inStep.depths (.some number) inside
  have latest := inStep.latest
  have grown := inStep.gain sound sound' gains gains' depths
  exact ⟨grown.document, grown.current, latest, grown.listOwner, grown.awaiting, .inr latest,
    grown.expansions, grown.frames⟩

lemma inline (taken : left.lineNode = none ∧ left.Opens left' made pos ∨ left.Extends left' left.lineNode made pos)
    (taken' : right.lineNode = none ∧ right.Opens right' made position' ∨
      right.Extends right' right.lineNode made position') :
    InStep origin origin' levels frames left' right' := by
  have link := inStep.lineNode
  rcases taken with ⟨none, opened⟩ | extended
  · rcases taken' with ⟨-, opened'⟩ | ⟨owner', _, _, isLine', -⟩
    · exact inStep.opens sound sound' opened opened'
    · rw [none, isLine'] at link
      cases link
  · rcases taken' with ⟨none', -⟩ | extended'
    · obtain ⟨owner, _, _, isLine, -⟩ := extended
      rw [isLine, none'] at link
      cases link
    · exact inStep.extend sound sound' link extended extended'

lemma step {token'} (same : token'.kind = token.kind) (ok : left.step token indentFollows = .ok left')
    (result' : right.step token' indentFollows = .ok right') :
    InStep origin origin' levels frames left' right' := by
  have taken := step_takes sound ok
  have taken' := step_takes sound' result'
  rw [same] at taken'
  generalize token.kind = kind at taken taken'
  obtain ⟨doc, current, lineNode, listOwner, awaiting, last, expansions, isFrames⟩ := id inStep
  cases kind with
  | indent =>
    obtain ⟨target, isLast, accepts, rfl⟩ := taken
    obtain ⟨target', isLast', -, rfl⟩ := taken'
    have link := last.resolve_left fun leaf => by simp [leaf target isLast] at accepts
    have depths := inStep.depths (isLast ▸ isLast' ▸ link) (sound.last target isLast).inside
    exact ⟨doc, depths, lineNode, listOwner, awaiting, last, rfl, by simp [expansions, isFrames]⟩
  | outdent =>
    obtain ⟨climb, rest, node, opened, climbs, rfl⟩ := taken
    obtain ⟨climb', rest', node', opened', climbs', rfl⟩ := taken'
    have depths := sound.document.depth_climbs climbs
    have depths' := sound'.document.depth_climbs climbs'
    rw [opened, opened', cons_append, List.cons.injEq] at isFrames
    refine ⟨doc, ?_, lineNode, listOwner, awaiting, last, expansions, isFrames.2⟩
    dsimp only
    omega
  | newLine =>
    obtain ⟨node, climbs, rfl⟩ := taken
    obtain ⟨node', climbs', rfl⟩ := taken'
    have depths := sound.document.depth_climbs climbs
    have depths' := sound'.document.depth_climbs climbs'
    rw [expansions] at depths'
    refine ⟨doc, ?_, .none, .none, .none, last, by rw [expansions], isFrames⟩
    dsimp only
    omega
  | classShorthand | idShorthand => exact inStep.extend sound sound' lineNode taken taken'
  | attributeStart =>
    obtain ⟨owner, isOwner, rfl⟩ := taken
    obtain ⟨owner', isOwner', rfl⟩ := taken'
    have link : Matched origin.size origin'.size (left.awaiting <|> left.lineNode)
        (right.awaiting <|> right.lineNode) := by
      revert awaiting
      generalize left.awaiting = first
      generalize right.awaiting = first'
      rintro (_ | number)
      · exact lineNode
      · exact .some number
    rw [isOwner, isOwner'] at link
    exact ⟨doc, current, lineNode, link, .none, last, expansions, isFrames⟩
  | attr entry => exact inStep.extend sound sound' listOwner taken taken'
  | attributeEnd =>
    cases taken
    cases taken'
    exact ⟨doc, current, lineNode, .none, awaiting, last, expansions, isFrames⟩
  | assignment name =>
    obtain ⟨next, extended, rfl⟩ := taken
    obtain ⟨next', extended', rfl⟩ := taken'
    have grown := inStep.extend sound sound' lineNode extended extended'
    exact ⟨grown.document, grown.current, grown.lineNode, grown.listOwner, inStep.latest, grown.last,
      grown.expansions, grown.frames⟩
  | selfClosing =>
    obtain ⟨target, tag, closed, isLine, isElement, rfl⟩ := taken
    obtain ⟨target', tag', closed', isLine', isElement', rfl⟩ := taken'
    have link := isLine ▸ isLine' ▸ lineNode
    have inside := (sound.lineNode target isLine).inside
    cases link with
    | some number =>
      have kinds := congrArg (fun entry => entry.2.2) (doc.new number inside)
      cases isElement'.symm.trans (kinds.trans isElement)
      refine ⟨doc.close sound.document sound'.document inside isElement isElement', ?_, lineNode, listOwner,
        awaiting, last.imp_left fun leaf id isLast => ?_, expansions, isFrames⟩
      · rw [depth_close sound.document isElement sound.current.inside,
          depth_close sound'.document isElement' sound'.current.inside]
        exact current
      · rw [← leaf id isLast]
        exact kind_close_test isElement NodeKind.acceptsChildren rfl id
  | expansion =>
    obtain ⟨head, isLine, rfl⟩ := taken
    obtain ⟨head', isLine', rfl⟩ := taken'
    have depths := inStep.depths (isLine ▸ isLine' ▸ lineNode) (sound.lineNode head isLine).inside
    exact ⟨doc, depths, .none, listOwner, awaiting, last, congrArg (· + 1) expansions, isFrames⟩
  | text | expression => exact inStep.inline sound sound' taken taken'
  | tag | statement => exact inStep.opens sound sound' taken taken'

end InStep

lemma head_indent {tokens tokens' : List Token} (same : tokens'.map Token.kind = tokens.map Token.kind) :
    tokens'.head?.any isIndent = tokens.head?.any isIndent := by
  cases tokens with
  | nil => rw [map_eq_nil_iff.1 same]
  | cons token more =>
    obtain ⟨token', more', rfl, kinds, -⟩ := map_eq_cons_iff.1 same
    change (token'.kind == .indent) = (token.kind == .indent)
    rw [kinds]

lemma InStep.run {origin origin' levels frames left right left' right'}
    (inStep : InStep origin origin' levels frames left right)
    (sound : left.Sound) (sound' : right.Sound) {tokens tokens'}
    (same : tokens'.map Token.kind = tokens.map Token.kind) (ok : left.run tokens = .ok left')
    (result' : right.run tokens' = .ok right') : InStep origin origin' levels frames left' right' := by
  induction tokens generalizing tokens' left right with
  | nil =>
    rw [map_eq_nil_iff.1 same] at result'
    cases ok
    cases result'
    exact inStep
  | cons token more ih =>
    obtain ⟨token', more', rfl, kinds, sameMore⟩ := map_eq_cons_iff.1 same
    obtain ⟨next, taken, further⟩ := run_cons ok
    obtain ⟨next', taken', further'⟩ := run_cons result'
    rw [head_indent sameMore] at taken'
    exact ih (inStep.step sound sound' kinds taken taken') (step_sound sound taken)
      (step_sound sound' taken') sameMore further further'

end Builder

end PugTemplate
