import Mathlib.Data.List.Forall2
import PugTemplate.Proofs.ImportGraph

/-!
# Templates with parts in common

Two templates may agree in some parts and differ in others. The nodes of the common parts are linked in
pairs, in the order of their creation. What is included is the same on both sides and takes the place
of linked nodes, so that new links are added at the end. The nodes that are not linked are left alone.
-/

namespace PugTemplate

open List

def NodeKind.isNamedBlock : NodeKind → Bool
  | statement (.block (some _) _) => true
  | _ => false

/-- The node with its references moved behind the first nodes of a store. -/
def Node.behind (node : Node) (base : Nat) : Node :=
  node.rename fun id => some (id + base)

namespace Node

lemma behind_parent (node : Node) (base) : (node.behind base).parent = node.parent.map (· + base) := by
  cases parent : node.parent with
  | none | some => simp [behind, rename, parent]

lemma behind_attributes (node : Node) (base) : (node.behind base).attributes = node.attributes.map (· + base) :=
  congrFun filterMap_eq_map node.attributes

lemma behind_children (node : Node) (base) : (node.behind base).children = node.children.map (· + base) :=
  congrFun filterMap_eq_map node.children

end Node

variable {one other id : Nat} {ids : List Nat} {doc : Document}

namespace Document

/-- Two nodes, one of either document, stand for each other. -/
def Linked (links : List (Nat × Nat)) (one other : Nat) : Prop :=
  (one, other) ∈ links

def lefts (links : List (Nat × Nat)) : List Nat :=
  links.map Prod.fst

def rights (links : List (Nat × Nat)) : List Nat :=
  links.map Prod.snd

/-- The links are in the order of the nodes on both sides. -/
def Ascends (links : List (Nat × Nat)) : Prop :=
  links.Pairwise fun first second => first.1 < second.1 ∧ first.2 < second.2

/-- Links between as many nodes behind the first `left` and `right` nodes. -/
def freshLinks (left right count : Nat) : List (Nat × Nat) :=
  (List.range count).map fun index => (index + left, index + right)

section Links

variable {links : List (Nat × Nat)}

lemma Linked.left (linked : Linked links one other) : one ∈ lefts links := mem_map_of_mem linked

lemma Linked.right (linked : Linked links one other) : other ∈ rights links := mem_map_of_mem linked

lemma Linked.more (linked : Linked links one other) (more) : Linked (links ++ more) one other :=
  mem_append_left more linked

lemma rel_more {one other} (rel : Option.Rel (Linked links) one other)
    (more) : Option.Rel (Linked (links ++ more)) one other := by
  cases rel with
  | none => exact .none
  | some linked => exact .some (linked.more more)

lemma Ascends.same_iff (ascends : Ascends links) (first : Linked links one other)
    (second : Linked links two another) : one = two ↔ other = another := by
  have before : links.Pairwise fun first second => first.1 = second.1 ↔ first.2 = second.2 :=
    ascends.imp fun less => by omega
  have behind : links.Pairwise fun first second => second.1 = first.1 ↔ second.2 = first.2 :=
    ascends.imp fun less => by omega
  exact before.forall_of_forall_of_flip (by simp) behind first second

lemma Ascends.mem_iff (ascends : Ascends links) (pairs : List.Forall₂ (Linked links) left right)
    (linked : Linked links one other) : one ∈ left ↔ other ∈ right := by
  induction pairs with
  | nil => simp
  | cons first rest ih =>
    rw [mem_cons, mem_cons, ih, ascends.same_iff linked first]

lemma linked_filter (pairs : List.Forall₂ (Linked links) left right) :
    left.filter (· ∈ lefts links) = left ∧ right.filter (· ∈ rights links) = right := by
  induction pairs with
  | nil => exact ⟨rfl, rfl⟩
  | cons first rest ih =>
    rw [filter_cons_of_pos (by simpa using first.left), ih.1, filter_cons_of_pos (by simpa using first.right), ih.2]
    exact ⟨rfl, rfl⟩

lemma Ascends.mem_iff_of_filter (ascends : Ascends links) {left right : List Nat}
    (pairs : List.Forall₂ (Linked links) (left.filter (· ∈ lefts links))
      (right.filter (· ∈ rights links))) (linked : Linked links one other) : one ∈ left ↔ other ∈ right := by
  have both := ascends.mem_iff pairs linked
  simpa [linked.left, linked.right] using both

lemma Ascends.spliceAt (ascends : Ascends links) (pairs : List.Forall₂ (Linked links) left right)
    (new : List.Forall₂ (Linked links) newLeft newRight) (linked : Linked links one other) :
    List.Forall₂ (Linked links) (spliceAt one newLeft left) (spliceAt other newRight right) := by
  induction pairs with
  | nil => exact .nil
  | @cons first second leftMore rightMore here rest ih =>
    have same := ascends.same_iff here linked
    simp only [Document.spliceAt, beq_iff_eq]
    by_cases replaced : first = one
    · rw [if_pos replaced, if_pos (same.1 replaced)]
      exact rel_append new rest
    · rw [if_neg replaced, if_neg (fun equal => replaced (same.2 equal))]
      exact .cons here ih

lemma filter_spliceAt (kept : Nat → Bool) (stays : kept id)
    (newStay : ∀ other ∈ new, kept other) (siblings) :
    (spliceAt id new siblings).filter kept = spliceAt id new (siblings.filter kept) := by
  induction siblings with
  | nil => rfl
  | cons sibling more ih =>
    simp only [spliceAt, beq_iff_eq]
    by_cases same : sibling = id
    · rw [if_pos same, same, filter_cons_of_pos stays, spliceAt, if_pos (by simp),
        filter_append, filter_eq_self.2 newStay]
    · rw [if_neg same]
      cases staying : kept sibling with
      | true =>
        rw [filter_cons_of_pos staying, filter_cons_of_pos staying, spliceAt, if_neg (by simpa using same), ih]
      | false =>
        have out : ¬ kept sibling := by simp [staying]
        rw [filter_cons_of_neg out, filter_cons_of_neg out, ih]

lemma Ascends.filter_spliceAt (ascends : Ascends links)
    (pairs : List.Forall₂ (Linked links) (left.filter (· ∈ lefts links))
      (right.filter (· ∈ rights links))) (new : List.Forall₂ (Linked links) newLeft newRight)
    (linked : Linked links one other) :
    List.Forall₂ (Linked links) ((Document.spliceAt one newLeft left).filter (· ∈ lefts links))
      ((Document.spliceAt other newRight right).filter (· ∈ rights links)) := by
  obtain ⟨newLefts, newRights⟩ := linked_filter new
  rw [Document.filter_spliceAt _ (by simpa using linked.left) (filter_eq_self.1 newLefts),
    Document.filter_spliceAt _ (by simpa using linked.right) (filter_eq_self.1 newRights)]
  exact ascends.spliceAt pairs new linked

lemma Ascends.append_fresh (ascends : Ascends links)
    (inside : ∀ {one other : Nat}, Linked links one other → one < left ∧ other < right)
    (count) : Ascends (links ++ freshLinks left right count) := by
  refine pairwise_append.2 ⟨ascends, ?_, ?_⟩
  · refine pairwise_map.2 (pairwise_lt_range.imp ?_)
    intro first second before
    omega
  · intro old isOld new isNew
    obtain ⟨index, -, rfl⟩ := mem_map.1 isNew
    have bound := inside (show Linked links old.1 old.2 from isOld)
    omega

lemma linked_fresh {left right count index} (bound : index < count) :
    Linked (links ++ freshLinks left right count) (index + left) (index + right) :=
  mem_append_right _ (mem_map.2 ⟨index, mem_range.2 bound, rfl⟩)

lemma forall_linked_fresh {left right count} {ids : List Nat} (below : ∀ id ∈ ids, id < count) :
    List.Forall₂ (Linked (links ++ freshLinks left right count)) (ids.map (· + left))
      (ids.map (· + right)) := by
  induction ids with
  | nil => exact .nil
  | cons id more ih =>
    refine .cons (linked_fresh (below id mem_cons_self)) (ih ?_)
    exact (forall_mem_cons.1 below).2

lemma fresh_add : freshLinks left right (first + second) =
    freshLinks left right first ++ freshLinks (left + first) (right + first) second := by
  unfold freshLinks
  rw [range_add, map_append, map_map]
  congr 1
  apply map_congr_left
  intro index _
  simp only [Function.comp_apply, Prod.mk.injEq]
  omega

lemma lefts_append : lefts (links ++ more) = lefts links ++ lefts more := map_append

lemma rights_append : rights (links ++ more) = rights links ++ rights more := map_append

lemma lefts_fresh (count) : lefts (freshLinks left right count) = range' left count := by
  rw [lefts, freshLinks, map_map, range'_eq_map_range]
  apply map_congr_left
  intro index _
  exact Nat.add_comm index left

lemma rights_fresh (count) : rights (freshLinks left right count) = range' right count := by
  rw [rights, freshLinks, map_map, range'_eq_map_range]
  apply map_congr_left
  intro index _
  exact Nat.add_comm index right

lemma filter_append_fresh (old : ∀ id ∈ ids, id < base) (count) :
    ids.filter (· ∈ early ++ range' base count) = ids.filter (· ∈ early) := by
  apply filter_congr
  intro id mem
  have bound := old id mem
  rw [decide_eq_decide, mem_append, or_iff_left]
  rw [mem_range'_1]
  omega

end Links

/-- Two nodes agree, with positions as a view shows them. Of their children only those that are linked
are compared, and of the roots only these. -/
structure Matches (view : Position → Position) (links : List (Nat × Nat)) (left right : Document)
    (one other : Nat) : Prop where
  kind : right.kind other = left.kind one
  parent : Option.Rel (Linked links) (left.parent one) (right.parent other)
  position : one ≠ root → view (right.position other) = view (left.position one)
  attributes : one ≠ root → List.Forall₂ (Linked links) (left.attributes one) (right.attributes other)
  children : List.Forall₂ (Linked links) ((left.children one).filter (· ∈ lefts links))
    ((right.children other).filter (· ∈ rights links))

variable {newLeft newRight : Document} {kept : List Nat}

namespace Matches

variable {view : Position → Position} {links : List (Nat × Nat)} {left right : Document}
  (same : Matches view links left right one other)

include same

lemma reshape (leftShape : newLeft.shape one = left.shape one)
    (rightShape : newRight.shape other = right.shape other) :
    Matches view links newLeft newRight one other := by
  constructor
  · rw [kind_eq_shape, kind_eq_shape, leftShape, rightShape]
    exact same.kind
  · rw [parent_eq_shape, parent_eq_shape, leftShape, rightShape]
    exact same.parent
  · rw [position_eq_shape, position_eq_shape, leftShape, rightShape]
    exact same.position
  · rw [attributes_eq_shape, attributes_eq_shape, leftShape, rightShape]
    exact same.attributes
  · rw [children_eq_shape, children_eq_shape, leftShape, rightShape]
    exact same.children

lemma append_fresh (leftWell : left.WellFormed) (rightWell : right.WellFormed) (count) :
    Matches view (links ++ freshLinks left.size right.size count) left right one other where
  kind := same.kind
  parent := rel_more same.parent _
  position := same.position
  attributes notRoot := (same.attributes notRoot).imp fun _ _ linked => linked.more _
  children := by
    rw [lefts_append, rights_append, lefts_fresh, rights_fresh,
      filter_append_fresh (fun id mem => leftWell.child_inside mem),
      filter_append_fresh (fun id mem => rightWell.child_inside mem)]
    exact same.children.imp fun _ _ linked => linked.more _

end Matches

/-- Two documents have the linked nodes in common. -/
structure Shares (view : Position → Position) (links : List (Nat × Nat)) (left right : Document) :
    Prop where
  ascends : Ascends links
  rooted : Linked links root root
  inside : ∀ {one other : Nat}, Linked links one other → one < left.size ∧ other < right.size
  node : ∀ {one other : Nat}, Linked links one other → Matches view links left right one other

lemma pushAll_shape_behind (doc : Document) {nodes : List Node}
    (bound : index < nodes.length) : (doc.pushAll (nodes.map (·.behind doc.size))).shape (index + doc.size) =
      ((nodes.get ⟨index, bound⟩).behind doc.size).unlevelled := by
  rw [Nat.add_comm]
  apply doc.pushAll_shape_new
  rw [getElem?_map, getElem?_eq_getElem bound]
  rfl

/-- Two nodes with the same content, whose references are below a bound. -/
structure SameNode (view : Position → Position) (bound : Nat) (left right : Node) : Prop where
  kind : right.kind = left.kind
  position : view right.position = view left.position
  parent : right.parent = left.parent
  attributes : right.attributes = left.attributes
  children : right.children = left.children
  parent_below : ∀ id, left.parent = some id → id < bound
  owned_below : ∀ id ∈ left.owned, id < bound

namespace Shares

variable {view : Position → Position} {links : List (Nat × Nat)} {left right : Document}
  (shares : Shares view links left right)

include shares

lemma alike (leftAlike : Alike newLeft left) (rightAlike : Alike newRight right) :
    Shares view links newLeft newRight where
  ascends := shares.ascends
  rooted := shares.rooted
  inside := by
    rw [leftAlike.index.size, rightAlike.index.size]
    exact shares.inside
  node := by
    intro one other linked
    exact (shares.node linked).reshape (leftAlike.shape one) (rightAlike.shape other)

lemma pushAll (leftWell : left.WellFormed) (rightWell : right.WellFormed)
    (same : List.Forall₂ (SameNode view leftNodes.length) leftNodes rightNodes) :
    Shares view (links ++ freshLinks left.size right.size leftNodes.length)
      (left.pushAll (leftNodes.map (·.behind left.size)))
      (right.pushAll (rightNodes.map (·.behind right.size))) where
  ascends := shares.ascends.append_fresh shares.inside _
  rooted := shares.rooted.more _
  inside := by
    intro one other linked
    rw [pushAll_size, pushAll_size, length_map, length_map, ← same.length_eq]
    rcases mem_append.1 linked with old | new
    · have bound := shares.inside old
      omega
    · obtain ⟨index, inRange, isLink⟩ := mem_map.1 new
      obtain ⟨rfl, rfl⟩ := Prod.mk.inj isLink
      have bound := mem_range.1 inRange
      omega
  node := by
    intro one other linked
    rcases mem_append.1 linked with old | new
    · obtain ⟨leftInside, rightInside⟩ := shares.inside old
      have node := (shares.node old).append_fresh leftWell rightWell leftNodes.length
      exact node.reshape (left.pushAll_shape_old _ leftInside) (right.pushAll_shape_old _ rightInside)
    · obtain ⟨index, inRange, isLink⟩ := mem_map.1 new
      obtain ⟨rfl, rfl⟩ := Prod.mk.inj isLink
      have bound := mem_range.1 inRange
      have rightBound : index < rightNodes.length := same.length_eq ▸ bound
      have node := same.get bound rightBound
      have leftShape := left.pushAll_shape_behind bound
      have rightShape := right.pushAll_shape_behind rightBound
      constructor
      · rw [kind_eq_shape, kind_eq_shape, leftShape, rightShape]
        exact node.kind
      · rw [parent_eq_shape, parent_eq_shape, leftShape, rightShape]
        change Option.Rel _ (Node.behind _ _).parent (Node.behind _ _).parent
        rw [Node.behind_parent, Node.behind_parent, node.parent]
        cases parent : (leftNodes.get ⟨index, bound⟩).parent with
        | none => exact .none
        | some owner => exact .some (linked_fresh (node.parent_below owner parent))
      · rw [position_eq_shape, position_eq_shape, leftShape, rightShape]
        exact fun _ => node.position
      · rw [attributes_eq_shape, attributes_eq_shape, leftShape, rightShape]
        change _ → List.Forall₂ _ (Node.behind _ _).attributes (Node.behind _ _).attributes
        rw [Node.behind_attributes, Node.behind_attributes, node.attributes]
        intro _
        exact forall_linked_fresh fun id mem => node.owned_below id (mem_append_left _ mem)
      · rw [children_eq_shape, children_eq_shape, leftShape, rightShape]
        change List.Forall₂ _ (filter _ (Node.behind _ _).children)
          (filter _ (Node.behind _ _).children)
        have pairs := @forall_linked_fresh links left.size right.size _ _ fun id mem =>
          node.owned_below id (mem_append_right _ mem)
        rw [Node.behind_children, Node.behind_children, node.children, (linked_filter pairs).1,
          (linked_filter pairs).2]
        exact pairs

end Shares

lemma graft_behind (doc : Document) (subtree : Subtree) : Alike (doc.graft subtree).1
    (doc.pushAll (subtree.nodes.map (·.behind doc.size))) := by
  unfold graft pushAll
  rw [foldl_map]
  exact relevel_alike _ _ _

lemma subtree_same (view : Position → Position) (source : Document) (id) :
    List.Forall₂ (SameNode view (source.subtree id).nodes.length) (source.subtree id).nodes
      (source.subtree id).nodes := by
  have length : (source.subtree id).nodes.length = (source.preorder id).length := by
    simp [subtree]
  have below : ∀ {old index : Nat}, (source.preorder id).idxOf? old = some index →
      index < (source.subtree id).nodes.length := by
    intro old index found
    have mem : old ∈ source.preorder id := by
      by_contra outside
      rw [idxOf?_eq_none_iff.2 outside] at found
      cases found
    rw [idxOf?_of_mem mem] at found
    rw [← Option.some.inj found, length]
    exact idxOf_lt_length_of_mem mem
  apply forall₂_same.2
  intro node mem
  obtain ⟨old, -, rfl⟩ := mem_map.1 mem
  refine ⟨rfl, rfl, rfl, rfl, rfl, ?_, ?_⟩
  · intro index isParent
    obtain ⟨owner, -, found⟩ := Option.bind_eq_some_iff.1 isParent
    exact below found
  · intro index isOwned
    rcases mem_append.1 isOwned with isAttribute | isChild
    · obtain ⟨owned, -, found⟩ := mem_filterMap.1 isAttribute
      exact below found
    · obtain ⟨owned, -, found⟩ := mem_filterMap.1 isChild
      exact below found

namespace Shares

variable {view : Position → Position} {links : List (Nat × Nat)} {left right : Document}
  (shares : Shares view links left right)

include shares

lemma relinks {leftOwner rightOwner leftIds rightIds} (linked : Linked links one other)
    (owners : Linked links leftOwner rightOwner) (ids : List.Forall₂ (Linked links) leftIds rightIds)
    (leftRelinks : Relinks left newLeft leftOwner (spliceAt one leftIds (left.children leftOwner)))
    (rightRelinks : Relinks right newRight rightOwner
      (spliceAt other rightIds (right.children rightOwner))) : Shares view links newLeft newRight where
  ascends := shares.ascends
  rooted := shares.rooted
  inside := by
    rw [leftRelinks.size, rightRelinks.size]
    exact shares.inside
  node := by
    intro id place isLink
    have node := shares.node isLink
    have old := (shares.node owners).children
    have splice := shares.ascends.filter_spliceAt old ids linked
    have owner : id = leftOwner ↔ place = rightOwner := shares.ascends.same_iff isLink owners
    constructor
    · rw [leftRelinks.kind, rightRelinks.kind]
      exact node.kind
    · rw [leftRelinks.parent, rightRelinks.parent]
      simp only [← shares.ascends.mem_iff_of_filter splice isLink, ← shares.ascends.mem_iff_of_filter old isLink]
      split
      · exact .some owners
      · split
        · exact .none
        · exact node.parent
    · rw [leftRelinks.position, rightRelinks.position]
      exact node.position
    · rw [leftRelinks.attributes, rightRelinks.attributes]
      exact node.attributes
    · rw [leftRelinks.children_eq, rightRelinks.children_eq]
      simp only [← owner]
      split
      · exact splice
      · exact node.children

variable (leftWell : left.WellFormed) (rightWell : right.WellFormed)

include leftWell rightWell

lemma graftAll {source : Document} (sourceWell : source.WellFormed) (ids : List Nat) :
    ∃ count, (left.graftAll (ids.map source.subtree)).1.size = left.size + count ∧
      (right.graftAll (ids.map source.subtree)).1.size = right.size + count ∧
      Shares view (links ++ freshLinks left.size right.size count)
        (left.graftAll (ids.map source.subtree)).1 (right.graftAll (ids.map source.subtree)).1 ∧
      List.Forall₂ (Linked (links ++ freshLinks left.size right.size count))
        (left.graftAll (ids.map source.subtree)).2 (right.graftAll (ids.map source.subtree)).2 := by
  induction ids generalizing links left right with
  | nil => exact ⟨0, rfl, rfl, by simpa [freshLinks, graftAll] using shares, .nil⟩
  | cons id more ih =>
    let nodes := (source.subtree id).nodes
    have leftSupplies := leftWell.graft_supplies sourceWell id
    have rightSupplies := rightWell.graft_supplies sourceWell id
    have first : Shares view (links ++ freshLinks left.size right.size nodes.length)
        (left.graft (source.subtree id)).1 (right.graft (source.subtree id)).1 :=
      (shares.pushAll leftWell rightWell (subtree_same view source id)).alike
        (left.graft_behind _) (right.graft_behind _)
    have leftSize : (left.graft (source.subtree id)).1.size = left.size + nodes.length := by
      rw [(left.graft_behind _).index.size, pushAll_size, length_map]
    have rightSize : (right.graft (source.subtree id)).1.size = right.size + nodes.length := by
      rw [(right.graft_behind _).index.size, pushAll_size, length_map]
    obtain ⟨count, leftDone, rightDone, done, pairs⟩ := ih first leftSupplies.well_formed
      rightSupplies.well_formed
    rw [leftSize, rightSize, append_assoc, ← fresh_add] at done pairs
    rw [leftSize] at leftDone
    rw [rightSize] at rightDone
    refine ⟨nodes.length + count, ?_, ?_, done, .cons ?_ pairs⟩
    · rw [← Nat.add_assoc]
      exact leftDone
    · rw [← Nat.add_assoc]
      exact rightDone
    · have positive : 0 < nodes.length + count := by
        have some := length_pos_of_mem (@WellFormed.self_preorder _ sourceWell id)
        simp only [nodes, subtree, length_map]
        omega
      have linked := @linked_fresh links left.size right.size _ _ positive
      rw [Nat.zero_add, Nat.zero_add] at linked
      exact linked

lemma create (kind) (same : view rightPosition = view leftPosition) :
    Shares view (links ++ freshLinks left.size right.size 1) (left.create kind leftPosition).1
      (right.create kind rightPosition).1 := by
  have node : SameNode view 1 (Node.single kind leftPosition) (Node.single kind rightPosition) :=
    ⟨rfl, same, rfl, rfl, rfl, by simp [Node.single], by simp [Node.single, Node.owned]⟩
  have nodes : List.Forall₂ (SameNode view [Node.single kind leftPosition].length)
      [Node.single kind leftPosition] [Node.single kind rightPosition] := .cons node .nil
  exact shares.pushAll leftWell rightWell nodes

lemma ancestors (linked : Linked links one other) :
    List.Forall₂ (Linked links) (left.ancestors one) (right.ancestors other) := by
  induction one using leftWell.parent_induction generalizing other with
  | step one ih =>
    have parents := (shares.node linked).parent
    generalize leftParent : left.parent one = owner at parents
    generalize rightParent : right.parent other = above at parents
    cases parents with
    | none =>
      rw [ancestors_none leftParent, ancestors_none rightParent]
      exact .nil
    | some owners =>
      rw [leftWell.ancestors_some leftParent, rightWell.ancestors_some rightParent]
      exact .cons owners (ih _ leftParent owners)

lemma attached (linked : Linked links one other) : right.isAttached other = left.isAttached one := by
  have lineages := List.Forall₂.cons linked (shares.ancestors leftWell rightWell linked)
  rw [Bool.eq_iff_iff, isAttached, isAttached, contains_iff_mem, contains_iff_mem]
  exact (shares.ascends.mem_iff lineages shares.rooted).symm

end Shares

/-- Nodes of a template outside of what is kept: they make up top-level parts that import nothing,
declare nothing, and have no named block but inside of other blocks. -/
structure Discards (kept : List Nat) (doc : Document) : Prop where
  parent : ∀ id, id < doc.size → id ∉ kept → ∃ owner, doc.parent id = some owner ∧ (owner = root ∨ owner ∉ kept)
  kind : ∀ id, id < doc.size → id ∉ kept → (doc.kind id).isImport = false
  undeclared : ∀ id, id ∉ kept → doc.parent id = some root →
    (doc.kind id).isDeclaration = false ∧ (doc.kind id).isMixin = false
  covered : ∀ id, id < doc.size → id ∉ kept → (doc.kind id).isNamedBlock →
    ∃ above ∈ doc.ancestors id, (doc.kind above).isBlock

lemma Discards.filter_children (discards : Discards kept doc) (wf : doc.WellFormed)
    (isKept : owner ∈ kept) (notRoot : owner ≠ root) :
    (doc.children owner).filter (· ∈ kept) = doc.children owner := by
  refine filter_eq_self.2 fun child isChild => ?_
  rw [decide_eq_true_eq]
  by_contra outside
  obtain ⟨above, parent, high⟩ := discards.parent child (wf.child_inside isChild) outside
  cases parent.symm.trans (wf.child_parent isChild)
  rcases high with isRoot | unkept
  · exact notRoot isRoot
  · exact unkept isKept

lemma Discards.ancestors {made : Document} (discards : Discards kept doc)
    (wf : doc.WellFormed) (madeWell : made.WellFormed)
    (parent : ∀ {id : Nat}, id < doc.size → id ∉ kept → made.parent id = doc.parent id)
    (inside : id < doc.size) (outside : id ∉ kept) : made.ancestors id = doc.ancestors id := by
  induction id using wf.parent_induction with
  | step id ih =>
    obtain ⟨above, isParent, high⟩ := discards.parent id inside outside
    have newParent := (parent inside outside).trans isParent
    rw [wf.ancestors_some isParent, madeWell.ancestors_some newParent]
    rcases high with isRoot | unkept
    · rw [isRoot, ancestors_none wf.root_parent, ancestors_none madeWell.root_parent]
    · rw [ih above isParent (Nat.lt_trans (wf.ordered isParent) inside) unkept]

lemma Discards.replace (discards : Discards kept doc) (wf : doc.WellFormed)
    (supplies : Supplies doc made ids trees) (parent : doc.parent id = some owner)
    (kind : (doc.kind id).isAttribute = false)
    (kinds : ∀ tree ∈ trees, tree.kind.isAttribute = false) (isKept : id ∈ kept)
    (new : ∀ other, other ∈ more ↔ doc.size ≤ other ∧ other < made.size) :
    Discards (kept ++ more) (made.replace id ids) := by
  have sheds := supplies.sheds wf parent kind kinds
  have size := (supplies.replace_relinks parent kind).size
  have old : ∀ {other : Nat}, other < (made.replace id ids).size → other ∉ kept ++ more →
      other < doc.size ∧ other ∉ kept := by
    intro other inside outside
    refine ⟨?_, fun mem => outside (mem_append_left _ mem)⟩
    by_contra beyond
    apply outside
    exact mem_append_right _ ((new other).2 ⟨Nat.le_of_not_lt beyond, size ▸ inside⟩)
  have sameParent : ∀ {other : Nat}, other < doc.size → other ∉ kept →
      (made.replace id ids).parent other = doc.parent other := by
    intro other inside outside
    have different : other ≠ id := (ne_of_mem_of_not_mem isKept outside).symm
    rw [supplies.replace_parent wf parent kind inside, if_neg different]
  constructor
  · intro other inside outside
    obtain ⟨oldInside, unkept⟩ := old inside outside
    obtain ⟨above, isParent, high⟩ := discards.parent other oldInside unkept
    refine ⟨above, (sameParent oldInside unkept).trans isParent, high.imp_right ?_⟩
    intro unkeptAbove mem
    have before := wf.ordered isParent
    have late := ((new above).1 ((mem_append.1 mem).resolve_left unkeptAbove)).1
    omega
  · intro other inside outside
    obtain ⟨oldInside, unkept⟩ := old inside outside
    rw [sheds.kind other oldInside]
    exact discards.kind other oldInside unkept
  · intro other outside isTop
    obtain ⟨oldInside, unkept⟩ := old (parent_inside isTop) outside
    rw [sheds.kind other oldInside]
    exact discards.undeclared other unkept ((sameParent oldInside unkept).symm.trans isTop)
  · intro other inside outside isNamed
    obtain ⟨oldInside, unkept⟩ := old inside outside
    rw [sheds.kind other oldInside] at isNamed
    obtain ⟨block, isAbove, isBlock⟩ := discards.covered other oldInside unkept isNamed
    refine ⟨block, ?_, ?_⟩
    · rw [discards.ancestors wf sheds.well_formed sameParent oldInside unkept]
      exact isAbove
    · rw [sheds.kind block (Nat.lt_trans (wf.ancestors_before isAbove) oldInside)]
      exact isBlock

/-- Two documents that differ in nothing but what is discarded. -/
structure Alongside (view : Position → Position) (links : List (Nat × Nat)) (left right : Document) :
    Prop where
  leftWell : left.WellFormed
  rightWell : right.WellFormed
  shares : Shares view links left right
  leftRest : Discards (lefts links) left
  rightRest : Discards (rights links) right

namespace Alongside

variable {view : Position → Position} {links : List (Nat × Nat)} {left right : Document}

lemma replace (alongside : Alongside view links left right) {count}
    (linked : Linked links one other) (parent : left.parent one = some leftOwner)
    (kind : (left.kind one).isAttribute = false)
    (leftSupplies : Supplies left newLeft leftIds leftTrees)
    (rightSupplies : Supplies right newRight rightIds rightTrees)
    (leftKinds : ∀ tree ∈ leftTrees, tree.kind.isAttribute = false)
    (rightKinds : ∀ tree ∈ rightTrees, tree.kind.isAttribute = false)
    (leftSize : newLeft.size = left.size + count) (rightSize : newRight.size = right.size + count)
    (shares : Shares view (links ++ freshLinks left.size right.size count) newLeft newRight)
    (pairs : List.Forall₂ (Linked (links ++ freshLinks left.size right.size count)) leftIds rightIds) :
    Alongside view (links ++ freshLinks left.size right.size count) (newLeft.replace one leftIds)
      (newRight.replace other rightIds) := by
  have node := alongside.shares.node linked
  have parents := node.parent
  rw [parent] at parents
  generalize rightParent : right.parent other = rightOwner at parents
  cases parents with
  | some owners =>
    have rightKind : (right.kind other).isAttribute = false := by
      rw [node.kind]
      exact kind
    refine ⟨leftSupplies.replace_well_formed alongside.leftWell parent kind leftKinds,
      rightSupplies.replace_well_formed alongside.rightWell rightParent rightKind rightKinds,
      shares.relinks (linked.more _) (owners.more _) pairs (leftSupplies.replace_relinks parent kind)
        (rightSupplies.replace_relinks rightParent rightKind), ?_, ?_⟩
    · rw [lefts_append, lefts_fresh]
      refine alongside.leftRest.replace alongside.leftWell leftSupplies parent kind leftKinds
        linked.left fun new => ?_
      rw [mem_range'_1, leftSize]
    · rw [rights_append, rights_fresh]
      refine alongside.rightRest.replace alongside.rightWell rightSupplies rightParent rightKind
        rightKinds linked.right fun new => ?_
      rw [mem_range'_1, rightSize]

variable (alongside : Alongside view links left right)

include alongside

lemma children (linked : Linked links one other) (notRoot : one ≠ root) :
    List.Forall₂ (Linked links) (left.children one) (right.children other) := by
  have rightNotRoot : other ≠ root := fun isRoot =>
    notRoot ((alongside.shares.ascends.same_iff linked alongside.shares.rooted).2 isRoot)
  have pairs := (alongside.shares.node linked).children
  rw [alongside.leftRest.filter_children alongside.leftWell linked.left notRoot,
    alongside.rightRest.filter_children alongside.rightWell linked.right rightNotRoot] at pairs
  exact pairs

lemma treeAt (linked : Linked links one other) (notRoot : one ≠ root) :
    (right.treeAt other).reposition view = (left.treeAt one).reposition view := by
  induction one using alongside.leftWell.owned_induction generalizing other with
  | step one ih =>
    have node := alongside.shares.node linked
    have trees : ∀ {ids places : List Nat}, List.Forall₂ (Linked links) ids places →
        (∀ id ∈ ids, id ∈ (left.node one).owned) →
        places.map (fun place => (right.treeAt place).reposition view) =
          ids.map fun id => (left.treeAt id).reposition view := by
      intro ids places pairs owned
      induction pairs with
      | nil => rfl
      | @cons id place more morePlaces here rest inner =>
        have isOwned := owned id mem_cons_self
        have later := alongside.leftWell.ordered (alongside.leftWell.owned_iff.1 isOwned)
        rw [map_cons, map_cons, ih id isOwned here (Nat.ne_of_gt (Nat.zero_lt_of_lt later)),
          inner (forall_mem_cons.1 owned).2]
    rw [alongside.leftWell.reposition_treeAt, alongside.rightWell.reposition_treeAt, node.kind,
      node.position notRoot, trees (node.attributes notRoot) fun id mem => mem_append_left _ mem,
      trees (alongside.children linked notRoot) fun id mem => mem_append_right _ mem]

end Alongside

end Document

namespace Compiler

open Document

variable {compiler : Compiler} {disk : Disk} {view : Position → Position}

lemma locate_agrees (origin name left right) :
    Agrees Eq (compiler.locate disk origin name left) (compiler.locate disk origin name right) := by
  simp only [locate]
  split
  · exact .some rfl
  · exact .none

lemma filterFile_agrees (file name left right) :
    Agrees Eq (compiler.filterFile disk file name left) (compiler.filterFile disk file name right) := by
  have read : Agrees Eq (readFile disk file) (readFile disk file) := by
    cases readFile disk file with
    | error failure => exact .none
    | ok content => exact .some rfl
  refine read.bind ?_
  rintro content _ - rfl
  cases compiler.filters.get? name with
  | none => exact .none
  | some filter => exact .some rfl

lemma includeFile_other {load}
    (other : doc.isAttached id = false ∨ (doc.kind id).isInclude = false) :
    compiler.includeFile disk load origin doc id = .ok doc := by
  unfold includeFile
  split
  · rename_i name filter attached named
    rw [attached, named] at other
    rcases other with attached | noInclude
    · cases attached
    · cases noInclude
  · rfl

section Loader

variable {load : Loader} (loads : ∀ file left right, Agrees
  (fun one other => other = one ∧ one.WellFormed) (load file left) (load file right))

include loads

lemma includeFile_alongside (origin) (alongside : Alongside view links left right)
    (linked : Linked links one other) :
    Agrees (fun newLeft newRight => ∃ more, Alongside view (links ++ more) newLeft newRight)
      (compiler.includeFile disk load origin left one)
      (compiler.includeFile disk load origin right other) := by
  have node := alongside.shares.node linked
  have attached := alongside.shares.attached alongside.leftWell alongside.rightWell linked
  by_cases isLive : left.isAttached one = true ∧ (left.kind one).isInclude = true
  · obtain ⟨leftAttached, isInclude⟩ := isLive
    obtain ⟨name, filter, named⟩ := NodeKind.include_form isInclude
    have notRoot : one ≠ root := alongside.leftWell.not_root (by simp [named])
    obtain ⟨owner, parent⟩ := attached_parent leftAttached notRoot
    have noAttribute : (left.kind one).isAttribute = false := by
      rw [named]
      rfl
    unfold includeFile
    rw [attached, node.kind, leftAttached, named]
    refine (locate_agrees origin name _ _).bind ?_
    rintro file _ - rfl
    cases compiler.fileFilter? file filter with
    | some filter =>
      refine (filterFile_agrees file filter _ _).bind ?_
      rintro content _ - rfl
      have text : ∀ pos : Position, ∀ tree ∈
          [Tree.node (.text content true) pos [] []], tree.kind.isAttribute = false := by
        intro pos tree mem
        rw [mem_singleton.1 mem]
        rfl
      refine .some ⟨_, alongside.replace linked parent noAttribute
        (alongside.leftWell.create_supplies (.text content true) (left.position one))
        (alongside.rightWell.create_supplies (.text content true) (right.position other))
        (text _) (text _) (size_push _ _) (size_push _ _)
        (alongside.shares.create alongside.leftWell alongside.rightWell _ (node.position notRoot)) ?_⟩
      have new := @linked_fresh links left.size right.size 1 0 Nat.one_pos
      rw [Nat.zero_add, Nat.zero_add] at new
      exact .cons new .nil
    | none =>
      refine (loads file _ _).bind ?_
      rintro _ included - ⟨rfl, wf⟩
      obtain ⟨count, leftSize, rightSize, shares, pairs⟩ := alongside.shares.graftAll
        alongside.leftWell alongside.rightWell wf (included.children root)
      exact .some ⟨_, alongside.replace linked parent noAttribute
        (alongside.leftWell.graftChildren_supplies wf root)
        (alongside.rightWell.graftChildren_supplies wf root)
        (wf.child_trees_kinds root) (wf.child_trees_kinds root) leftSize rightSize
        shares pairs⟩
  · have idle : left.isAttached one = false ∨ (left.kind one).isInclude = false := by
      simpa [Decidable.or_iff_not_imp_left] using isLive
    rw [includeFile_other idle, includeFile_other (by rw [attached, node.kind]; exact idle)]
    refine .some ⟨[], ?_⟩
    rw [append_nil]
    exact alongside

lemma includeAll_alongside (origin) (alongside : Alongside view links left right)
    (imports : List.Forall₂ (Linked links) ids places) :
    Agrees (fun newLeft newRight => ∃ links, Alongside view links newLeft newRight)
      (ids.foldlM (compiler.includeFile disk load origin) left)
      (places.foldlM (compiler.includeFile disk load origin) right) := by
  induction ids generalizing places links left right with
  | nil =>
    cases imports
    exact .some ⟨links, alongside⟩
  | cons id rest ih =>
    cases imports with
    | cons first later =>
      refine (includeFile_alongside loads origin alongside first).bind ?_
      rintro newLeft newRight - ⟨more, further⟩
      exact ih further (later.imp fun _ _ linked => linked.more more)

end Loader

end Compiler

end PugTemplate
