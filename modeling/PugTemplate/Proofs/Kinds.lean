import PugTemplate.Proofs.Levels

/-!
# Kinds that a tree lacks

What a pass makes of trees consists of parts of these trees, and of lines of code. So a kind of
node that none of them has, imports for one, is not in the result either.
-/

namespace PugTemplate

open List

namespace Tree

/-- A property of a node and of all nodes below it. -/
def Everywhere (property : Tree → Prop) (tree : Tree) : Prop :=
  ∀ below ∈ tree.descendants, property below

variable {tree : Tree}

lemma everywhere_iff {prop} :
    tree.Everywhere prop ↔ prop tree ∧ ∀ child ∈ tree.children, child.Everywhere prop := by
  obtain ⟨kind, pos, attrs, children⟩ := tree
  unfold Everywhere
  rw [descendants, allDescendants_eq_flatMap]
  simp only [mem_cons, mem_flatMap]
  constructor
  · intro each
    refine ⟨each _ (.inl rfl), ?_⟩
    intro child mem below further
    exact each below (.inr ⟨child, mem, further⟩)
  · rintro ⟨here, inside⟩ below (same | ⟨child, mem, further⟩)
    · rw [same]
      exact here
    · exact inside child mem below further

mutual

lemma Everywhere.descendant {prop} : ∀ {tree : Tree},
    tree.Everywhere prop → ∀ below ∈ tree.descendants, below.Everywhere prop
  | node kind pos attrs children, everywhere, below, mem => by
    rw [descendants, mem_cons] at mem
    rcases mem with same | further
    · rw [same]
      exact everywhere
    · exact everywhere_allDescendants (everywhere_iff.1 everywhere).2 below further

lemma everywhere_allDescendants {prop} : ∀ {trees : List Tree},
    (∀ tree ∈ trees, tree.Everywhere prop) → ∀ below ∈ allDescendants trees, below.Everywhere prop
  | [], _ => nofun
  | tree :: more, everywhere => by
    obtain ⟨here, others⟩ := forall_mem_cons.1 everywhere
    rw [allDescendants]
    exact forall_mem_append.2 ⟨here.descendant, everywhere_allDescendants others⟩

end

lemma descendants_child {below} (mem : below ∈ tree.descendants)
    (isChild : child ∈ below.children) : child ∈ tree.descendants := by
  have inside : tree.Everywhere (· ∈ tree.descendants) := fun _ here => here
  have children := (everywhere_iff.1 (inside.descendant below mem)).2
  exact (everywhere_iff.1 (children child isChild)).1

def Lacks (banned : NodeKind → Bool) (tree : Tree) : Prop :=
  tree.Everywhere fun below => banned below.kind = false

variable {banned : NodeKind → Bool}

lemma lacks_node_iff {kind pos attrs children} : (node kind pos attrs children).Lacks banned ↔
      banned kind = false ∧ ∀ child ∈ children, child.Lacks banned :=
  everywhere_iff

lemma Lacks.children (lacks : tree.Lacks banned) : ∀ child ∈ tree.children, child.Lacks banned :=
  (everywhere_iff.1 lacks).2

lemma Lacks.withChildren (lacks : tree.Lacks banned) {children}
    (inside : ∀ child ∈ children, child.Lacks banned) : (tree.withChildren children).Lacks banned := by
  obtain ⟨kind, pos, attrs, old⟩ := tree
  exact lacks_node_iff.2 ⟨(lacks_node_iff.1 lacks).1, inside⟩

mutual

lemma merge_lacks {part} (content : ∀ tree ∈ part.content, tree.Lacks banned) :
    ∀ {tree : Tree}, tree.Lacks banned → (tree.merge part).Lacks banned
  | node kind pos attrs children, lacks => by
    obtain ⟨here, inside⟩ := lacks_node_iff.1 lacks
    have merged := mergeAll_lacks content inside
    rw [merge]
    refine lacks_node_iff.2 ⟨here, ?_⟩
    intro child mem
    split at mem
    · cases mode : part.mode with
      | replace =>
        rw [mode] at mem
        exact content child mem
      | append =>
        rw [mode] at mem
        exact (mem_append.1 mem).elim (merged child) (content child)
      | prepend =>
        rw [mode] at mem
        exact (mem_append.1 mem).elim (content child) (merged child)
    · exact merged child mem

lemma mergeAll_lacks (content : ∀ tree ∈ part.content, tree.Lacks banned) :
    ∀ {trees : List Tree}, (∀ tree ∈ trees, tree.Lacks banned) → ∀ tree ∈ mergeAll part trees, tree.Lacks banned
  | [], _ => nofun
  | first :: more, lacks => by
    obtain ⟨here, later⟩ := forall_mem_cons.1 lacks
    rw [mergeAll]
    exact forall_mem_cons.2 ⟨merge_lacks content here, mergeAll_lacks content later⟩

end

lemma extend_lacks {layout child : Tree} {parts} (lacks : layout.Lacks banned)
    (declarations : ∀ tree ∈ child.children, tree.kind.isDeclaration ∨ tree.kind.isMixin → tree.Lacks banned)
    (contents : ∀ part ∈ parts, ∀ tree ∈ part.content, tree.Lacks banned) :
    (layout.extend child parts).Lacks banned := by
  have adopted : (layout.adopt child).Lacks banned := by
    obtain ⟨kind, pos, attrs, children⟩ := layout
    obtain ⟨here, inside⟩ := lacks_node_iff.1 lacks
    refine lacks_node_iff.2 ⟨here, ?_⟩
    intro tree mem
    simp only [mem_append, mem_filter] at mem
    rcases mem with (⟨isChild, isDeclaration⟩ | old) | ⟨isChild, isMixin⟩
    · exact declarations tree isChild (.inl isDeclaration)
    · exact inside tree old
    · exact declarations tree isChild (.inr isMixin)
  unfold extend mergeParts
  generalize layout.adopt child = tree at adopted
  induction parts generalizing tree with
  | nil => exact adopted
  | cons part more ih =>
    exact ih (fun other mem => contents other (by simp [mem])) _
      (merge_lacks (contents part (by simp)) adopted)

mutual

lemma fill_lacks {content} (inside : ∀ tree ∈ content, tree.Lacks banned) :
    ∀ {tree : Tree}, tree.Lacks banned → (tree.fill content).Lacks banned
  | node kind pos attrs children, lacks => by
    obtain ⟨here, below⟩ := lacks_node_iff.1 lacks
    unfold fill
    split
    · exact lacks
    · split
      · exact lacks_node_iff.2 ⟨here, inside⟩
      · exact lacks_node_iff.2 ⟨here, fillAll_lacks inside below⟩

lemma fillAll_lacks (inside : ∀ tree ∈ content, tree.Lacks banned) :
    ∀ {trees : List Tree}, (∀ tree ∈ trees, tree.Lacks banned) → ∀ tree ∈ fillAll content trees, tree.Lacks banned
  | [], _ => nofun
  | first :: more, lacks => by
    obtain ⟨here, later⟩ := forall_mem_cons.1 lacks
    rw [fillAll]
    exact forall_mem_cons.2 ⟨fill_lacks inside here, fillAll_lacks inside later⟩

end

mutual

lemma withoutMixins_lacks : ∀ {tree : Tree}, tree.Lacks banned → tree.withoutMixins.Lacks banned
  | node kind pos attrs children, lacks => by
    obtain ⟨here, below⟩ := lacks_node_iff.1 lacks
    exact lacks_node_iff.2 ⟨here, dropMixins_lacks below⟩

lemma dropMixins_lacks : ∀ {trees : List Tree}, (∀ tree ∈ trees, tree.Lacks banned) →
    ∀ tree ∈ dropMixins trees, tree.Lacks banned
  | [], _ => nofun
  | first :: more, lacks => by
    obtain ⟨here, others⟩ := forall_mem_cons.1 lacks
    have later := dropMixins_lacks others
    rw [dropMixins]
    split
    · exact later
    · exact forall_mem_cons.2 ⟨withoutMixins_lacks here, later⟩

end

lemma body_lacks (lacks : defn.Lacks banned)
    (content : call.Lacks banned) : ∀ tree ∈ body defn call, tree.Lacks banned := by
  intro tree mem
  unfold body at mem
  split at mem
  · exact lacks.children tree mem
  · exact fillAll_lacks content.children lacks.children tree mem

section Expansion

variable {defs : List (String × Tree)} {quote : Char}
  (code : ∀ text block, banned (.statement (.code text block)) = false)
  (binding : ∀ name value, banned (.statement (.binding name value)) = false)
  (defined : ∀ entry ∈ defs, entry.2.Lacks banned)

include code binding

lemma opening_lacks (defn call stash quote) : ∀ tree ∈ opening defn call stash quote, tree.Lacks banned := by
  have line : ∀ kind, banned kind = false → (line call kind).Lacks banned := fun kind free =>
    lacks_node_iff.2 ⟨free, by simp⟩
  intro tree mem
  unfold opening at mem
  dsimp only at mem
  split at mem
  · cases mem
  · rcases mem_cons.1 mem with same | bound
    · rw [same]
      exact line _ (code _ _)
    · obtain ⟨pair, _, same⟩ := mem_map.1 bound
      rw [← same]
      exact line _ (binding _ _)

omit binding in
lemma closing_lacks (defn call stash quote) : ∀ tree ∈ closing defn call stash quote, tree.Lacks banned := by
  intro tree mem
  unfold closing at mem
  dsimp only at mem
  split at mem
  · cases mem
  · rw [mem_singleton.1 mem]
    exact lacks_node_iff.2 ⟨code _ _, by simp⟩

include defined

lemma Expands.lacks {fuel trees out names}
    (expands : Expands defs quote fuel trees names out)
    (lacks : ∀ tree ∈ trees, tree.Lacks banned) : ∀ tree ∈ out, tree.Lacks banned := by
  induction expands with
  | nil => exact lacks
  | mixin isMixin rest ih =>
    have later := ih fun other mem => lacks other (by simp [mem])
    intro tree mem
    rcases mem_cons.1 mem with same | behind
    · rw [same]
      exact lacks _ (by simp)
    · exact later tree behind
  | @call _ call defn name _ _ _ _ _ stash called found inside rest inner ih =>
    obtain ⟨before, after, split, _⟩ := lookup_eq_some_iff.1 found
    have isDefined : (name, defn) ∈ defs := by
      rw [← mem_reverse, split]
      simp
    have definitionLacks := defined _ isDefined
    have later := ih fun other mem => lacks other (by simp [mem])
    have replaced := inner (body_lacks definitionLacks (lacks call (by simp)))
    intro tree mem
    simp only [mem_append] at mem
    rcases mem with ((front | middle) | back) | behind
    · exact opening_lacks code binding defn call stash quote tree front
    · exact replaced tree middle
    · exact closing_lacks code defn call stash quote tree back
    · exact later tree behind
  | @other _ node _ _ _ _ _ noMixin noCall below rest inner ih =>
    have later := ih fun other mem => lacks other (by simp [mem])
    have nodeLacks := lacks node (by simp)
    intro tree mem
    rcases mem_cons.1 mem with same | behind
    · rw [same]
      exact nodeLacks.withChildren (inner nodeLacks.children)
    · exact later tree behind

omit defined in
lemma expandMixins_lacks {ok limit stash}
    (expanded : tree.expandMixins limit quote stash = some ok) (lacks : tree.Lacks banned) :
    ok.Lacks banned := by
  obtain ⟨count, inside, expands, rfl⟩ := expandMixins_eq_some_iff.1 expanded
  refine lacks.withChildren (dropMixins_lacks (expands.lacks code binding ?_ lacks.children))
  intro entry mem
  obtain ⟨below, isBelow, named⟩ := mem_filterMap.1 mem
  obtain ⟨name, _, same⟩ := Option.map_eq_some_iff.1 named
  rw [← same]
  exact Everywhere.descendant lacks below isBelow

end Expansion

end Tree

end PugTemplate
