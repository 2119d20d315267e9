import PugTemplate.Proofs.Coherence
import PugTemplate.Proofs.Kinds

/-!
# Imports of a load

An included file takes the place of its import, so no such import is left in the tree. A template that
extends a layout hands over some parts only, and its import is dropped with the rest, unless it stands
inside of them. By induction on the depth of loads a whole load leaves no import.
-/

namespace PugTemplate

open List NodeKind

namespace NodeKind

def isInclude : NodeKind → Bool
  | statement (.importing .including _ _) => true
  | _ => false

def isExtends : NodeKind → Bool
  | statement (.importing .extending _ _) => true
  | _ => false

variable {kind : NodeKind}

lemma import_kinds (isImport : kind.isImport) : kind.isInclude ∨ kind.isExtends := by
  unfold NodeKind.isImport at isImport
  split at isImport
  · rename_i importKind path filter
    cases importKind with
    | including => exact .inl rfl
    | extending => exact .inr rfl
  · cases isImport

lemma include_form (isInclude : kind.isInclude) :
    ∃ path filter, kind = .statement (.importing .including path filter) := by
  unfold NodeKind.isInclude at isInclude
  split at isInclude
  · exact ⟨_, _, rfl⟩
  · cases isInclude

lemma import_no_attribute (isImport : kind.isImport) : kind.isAttribute = false := by
  unfold NodeKind.isImport at isImport
  split at isImport
  · rfl
  · cases isImport

lemma import_no_declaration (isImport : kind.isImport) : kind.isDeclaration = false ∧ kind.isMixin = false := by
  unfold NodeKind.isImport at isImport
  split at isImport
  · exact ⟨rfl, rfl⟩
  · cases isImport

lemma extends_form (isExtends : kind.isExtends) :
    ∃ path filter, kind = .statement (.importing .extending path filter) := by
  unfold NodeKind.isExtends at isExtends
  split at isExtends
  · exact ⟨_, _, rfl⟩
  · cases isExtends

end NodeKind

variable {id : Nat} {doc after : Document}

namespace Document

/-- Whether a template that extends a layout hands a node over to it, with all below: a block that
it contributes, or code or a mixin at top level. -/
def handsOver (doc : Document) (id : NodeId) : Bool :=
  (doc.contribution? id).isSome ||
    doc.parent id == some root &&
      ((doc.kind id).isDeclaration || (doc.kind id).isMixin)

/-- Whether no `extends` stands inside of what is handed over to the layout. -/
def extendsApart (doc : Document) : Bool :=
  doc.imports.all fun id =>
    !(doc.kind id).isExtends || (doc.ancestors id).all fun above => !doc.handsOver above

lemma contribution_attached {child : Document} {part}
    (contributes : child.contribution? id = some part) : child.isAttached id := by
  unfold contribution? at contributes
  split at contributes
  · split at contributes
    · rename_i outermost
      exact (Bool.and_eq_true_iff.1 outermost).1
    · cases contributes
  · cases contributes

namespace WellFormed

variable (wf : doc.WellFormed)

include wf

omit wf in
lemma import_inside (isImport : (doc.kind id).isImport) : id < doc.size := inside_of_kind isImport rfl

lemma mem_imports (isImport : (doc.kind id).isImport) : id ∈ doc.imports := by
  rw [wf.indexed.imports]
  exact mem_listed.2 ⟨import_inside isImport, isImport⟩

variable {above : Nat}

lemma extends_apart (apart : doc.extendsApart)
    (isExtends : (doc.kind id).isExtends) (higher : above ∈ doc.ancestors id) :
    doc.handsOver above = false := by
  have isImport : (doc.kind id).isImport := by
    obtain ⟨path, filter, form⟩ := extends_form isExtends
    rw [form]
    rfl
  have each := all_eq_true.1 apart id (wf.mem_imports isImport)
  rw [isExtends, Bool.not_true, Bool.false_or, all_eq_true] at each
  exact Bool.not_eq_true' _ ▸ each above higher

lemma treeAt_lacks_iff : (doc.treeAt id).Lacks banned ↔
    ∀ below ∈ doc.descendants id, banned (doc.kind below) = false := by
  unfold Tree.Lacks Tree.Everywhere
  rw [← wf.descendants_treeAt]
  simp only [mem_map, forall_exists_index, and_imp, forall_apply_eq_imp_iff₂, kind_treeAt]

lemma attached_lacks (lacks : doc.tree.Lacks banned)
    (imports : ∀ kind, banned kind → kind.isImport)
    (attached : doc.isAttached id) : banned (doc.kind id) = false := by
  rw [Bool.eq_false_iff]
  intro isBanned
  have noAttribute := import_no_attribute (imports _ isBanned)
  rw [isAttached, contains_iff_mem] at attached
  have below := (wf.mem_descendants_iff noAttribute).2 attached
  rw [wf.treeAt_lacks_iff.1 lacks id below] at isBanned
  cases isBanned

lemma attached_above (attached : doc.isAttached above)
    (higher : above ∈ doc.lineage below) : doc.isAttached below := by
  rw [isAttached, contains_iff_mem] at attached ⊢
  exact wf.lineage_trans attached higher

lemma ancestor_attached (attached : doc.isAttached below)
    (higher : above ∈ doc.ancestors below) : doc.isAttached above :=
  wf.lineage_up (doc.isAttached · = true) (fun parent => (wf.attached_iff parent).1) (mem_cons_of_mem _ higher) attached

lemma attached_descendant (attached : doc.isAttached id)
    (mem : below ∈ doc.descendants id) : doc.isAttached below :=
  wf.attached_above attached (wf.descendants_lineage mem)

end WellFormed

lemma Sheds.handsOver_eq (sheds : Sheds before after) (wf : before.WellFormed) (inside : id < before.size)
    (attached : after.isAttached id) : after.handsOver id = before.handsOver id := by
  obtain ⟨wasAttached, ancestors⟩ := sheds.attached wf inside attached
  have blocks : ((after.ancestors id).any fun above => (after.kind above).isBlock) =
      (before.ancestors id).any fun above => (before.kind above).isBlock := by
    rw [ancestors, Bool.eq_iff_iff, any_eq_true, any_eq_true]
    refine exists_congr fun above => and_congr_right fun mem => ?_
    rw [sheds.kind above (Nat.lt_trans (wf.ancestors_before mem) inside)]
  unfold handsOver contribution?
  rw [attached, wasAttached, blocks, sheds.kind id inside, sheds.parent_attached wf inside attached]

lemma graftAll_kinds {source : Document} (sourceWf : source.WellFormed) (ids : List Nat)
    (wf : doc.WellFormed) {new} (beyond : doc.size ≤ new)
    (newInside : new < (doc.graftAll (ids.map source.subtree)).1.size) :
    ∃ id ∈ ids, ∃ old ∈ source.preorder id,
      (doc.graftAll (ids.map source.subtree)).1.kind new = source.kind old := by
  induction ids generalizing doc with
  | nil => exact absurd newInside (Nat.not_lt.2 beyond)
  | cons id more ih =>
    have supplies := wf.graft_supplies sourceWf id
    have rest := supplies.well_formed.graftAll_supplies sourceWf more
    by_cases early : new < (doc.graft (source.subtree id)).1.size
    · obtain ⟨old, mem, place⟩ := graft_new beyond early sourceWf.preorder_distinct
      refine ⟨id, by simp, old, mem, ?_⟩
      refine (rest.grows.content early).kind.trans ?_
      rw [place]
      exact sourceWf.graft_kind_new mem
    · obtain ⟨other, otherMember, old, mem, same⟩ := ih supplies.well_formed (Nat.le_of_not_lt early) newInside
      exact ⟨other, by simp [otherMember], old, mem, same⟩

end Document

namespace Compiler

open Document

variable {compiler : Compiler} {disk : Disk} {banned : NodeKind → Bool}

/-- A template on the way to its assembled document: the imports in `done` are settled, and nothing
that was added is of the banned kinds. -/
structure Cleared (banned : NodeKind → Bool) (parsed doc : Document) (done : List Nat) : Prop
    extends Sheds parsed doc where
  fresh : ∀ id, parsed.size ≤ id → id < doc.size → banned (doc.kind id) = false
  gone : ∀ id ∈ done, (parsed.kind id).isInclude → doc.isAttached id = false

variable {parsed : Document} {origin : Option Path}

lemma Cleared.left (wf : parsed.WellFormed) (cleared : Cleared banned parsed doc parsed.imports)
    (imports : ∀ kind, banned kind → kind.isImport)
    (attached : doc.isAttached id) (isBanned : banned (doc.kind id)) :
    id < parsed.size ∧ (parsed.kind id).isExtends := by
  have old : id < parsed.size := by
    by_contra beyond
    rw [cleared.fresh id (Nat.le_of_not_lt beyond)
      (WellFormed.import_inside (imports _ isBanned))] at isBanned
    cases isBanned
  refine ⟨old, ?_⟩
  rw [cleared.kind id old] at isBanned
  have isImport := imports _ isBanned
  rcases import_kinds isImport with isInclude | isExtends
  · rw [cleared.gone id (wf.mem_imports isImport) isInclude] at attached
    cases attached
  · exact isExtends

section Loader

variable {load : Loader} (loads : ∀ file pos doc,
  load file pos = .ok doc → doc.WellFormed ∧ doc.tree.Lacks banned)
  (imports : ∀ kind, banned kind → kind.isImport)

include loads imports

lemma included_lacks (wf : doc.WellFormed) {made ids}
    (includes : Includes load doc made ids) {new} (beyond : doc.size ≤ new) (inside : new < made.size) :
    banned (made.kind new) = false := by
  cases includes with
  | text content pos =>
    replace inside := Nat.lt_of_lt_of_eq inside (size_push _ _)
    have kind := @create_kind doc (.text content true) pos new
    rw [if_pos (Nat.le_antisymm (Nat.le_of_lt_succ inside) beyond)] at kind
    refine (congrArg banned kind).trans (Bool.eq_false_iff.2 fun isBanned => ?_)
    cases imports _ isBanned
  | @template file pos included loaded =>
    obtain ⟨includedWf, lacks⟩ := loads _ _ _ loaded
    obtain ⟨child, isChild, copied, mem, kind⟩ := graftAll_kinds includedWf
      (included.children root) wf beyond inside
    refine (congrArg banned kind).trans (includedWf.attached_lacks lacks imports ?_)
    refine includedWf.attached_above ?_ (includedWf.mem_preorder_iff.1 mem)
    exact (includedWf.attached_iff (includedWf.child_parent isChild)).2 included.root_attached

lemma includeFile_cleared (cleared : Cleared banned parsed doc done) (old : id < parsed.size)
    (ok : compiler.includeFile disk load origin doc id = .ok after) :
    Cleared banned parsed after (done ++ [id]) := by
  have wf := cleared.well_formed
  have inside := Nat.lt_of_lt_of_le old cleared.size_le
  rcases includeFile_cases ok with ⟨rfl, other⟩ | ⟨name, filter, made, ids, attached, kind, includes, rfl⟩
  · refine ⟨cleared.toSheds, cleared.fresh, ?_⟩
    intro candidate mem isInclude
    rcases mem_append.1 mem with earlier | same
    · exact cleared.gone candidate earlier isInclude
    · rw [mem_singleton.1 same] at isInclude ⊢
      rw [Bool.eq_false_iff]
      intro attached
      rw [← cleared.kind id old] at isInclude
      obtain ⟨name, filter, form⟩ := include_form isInclude
      exact other name filter attached form
  · have notRoot : id ≠ root := wf.not_root (by simp [kind])
    obtain ⟨owner, parent⟩ := attached_parent attached notRoot
    have noAttribute : (doc.kind id).isAttribute = false := by
      rw [kind]
      rfl
    obtain ⟨trees, supplies, kinds⟩ := includes.supplies (fun _ _ _ loaded => (loads _ _ _ loaded).1) wf
    have sheds := supplies.sheds wf parent noAttribute kinds
    have relinks := supplies.replace_relinks parent noAttribute
    refine ⟨cleared.toSheds.trans sheds, ?_, ?_⟩
    · intro new beyond newInside
      by_cases early : new < doc.size
      · rw [sheds.kind new early]
        exact cleared.fresh new beyond early
      · rw [relinks.size] at newInside
        rw [relinks.kind]
        exact included_lacks loads imports wf includes (Nat.le_of_not_lt early) newInside
    · intro other mem isInclude
      rw [Bool.eq_false_iff]
      intro otherAttached
      rcases mem_append.1 mem with earlier | same
      · have otherInside := inside_of_kind isInclude rfl
        have before := (sheds.attached wf (Nat.lt_of_lt_of_le otherInside cleared.size_le) otherAttached).1
        rw [cleared.gone other earlier isInclude] at before
        cases before
      · -- The import itself is out of the tree, whatever has been put in its place.
        rw [mem_singleton.1 same] at otherAttached
        have orphan := supplies.replace_parent wf parent noAttribute inside
        rw [if_pos rfl] at orphan
        rw [not_attached orphan notRoot] at otherAttached
        cases otherAttached

lemma includeAll_cleared (ids) (inside : ∀ id ∈ ids, id < parsed.size)
    (cleared : Cleared banned parsed doc done)
    (ok : ids.foldlM (compiler.includeFile disk load origin) doc = .ok after) :
    Cleared banned parsed after (done ++ ids) := by
  induction ids generalizing doc done with
  | nil =>
    cases ok
    rw [append_nil]
    exact cleared
  | cons id more ih =>
    obtain ⟨middle, stepped, rest⟩ := ok_of_bind ok
    have step := includeFile_cleared loads imports cleared (inside id (by simp)) stepped
    have behind := ih (fun other mem => inside other (by simp [mem])) step rest
    rw [append_assoc] at behind
    exact behind

lemma assemble_cleared (ok : compiler.assemble disk load source origin = .ok doc) :
    ∃ parsed, parse source = .ok parsed ∧ Cleared banned parsed doc parsed.imports := by
  obtain ⟨parsed, parsing, included⟩ := ok_of_bind ok
  have parsing := ok_of_mapError parsing
  have wf := parse_well_formed parsing
  have start : Cleared banned parsed parsed [] :=
    ⟨.refl wf, fun id beyond inside => absurd inside (Nat.not_lt.2 beyond), nofun⟩
  refine ⟨parsed, parsing, includeAll_cleared loads imports parsed.imports ?_ start included⟩
  intro id mem
  rw [wf.indexed.imports] at mem
  exact (mem_listed.1 mem).1

end Loader

/-- Where an `extends` of a banned kind stands in a template. -/
def Apart (banned : NodeKind → Bool) (source : String) : Prop :=
  ∀ parsed, parse source = .ok parsed → ∀ id, banned (parsed.kind id) = true →
    (parsed.kind id).isExtends = true → ∀ above ∈ parsed.ancestors id, parsed.handsOver above = false

section Child

variable {child : Document} (wf : parsed.WellFormed)
  (cleared : Cleared banned parsed child parsed.imports)
  (imports : ∀ kind, banned kind → kind.isImport)

include wf cleared imports

lemma Cleared.lacks (alone : child.importsOf .extending = []) : child.tree.Lacks banned := by
  have childWf := cleared.well_formed
  refine childWf.treeAt_lacks_iff.2 fun id mem => ?_
  have attached := childWf.attached_descendant child.root_attached mem
  rw [Bool.eq_false_iff]
  intro isBanned
  obtain ⟨old, isExtends⟩ := cleared.left wf imports attached isBanned
  obtain ⟨path, filter, form⟩ := extends_form isExtends
  rw [← cleared.kind id old] at form
  have listed : id ∈ child.importsOf .extending := by
    refine mem_filter.2 ⟨childWf.mem_imports (imports _ isBanned), ?_⟩
    rw [attached, form]
    rfl
  rw [alone] at listed
  cases listed

variable (apart : ∀ id, banned (parsed.kind id) → (parsed.kind id).isExtends →
  ∀ above ∈ parsed.ancestors id, parsed.handsOver above = false)

include apart

lemma Cleared.handed {below} (handed : child.handsOver above)
    (higher : above ∈ child.ancestors below)
    (attached : child.isAttached below) : banned (child.kind below) = false := by
  rw [Bool.eq_false_iff]
  intro isBanned
  obtain ⟨old, isExtends⟩ := cleared.left wf imports attached isBanned
  obtain ⟨-, ancestors⟩ := cleared.attached wf old attached
  rw [cleared.kind below old] at isBanned
  have aboveInside := Nat.lt_trans (cleared.well_formed.ancestors_before higher) old
  have aboveAttached := cleared.well_formed.ancestor_attached attached higher
  rw [ancestors] at higher
  have notHanded := apart below isBanned isExtends above higher
  rw [← cleared.handsOver_eq wf aboveInside aboveAttached, handed] at notHanded
  cases notHanded

lemma Cleared.declaration_lacks : ∀ tree ∈ child.tree.children,
    tree.kind.isDeclaration ∨ tree.kind.isMixin → tree.Lacks banned := by
  have childWf := cleared.well_formed
  intro tree mem declares
  rw [Document.tree, children_treeAt childWf] at mem
  obtain ⟨id, isChild, same⟩ := mem_map.1 mem
  have parent := childWf.child_parent isChild
  have attached := (childWf.attached_iff parent).2 child.root_attached
  rw [← same, kind_treeAt] at declares
  have handed : child.handsOver id := by
    simp [handsOver, parent, declares]
  rw [← same]
  refine childWf.treeAt_lacks_iff.2 fun below isBelow => ?_
  rcases mem_cons.1 (childWf.descendants_lineage isBelow) with self | higher
  · rw [← self, Bool.eq_false_iff]
    intro isBanned
    obtain ⟨noDeclaration, noMixin⟩ := import_no_declaration (imports _ isBanned)
    rw [noDeclaration, noMixin] at declares
    rcases declares with impossible | impossible <;> cases impossible
  · exact cleared.handed wf imports apart handed higher (childWf.attached_descendant attached isBelow)

lemma Cleared.contribution_lacks : ∀ part ∈ child.contributions, ∀ tree ∈ part.content, tree.Lacks banned := by
  have childWf := cleared.well_formed
  intro part mem tree inContent
  obtain ⟨block, listed, isPart⟩ := mem_filterMap.1 mem
  rw [contribution_partAt childWf listed] at isPart
  obtain ⟨⟨name, mode⟩, contributes, same⟩ := Option.map_eq_some_iff.1 isPart
  rw [← same] at inContent
  obtain ⟨id, isChild, same⟩ := mem_map.1 inContent
  have parent := childWf.child_parent isChild
  have handed : child.handsOver block := by
    simp [handsOver, contributes]
  have attached := (childWf.attached_iff parent).2 (contribution_attached contributes)
  rw [← same]
  refine childWf.treeAt_lacks_iff.2 fun below isBelow => ?_
  have lower := childWf.descendants_lineage isBelow
  have higher : block ∈ child.ancestors below := by
    refine (mem_cons.1 (childWf.lineage_parent lower parent)).resolve_left ?_
    have before := childWf.ordered parent
    have notAfter := childWf.lineage_le lower
    omega
  exact cleared.handed wf imports apart handed higher (childWf.attached_descendant attached isBelow)

end Child

section Load

variable (imports : ∀ kind, banned kind → kind.isImport)

include imports

lemma extendLayout_lacks {load} (loads : ∀ file pos doc,
      load file pos = .ok doc → doc.WellFormed ∧ doc.tree.Lacks banned)
    {child} (wf : parsed.WellFormed) (cleared : Cleared banned parsed child parsed.imports)
    (apart : ∀ id, banned (parsed.kind id) → (parsed.kind id).isExtends →
      ∀ above ∈ parsed.ancestors id, parsed.handsOver above = false)
    (ok : compiler.extendLayout disk load origin child = .ok doc) : doc.tree.Lacks banned := by
  rcases extendLayout_cases ok with ⟨alone, rfl⟩ | ⟨id, name, filter, file, layout, -, -, -, loaded, rfl⟩
  · exact cleared.lacks wf imports alone
  · obtain ⟨layoutWf, lacks⟩ := loads _ _ _ loaded
    rw [(extend_tree layoutWf cleared.well_formed).2]
    exact Tree.extend_lacks lacks (cleared.declaration_lacks wf imports apart)
      (cleared.contribution_lacks wf imports apart)

lemma loadWithin_lacks (files : ∀ file content, readFile disk file = .ok content → Apart banned content)
    (apart : Apart banned source)
    (ok : compiler.loadWithin disk fuel source origin = .ok doc) : doc.tree.Lacks banned := by
  induction fuel using Nat.strongRecOn generalizing source origin doc with
  | ind fuel ih =>
    have loads : ∀ file pos doc, compiler.loaderWithin disk fuel file pos = .ok doc →
          doc.WellFormed ∧ doc.tree.Lacks banned := by
      intro file pos loaded success
      obtain ⟨before, content, same, read, within⟩ := loaderWithin_ok.1 success
      exact ⟨loadWithin_well_formed within, ih before (by omega) (files file content read) within⟩
    rw [loadWithin_eq] at ok
    obtain ⟨assembled, assembly, extension⟩ := ok_of_bind ok
    obtain ⟨parsed, parsing, cleared⟩ := assemble_cleared loads imports assembly
    exact extendLayout_lacks imports loads (parse_well_formed parsing) cleared
      (apart parsed parsing) extension

lemma expand_lacks (wf : doc.WellFormed) (lacks : doc.tree.Lacks banned)
    (ok : compiler.expand doc = .ok expanded) : expanded.tree.Lacks banned := by
  obtain ⟨⟨renumber, -, tree⟩, -⟩ := doc.expandMixins_tree wf _ _ (ok_of_mapError ok)
  refine Tree.expandMixins_lacks ?_ ?_ tree lacks
  · intro text block
    exact Bool.eq_false_iff.2 fun isBanned => by cases imports _ isBanned
  · intro name value
    exact Bool.eq_false_iff.2 fun isBanned => by cases imports _ isBanned

end Load

end Compiler

end PugTemplate
