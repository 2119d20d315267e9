import PugTemplate.Proofs.Passes
import PugTemplate.Proofs.ReadingOrder

/-!
# Coherent documents

The fields of a document say the same thing more than once: what a node owns and whose it is, how
deep it stands, whether it is part of the tree, which nodes there are of a kind. These agree in
every document that a template goes through on its way to code.
-/

namespace PugTemplate

namespace Document

/-- A node that is reached from the root through attributes and children. -/
inductive Reachable (doc : Document) : Nat → Prop
  | root : Reachable doc root
  | owned {owner id} (above : Reachable doc owner)
      (isOwned : id ∈ (doc.node owner).owned) : Reachable doc id

structure Coherent (doc : Document) : Prop where
  owner : ∀ id, doc.Reachable id → id ≠ root → ∃ owner,
    (∀ other, (doc.node other).owned.count id = if other = owner then 1 else 0) ∧
    doc.parent id = some owner ∧ doc.level id = doc.level owner + 1 ∧ owner < id
  attached : ∀ id, doc.isAttached id ↔ doc.Reachable id
  blocks : doc.blocks = (List.range doc.size).filter fun id => (doc.kind id).isBlock
  imports : doc.imports = (List.range doc.size).filter fun id => (doc.kind id).isImport
  mixins : doc.mixins = (List.range doc.size).filter fun id => (doc.kind id).isMixin
  calls : doc.calls = (List.range doc.size).filter fun id => (doc.kind id).isCall

namespace WellFormed

variable {doc : Document} (wf : doc.WellFormed)

include wf

lemma attached_iff_reachable (id) : doc.isAttached id ↔ doc.Reachable id := by
  constructor
  · intro attached
    rw [isAttached, List.contains_iff_mem] at attached
    exact wf.lineage_down doc.Reachable (fun parent above => .owned above (wf.owned_iff.2 parent)) attached .root
  · intro reachable
    induction reachable with
    | root => exact doc.root_attached
    | owned above isOwned ih =>
      exact (wf.attached_iff (wf.owned_iff.1 isOwned)).2 ih

lemma owned_count {id} (parent : doc.parent id = some owner) (other) :
    (doc.node other).owned.count id = if other = owner then 1 else 0 := by
  by_cases same : other = owner
  · rw [if_pos same, same]
    exact List.count_eq_one_of_mem (wf.distinct owner) (wf.owned_iff.2 parent)
  · rw [if_neg same, List.count_eq_zero]
    intro isOwned
    have otherParent := wf.owned_iff.1 isOwned
    rw [parent] at otherParent
    exact same (Option.some.inj otherParent).symm

lemma coherent (levelled : doc.Levelled) : doc.Coherent where
  owner := by
    intro id reachable notRoot
    obtain ⟨owner, parent⟩ := attached_parent ((wf.attached_iff_reachable id).2 reachable) notRoot
    exact ⟨owner, wf.owned_count parent, parent, levelled owner id (wf.owned_iff.2 parent), wf.ordered parent⟩
  attached := wf.attached_iff_reachable
  blocks := wf.indexed.blocks
  imports := wf.indexed.imports
  mixins := wf.indexed.mixins
  calls := wf.indexed.calls

end WellFormed

lemma levelled_lasting : Lasting Levelled where
  create := fun wf levelled kind pos =>
    create_levelled wf levelled kind pos
  graft := fun wf levelled sourceWf _ _ =>
    graft_levelled wf sourceWf levelled
  refill := fun wf levelled _ _ inside _ newInside mayOwn =>
    setChildren_levelled wf levelled inside newInside mayOwn
  insert := fun wf levelled index _ distinct orphan inside positive =>
    insertChildren_levelled wf levelled inside orphan distinct positive index wf.root_inside
  replace := fun wf levelled _ _ _ parent placeholder inside orphan distinct later =>
    replace_levelled wf levelled inside orphan distinct later parent
      (NodeKind.placeholder_no_attribute placeholder)

end Document

namespace Compiler

open Document

/-- The documents that a compiler makes of templates. -/
inductive Produces (compiler : Compiler) (disk : Disk) : Document → Prop
  | parsed {source doc} (result : parse source = .ok doc) : Produces compiler disk doc
  | loaded {source origin doc}
      (result : compiler.load disk source origin = .ok doc) : Produces compiler disk doc
  | loadedFile {path doc}
      (result : compiler.loadFile disk path = .ok doc) : Produces compiler disk doc
  | expanded {doc expanded limit quote}
      (produced : Produces compiler disk doc)
      (result : doc.expandMixins limit quote = .ok expanded) : Produces compiler disk expanded

variable {compiler : Compiler} {disk : Disk}

variable {doc : Document}

lemma load_levelled
    (ok : compiler.loadWithin disk fuel source origin = .ok doc) : doc.WellFormed ∧ doc.Levelled :=
  ⟨loadWithin_well_formed ok,
    loadWithin_lasting levelled_lasting (fun _ _ parsed => (parse_inOrder parsed).levelled) ok⟩

lemma Produces.levelled (produced : Produces compiler disk doc) : doc.WellFormed ∧ doc.Levelled := by
  induction produced with
  | parsed ok => exact ⟨parse_well_formed ok, (parse_inOrder ok).levelled⟩
  | loaded ok => exact load_levelled ok
  | loadedFile ok =>
    obtain ⟨content, read, loaded⟩ := ok_of_bind ok
    exact load_levelled (ok_of_mapError loaded)
  | expanded produced ok ih =>
    exact levelled_lasting.expandMixins ih.1 ih.2 ok

/-- The documents that code is generated from, with the templates they are made from. -/
inductive Finishes (compiler : Compiler) (disk : Disk) : String → Document → Prop
  | source {source doc}
      (result : compiler.document disk source = .ok doc) : Finishes compiler disk source doc
  | file {path content doc}
      (read : readFile disk path = .ok content)
      (result : compiler.documentFile disk path = .ok doc) :
      Finishes compiler disk content doc

lemma Finishes.loaded {source} (finishes : Finishes compiler disk source doc) :
    ∃ origin loaded, compiler.load disk source origin = .ok loaded ∧ compiler.expand loaded = .ok doc := by
  cases finishes with
  | source ok =>
    obtain ⟨loaded, loading, expansion⟩ := ok_of_bind ok
    exact ⟨none, loaded, loading, expansion⟩
  | @file path _ _ read ok =>
    obtain ⟨loaded, loading, expansion⟩ := ok_of_bind ok
    obtain ⟨content, readAgain, loading⟩ := ok_of_bind loading
    rw [read] at readAgain
    cases readAgain
    exact ⟨some path, loaded, ok_of_mapError loading, ok_of_mapError expansion⟩

lemma Finishes.produced {source} (finishes : Finishes compiler disk source doc) : Produces compiler disk doc := by
  obtain ⟨origin, loaded, loading, expansion⟩ := finishes.loaded
  exact .expanded (.loaded loading) (ok_of_mapError expansion)

/-- Documents are coherent when they are parsed, loaded and expanded. The store of a parsed
document lists the nodes of its tree in preorder, and no others. -/
theorem documents_are_coherent (compiler : Compiler) (disk : Disk) :
    (∀ document, Produces compiler disk document → document.Coherent) ∧
    ∀ source document, parse source = .ok document →
      (∀ id, id < document.size → document.Reachable id) ∧
        document.preorder root = List.range document.size := by
  constructor
  · intro document produced
    obtain ⟨wellFormed, levelled⟩ := produced.levelled
    exact wellFormed.coherent levelled
  · intro source document parsed
    have wellFormed := parse_well_formed parsed
    have inOrder := parse_inOrder parsed
    refine ⟨?_, wellFormed.preorder_eq_range inOrder⟩
    intro id inside
    rw [← wellFormed.attached_iff_reachable, isAttached, List.contains_iff_mem]
    exact wellFormed.root_above inOrder inside

/-- A layout that includes a file and calls a mixin, and a template that extends it. -/
def siteDisk : Disk :=
  ⟨[], [(["base.pug"], .text "mixin card(title)\n  h2= $title\n  block\ninclude head\nblock body\n  p old\n"),
    (["head.pug"], .text "title(lang='en'): b Site\n")]⟩

def siteSource : String :=
  "extends base\n$x = 1\nblock append body\n  +card('a')\n    p one\n    +card('b'): i two\n"

theorem site_is_coherent :
    (∃ document, pageCompiler.document siteDisk siteSource = .ok document ∧ document.Coherent) ∧
    ∃ document, parse siteSource = .ok document ∧ document.Coherent ∧
      (∀ id, id < document.size → document.Reachable id) ∧
        document.preorder root = List.range document.size := by
  have coherent := documents_are_coherent pageCompiler siteDisk
  have compiles : (pageCompiler.document siteDisk siteSource).isOk = true := by
    decide +kernel
  have parses : (parse siteSource).isOk = true := by
    decide +kernel
  constructor
  · cases made : pageCompiler.document siteDisk siteSource with
    | error failure =>
      rw [made] at compiles
      cases compiles
    | ok document =>
      obtain ⟨loaded, loading, expansion⟩ := ok_of_bind made
      exact ⟨document, rfl,
        coherent.1 document (.expanded (.loaded loading) (ok_of_mapError expansion))⟩
  · cases parsed : parse siteSource with
    | error diagnostic =>
      rw [parsed] at parses
      cases parses
    | ok document =>
      exact ⟨document, rfl, coherent.1 document (.parsed parsed), coherent.2 siteSource document parsed⟩

end Compiler

end PugTemplate
