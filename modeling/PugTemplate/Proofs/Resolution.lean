import PugTemplate.Proofs.Blame
import PugTemplate.Proofs.Imports

/-!
# No import is left

What a compiler makes of a template has no import in its tree, so code generation does not fail
over one. Inline tags are the exception: they are parsed when the text around them is written, and
nothing is loaded for them.
-/

namespace PugTemplate

open List

namespace Tree

/-- A tree with an import in it, or in an inline tag that is rendered for it. -/
inductive HoldsImport : Tree → Prop
  | here {tree} (isImport : tree.kind.isImport) : HoldsImport tree
  | inChild {tree child} (mem : child ∈ tree.children) (holds : HoldsImport child) : HoldsImport tree
  | inTag {tree snippet doc}
      (renders : tree.RendersTag snippet) (parsed : Document.parse snippet = .ok doc)
      (holds : HoldsImport doc.tree) : HoldsImport tree

lemma HoldsImport.in_tag {tree : Tree} (holds : tree.HoldsImport)
    (lacks : tree.Lacks NodeKind.isImport) : ∃ below ∈ tree.descendants, ∃ snippet doc,
      below.RendersTag snippet ∧ Document.parse snippet = .ok doc ∧ doc.tree.HoldsImport := by
  induction holds with
  | @here tree isImport =>
    obtain ⟨kind, pos, attrs, children⟩ := tree
    have noImport := (lacks_node_iff.1 lacks).1
    rw [Tree.kind, noImport] at isImport
    cases isImport
  | @inChild tree child mem holds ih =>
    obtain ⟨below, isBelow, found⟩ := ih (lacks.children child mem)
    refine ⟨below, ?_, found⟩
    obtain ⟨kind, pos, attrs, children⟩ := tree
    rw [descendants, allDescendants_eq_flatMap]
    exact mem_cons_of_mem _ (mem_flatMap.2 ⟨child, mem, isBelow⟩)
  | @inTag tree snippet doc renders parsed holds ih =>
    refine ⟨tree, ?_, snippet, doc, renders, parsed, holds⟩
    obtain ⟨kind, pos, attrs, children⟩ := tree
    exact mem_cons_self

lemma Blamed.holdsImport {tree : Tree} {diag} (blamed : tree.Blamed diag)
    (kind : diag.kind = .importNotFound) : tree.HoldsImport := by
  induction blamed with
  | misfit isMisfit =>
    rw [kind] at isMisfit
    cases isMisfit
  | importing isImport => exact .here isImport
  | @text tree text place fault =>
    cases fault with
    | unclosed | vacant => cases kind
    | imbalance inner base => cases inner <;> cases kind
  | tag => cases kind
  | inChild mem _ ih => exact .inChild mem (ih kind)
  | inTag renders parsed _ ih => exact .inTag renders parsed (ih kind)

end Tree

lemma Document.generate_blames (doc : Document) (filters : Filters)
    (options : EmissionOptions) (diag)
    (failed : doc.generate filters options = .error diag)
    (kind : diag.kind = .importNotFound) : doc.tree.HoldsImport :=
  (doc.generate_blamed filters options diag failed).holdsImport kind

namespace Disk

def texts (disk : Disk) : List String :=
  disk.entries.filterMap fun (_, entry) =>
    match entry with
    | .text content => some content
    | _ => none

lemma walk_entry {disk : Disk} {pieces} {start location : Location}
    {entry : Entry} (ok : disk.walk start pieces = .ok (location, entry)) :
    disk.entry? location = some entry := by
  induction pieces generalizing start with
  | nil =>
    unfold walk at ok
    split at ok
    · rename_i found
      cases ok
      exact found
    · cases ok
  | cons piece more ih =>
    unfold walk at ok
    split at ok
    · split at ok
      · cases ok
      · exact ih ok
    · cases ok
    · cases ok

lemma read_texts {disk : Disk} {path} {content : String}
    (ok : disk.read path = .ok content) : content ∈ disk.texts := by
  unfold read at ok
  split at ok
  · rename_i location text located
    cases ok
    unfold locate at located
    have found : disk.entry? location = some (.text content) := by
      split at located
      · cases located
      · split at located
        · cases located
        · split at located
          · cases located
          · exact walk_entry located
    unfold entry? at found
    split at found
    · cases found
    · obtain ⟨before, after, entries, _⟩ := lookup_eq_some_iff.1 found
      refine mem_filterMap.2 ⟨(location, .text content), ?_, rfl⟩
      rw [entries]
      simp
  · cases ok
  · cases ok
  · cases ok

end Disk

namespace Compiler

open Document

/-- Whether in a template and in all files no `extends` stands inside of what is handed over to a
layout. -/
def extendsApart (disk : Disk) (source : String) : Bool :=
  (source :: disk.texts).all fun text =>
    match parse text with
    | .ok parsed => parsed.extendsApart
    | .error _ => true

variable {compiler : Compiler} {disk : Disk} {source : String} {doc : Document}

lemma readFile_texts {path content} (read : readFile disk path = .ok content) : content ∈ disk.texts := by
  unfold readFile at read
  split at read
  · rename_i found
    cases read
    exact Disk.read_texts found
  · cases read

lemma apart_of_text (apart : extendsApart disk source)
    (mem : text ∈ source :: disk.texts) : Apart NodeKind.isImport text := by
  intro parsed parsing id isImport isExtends above higher
  have each := all_eq_true.1 apart text mem
  rw [parsing] at each
  exact (parse_well_formed parsing).extends_apart each isExtends higher

lemma Finishes.lacks (finishes : Finishes compiler disk source doc)
    (imports : ∀ kind, banned kind → kind.isImport)
    (apart : ∀ text ∈ source :: disk.texts, Apart banned text) : doc.WellFormed ∧ doc.tree.Lacks banned := by
  obtain ⟨origin, loaded, loading, expansion⟩ := finishes.loaded
  have wf := loadWithin_well_formed loading
  have lacks := loadWithin_lacks imports
    (fun file content read => apart content (mem_cons_of_mem _ (readFile_texts read)))
    (apart source mem_cons_self) loading
  exact ⟨finishes.produced.levelled.1, expand_lacks imports wf lacks expansion⟩

/-- Imports are resolved. A finished document has no `include`. It has no import at all if no
`extends` stands inside of what a template hands over to its layout; and code generation then fails
over an import only for one in an inline tag. -/
theorem imports_are_resolved (compiler : Compiler) (disk : Disk) (source : String)
    (document : Document) (finishes : Finishes compiler disk source document) :
    (∀ id, document.Reachable id → (document.kind id).isInclude = false) ∧
    (extendsApart disk source = true →
      (∀ id, document.Reachable id → (document.kind id).isImport = false) ∧
      ∀ diagnostic, compiler.generate document = .error (.template diagnostic) →
        diagnostic.kind = .importNotFound →
        ∃ below ∈ document.tree.descendants, ∃ snippet inner, below.RendersTag snippet ∧
          parse snippet = .ok inner ∧ inner.tree.HoldsImport) := by
  constructor
  · have includes : ∀ kind : NodeKind, kind.isInclude = true → kind.isImport = true := by
      intro kind isInclude
      obtain ⟨path, filter, form⟩ := NodeKind.include_form isInclude
      rw [form]
      rfl
    have noExtends : ∀ text ∈ source :: disk.texts, Apart NodeKind.isInclude text := by
      intro text _ parsed _ id isInclude isExtends
      obtain ⟨path, filter, form⟩ := NodeKind.include_form isInclude
      rw [form] at isExtends
      cases isExtends
    obtain ⟨wellFormed, lacks⟩ := finishes.lacks includes noExtends
    intro id reachable
    exact wellFormed.attached_lacks lacks includes
      ((wellFormed.attached_iff_reachable id).2 reachable)
  · intro apart
    have imports : ∀ kind : NodeKind, kind.isImport = true → kind.isImport = true := fun _ => id
    obtain ⟨wellFormed, lacks⟩ := finishes.lacks imports fun text => apart_of_text apart
    refine ⟨?_, ?_⟩
    · intro id reachable
      exact wellFormed.attached_lacks lacks imports
        ((wellFormed.attached_iff_reachable id).2 reachable)
    · intro diagnostic result isImport
      obtain ⟨cause, failed, same⟩ := error_of_mapError result
      cases same
      exact (generate_blames document _ _ diagnostic failed isImport).in_tag lacks

def inlineImportSource : String :=
  "extends base\nmixin note\n  include head\nblock append body\n  +note\n  p a #[b: include head]\n"

theorem layout_imports_resolved :
    ∃ document, Finishes pageCompiler siteDisk inlineImportSource document ∧
      extendsApart siteDisk inlineImportSource = true ∧
      (∀ id, document.Reachable id → (document.kind id).isInclude = false) ∧
      (∀ id, document.Reachable id → (document.kind id).isImport = false) ∧
      ∃ diagnostic, pageCompiler.generate document = .error (.template diagnostic) ∧
        diagnostic.kind = .importNotFound ∧
        ∃ below ∈ document.tree.descendants, ∃ snippet inner, below.RendersTag snippet ∧
          parse snippet = .ok inner ∧ inner.tree.HoldsImport := by
  have accepts : (extendsApart siteDisk inlineImportSource &&
      (pageCompiler.document siteDisk inlineImportSource).toOption.any fun document =>
        match pageCompiler.generate document with
        | .error (.template diagnostic) => diagnostic.kind == .importNotFound
        | _ => false) = true := by
    decide +kernel
  obtain ⟨apart, fails⟩ := Bool.and_eq_true_iff.1 accepts
  cases made : pageCompiler.document siteDisk inlineImportSource with
  | error failure =>
    rw [made] at fails
    cases fails
  | ok document =>
    rw [made] at fails
    change (match pageCompiler.generate document with
      | .error (.template diagnostic) => diagnostic.kind == .importNotFound
      | _ => false) = true at fails
    obtain ⟨includes, imports⟩ := imports_are_resolved pageCompiler siteDisk inlineImportSource
      document (.source made)
    obtain ⟨noImport, blamed⟩ := imports apart
    cases generated : pageCompiler.generate document with
    | ok code =>
      rw [generated] at fails
      cases fails
    | error failure =>
      rw [generated] at fails
      cases failure with
      | unreadable path reason => cases fails
      | template diagnostic =>
        have kind := beq_iff_eq.1 fails
        exact ⟨document, .source made, apart, includes, noImport, diagnostic, generated, kind,
          blamed diagnostic generated kind⟩

/-- An `extends` in a block that is contributed. -/
example : extendsApart siteDisk "block body\n  extends base\n" = false := by
  decide +kernel

end Compiler

end PugTemplate
