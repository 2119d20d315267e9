import PugTemplate.Proofs.Furnishing
import PugTemplate.Proofs.Imports
import Mathlib.Logic.Relation

/-!
# The graph of imports

A template leads to the files that it includes without a filter and to the layout that it extends. Each
of them is loaded with one level less to spare, so the levels that are left bound every path through
this graph. A relation that counts levels upwards gives every load one run.
-/

namespace PugTemplate

open List NodeKind

lemma NodeKind.import_takes_nothing {owner : NodeKind} (isImport : owner.isImport)
    (child) : owner.takes child = false := by
  unfold NodeKind.isImport at isImport
  split at isImport
  · rfl
  · cases isImport

lemma NodeKind.include_import {kind : NodeKind} (isInclude : kind.isInclude) : kind.isImport := by
  obtain ⟨path, filter, rfl⟩ := include_form isInclude
  rfl

variable {after doc : Document} {id : Nat}

namespace Document

lemma Supplies.replace_attached {trees} (supplies : Supplies before after ids trees)
    (wf : before.WellFormed) (parent : before.parent id = some owner)
    (kind : (before.kind id).isAttribute = false)
    (kinds : ∀ tree ∈ trees, tree.kind.isAttribute = false)
    (attached : before.isAttached other) (apart : id ∉ before.lineage other) :
    (after.replace id ids).isAttached other := by
  have replaced := supplies.replace_well_formed wf parent kind kinds
  induction other using wf.parent_induction with
  | step other ih =>
    by_cases isRoot : other = root
    · rw [isRoot]
      exact root_attached _
    · obtain ⟨above, link⟩ := attached_parent attached isRoot
      rw [wf.mem_lineage_iff link, not_or] at apart
      have kept := supplies.replace_parent wf parent kind (parent_inside link)
      rw [if_neg (Ne.symm apart.1), link] at kept
      rw [replaced.attached_iff kept]
      exact ih above link ((wf.attached_iff link).1 attached) apart.2

lemma Furnished.import_apart (furnished : doc.Furnished) (wf : doc.WellFormed)
    (isImport : (doc.kind id).isImport) (noAttribute : (doc.kind other).isAttribute = false)
    (different : id ≠ other) : id ∉ doc.lineage other := by
  intro mem
  refine different (wf.lineage_down (fun other => (doc.kind other).isAttribute = false → id = other) ?_ mem
    (fun _ => rfl) noAttribute)
  intro below owner parent ih noAttribute
  have takes := furnished below owner parent noAttribute
  cases ih (wf.parent_no_attribute parent noAttribute)
  rw [import_takes_nothing isImport] at takes
  cases takes

end Document

namespace Compiler

open Document

variable {compiler : Compiler} {disk : Disk}

/-- A template imports a file: it includes it without a filter, or it extends it. -/
inductive ImportsFrom (compiler : Compiler) (disk : Disk) (source : String)
    (origin : Option Path) (file : Path) : Prop
  | import {doc : Document} {id} {kind : ImportKind} {name : String}
      {filter : Option String}
      (parsed : parse source = .ok doc)
      (named : doc.kind id = .statement (.importing kind name filter))
      (located : compiler.locate disk origin name (doc.position id) = .ok file)
      (unfiltered : kind = .including → compiler.fileFilter? file filter = none)

/-- The graph of the templates on a disk. -/
def Leads (compiler : Compiler) (disk : Disk) (file target : Path) : Prop :=
  ∃ content, readFile disk file = .ok content ∧ compiler.ImportsFrom disk content (some file) target

variable {origin : Option Path} {file target : Path} {fuel : Nat}

lemma locate_elsewhere (located : compiler.locate disk origin name pos = .ok file)
    (other) : compiler.locate disk origin name other = .ok file := by
  simp only [locate] at located ⊢
  split at located
  · exact located
  · cases located

/-- A template on the way to its assembled document: the imports in `rest`, and those of layouts, are
still in the tree. -/
structure Pending (parsed doc : Document) (rest : List Nat) : Prop
    extends Sheds parsed doc where
  waits : ∀ id, (parsed.kind id).isImport → id ∈ rest ∨ (parsed.kind id).isExtends → doc.isAttached id

section Loader

variable {load : Loader} (loads : ∀ file pos doc,
  load file pos = .ok doc → doc.WellFormed)

include loads

variable {parsed : Document}

lemma includeFile_pending {rest} (wf : parsed.WellFormed)
    (furnished : parsed.Furnished) (pending : Pending parsed doc (id :: rest)) (once : id ∉ rest)
    (old : id < parsed.size) (ok : compiler.includeFile disk load origin doc id = .ok after) :
    Pending parsed after rest := by
  rcases includeFile_cases ok with ⟨rfl, -⟩ | ⟨name, filter, made, ids, attached, kind, includes, rfl⟩
  · refine ⟨pending.toSheds, fun other isImport waits => pending.waits other isImport ?_⟩
    exact waits.imp_left (mem_cons_of_mem _)
  · obtain ⟨owner, parent⟩ := pending.well_formed.placed attached (by simp [kind])
    obtain ⟨trees, supplies, kinds⟩ := includes.supplies loads pending.well_formed
    have isInclude : (doc.kind id).isInclude := by
      rw [kind]
      rfl
    have noAttribute := import_no_attribute (include_import isInclude)
    refine ⟨pending.toSheds.trans (supplies.sheds pending.well_formed parent noAttribute kinds), ?_⟩
    intro other isImport waits
    have attached := pending.waits other isImport (waits.imp_left (mem_cons_of_mem _))
    rw [pending.kind id old] at isInclude
    have different : id ≠ other := by
      rintro rfl
      rcases waits with later | isExtends
      · exact once later
      · obtain ⟨path, filter, form⟩ := include_form isInclude
        rw [form] at isExtends
        cases isExtends
    have otherInside := (mem_listed.1 (wf.indexed.imports ▸ wf.mem_imports isImport)).1
    -- A node of the tree has the ancestors that it was parsed with, and no import is among them.
    have ancestors := (pending.attached wf otherInside attached).2
    have apart := furnished.import_apart wf (include_import isInclude)
      (import_no_attribute isImport) different
    rw [lineage, ← ancestors] at apart
    exact supplies.replace_attached pending.well_formed parent noAttribute kinds attached apart

lemma includeAll_pending (wf : parsed.WellFormed) (furnished : parsed.Furnished) (ids)
    (once : ids.Nodup) (old : ∀ id ∈ ids, id < parsed.size) (pending : Pending parsed doc ids)
    (ok : ids.foldlM (compiler.includeFile disk load origin) doc = .ok after) :
    Pending parsed after [] ∧ ∀ id ∈ ids, (parsed.kind id).isImport →
      ∃ before next, Sheds parsed before ∧ before.isAttached id ∧
        compiler.includeFile disk load origin before id = .ok next := by
  induction ids generalizing doc with
  | nil =>
    cases ok
    exact ⟨pending, by simp⟩
  | cons id more ih =>
    obtain ⟨middle, stepped, rest⟩ := ok_of_bind ok
    obtain ⟨notLater, moreOnce⟩ := nodup_cons.1 once
    have step := includeFile_pending loads wf furnished pending notLater (old id mem_cons_self) stepped
    obtain ⟨finished, loaded⟩ := ih moreOnce (forall_mem_cons.1 old).2 step rest
    refine ⟨finished, ?_⟩
    intro other mem isImport
    rcases mem_cons.1 mem with rfl | later
    · exact ⟨doc, middle, pending.toSheds, pending.waits other isImport (.inl mem_cons_self), stepped⟩
    · exact loaded other later isImport

/-- Once the includes of a parsed template are resolved, each of them was loaded, and its layouts are
still to be loaded. -/
theorem parsed_pending {source complete} (parsing : parse source = .ok parsed)
    (included : parsed.imports.foldlM (compiler.includeFile disk load origin) parsed = .ok complete) :
    Pending parsed complete [] ∧ ∀ id ∈ parsed.imports, (parsed.kind id).isImport →
      ∃ before next, Sheds parsed before ∧ before.isAttached id ∧
        compiler.includeFile disk load origin before id = .ok next := by
  have wf := parse_well_formed parsing
  have listed := wf.indexed.imports
  have start : Pending parsed parsed parsed.imports := by
    refine ⟨.refl wf, fun other isImport _ => ?_⟩
    have inside := (mem_listed.1 (listed ▸ wf.mem_imports isImport)).1
    rw [isAttached, contains_iff_mem]
    exact wf.root_above (parse_inOrder parsing) inside
  have once : parsed.imports.Nodup := by
    rw [listed]
    exact (parsed.listed_sorted _).imp Nat.ne_of_lt
  exact includeAll_pending loads wf (parse_furnished parsing) parsed.imports once
    (fun other mem => (mem_listed.1 (listed ▸ mem)).1) start included

/-- A load succeeds only if every file that the template leads to can be loaded. -/
theorem imports_loaded (ok : compiler.loadWith disk load source origin = .ok doc)
    (imports : compiler.ImportsFrom disk source origin file) :
    ∃ pos below, load file pos = .ok below := by
  obtain @⟨parsed, id, kind, name, filter, parsing, named, located, unfiltered⟩ := imports
  rw [loadWith_eq] at ok
  obtain ⟨complete, assembly, extension⟩ := ok_of_bind ok
  obtain ⟨same, parsesSame, included⟩ := ok_of_bind assembly
  cases parsing.symm.trans (ok_of_mapError parsesSame)
  have wf := parse_well_formed parsing
  have isImport : (parsed.kind id).isImport := by
    rw [named]
    rfl
  obtain ⟨finished, loaded⟩ := parsed_pending loads parsing included
  have mem := wf.mem_imports isImport
  have inside := (mem_listed.1 (wf.indexed.imports ▸ mem)).1
  cases kind with
  | including =>
    obtain ⟨before, next, sheds, attached, step⟩ := loaded id mem isImport
    unfold includeFile at step
    rw [attached, sheds.kind id inside, named] at step
    obtain ⟨found, foundAt, step⟩ := ok_of_bind step
    cases (locate_elsewhere located (before.position id)).symm.trans foundAt
    rw [unfiltered rfl] at step
    obtain ⟨below, load, -⟩ := ok_of_bind step
    exact ⟨_, below, load⟩
  | extending =>
    have attached := finished.waits id isImport (.inr (by rw [named]; rfl))
    have stillNamed := (finished.kind id inside).trans named
    have layout : id ∈ complete.importsOf .extending := by
      refine mem_filter.2 ⟨finished.well_formed.mem_imports (by rw [stillNamed]; rfl), ?_⟩
      rw [attached, stillNamed]
      rfl
    rcases extendLayout_cases extension with
      ⟨alone, -⟩ | ⟨only, same, other, found, below, single, onlyNamed, foundAt, load, -⟩
    · rw [alone] at layout
      cases layout
    · rw [single, mem_singleton] at layout
      cases (layout ▸ stillNamed).symm.trans onlyNamed
      cases (locate_elsewhere located (complete.position only)).symm.trans foundAt
      exact ⟨_, below, load⟩

end Loader

/-- The template in a file can be loaded with so many levels below it. -/
def Fits (compiler : Compiler) (disk : Disk) (remaining : Nat) (file : Path) : Prop :=
  ∃ content doc, readFile disk file = .ok content ∧ compiler.loadWithin disk remaining content (some file) = .ok doc

namespace Fits

variable (fits : compiler.Fits disk fuel file)

include fits

lemma next (leads : compiler.Leads disk file target) :
    ∃ before, fuel = before + 1 ∧ compiler.Fits disk before target := by
  obtain ⟨content, doc, read, loaded⟩ := fits
  obtain ⟨same, readSame, imports⟩ := leads
  cases read.symm.trans readSame
  rw [loadWithin_eq, ← loadWith_eq] at loaded
  obtain ⟨pos, below, success⟩ := imports_loaded (fun _ _ _ => loaderWithin_well_formed) loaded imports
  obtain ⟨before, inner, same, read, within⟩ := loaderWithin_ok.1 success
  exact ⟨before, same, inner, below, read, within⟩

lemma path (chain : List.IsChain (compiler.Leads disk) (file :: files)) : files.length ≤ fuel := by
  induction files generalizing fuel file with
  | nil => exact Nat.zero_le _
  | cons next more ih =>
    obtain ⟨leads, rest⟩ := isChain_cons_cons.1 chain
    obtain ⟨before, rfl, below⟩ := fits.next leads
    exact Nat.succ_le_succ (ih below rest)

lemma beyond (path : Relation.TransGen (compiler.Leads disk) file target) :
    ∃ before, before < fuel ∧ compiler.Fits disk before target := by
  induction path with
  | single leads =>
    obtain ⟨before, rfl, below⟩ := fits.next leads
    exact ⟨before, Nat.lt_succ_self before, below⟩
  | tail _ leads ih =>
    obtain ⟨middle, less, above⟩ := ih
    obtain ⟨before, rfl, below⟩ := above.next leads
    exact ⟨before, by omega, below⟩

lemma no_cycle : ¬ Relation.TransGen (compiler.Leads disk) file file := by
  intro cycle
  induction fuel using Nat.strongRecOn with
  | ind fuel ih =>
    obtain ⟨before, less, again⟩ := fits.beyond cycle
    exact ih before less again

lemma acyclic (path : Relation.ReflTransGen (compiler.Leads disk) file reached) :
    ¬ Relation.TransGen (compiler.Leads disk) reached reached := by
  rcases Relation.reflTransGen_iff_eq_or_transGen.1 path with rfl | further
  · exact fits.no_cycle
  · obtain ⟨before, -, below⟩ := fits.beyond further
    exact below.no_cycle

end Fits

lemma documentFile_fits (ok : compiler.documentFile disk file = .ok doc) :
    compiler.Fits disk compiler.options.maxDepth file := by
  obtain ⟨loaded, loading, -⟩ := ok_of_bind ok
  obtain ⟨content, read, within⟩ := ok_of_bind loading
  exact ⟨content, loaded, read, ok_of_mapError within⟩

mutual

/-- A run that loads a template at a depth. -/
inductive Loads (compiler : Compiler) (disk : Disk) :
    Nat → String → Option Path → Except Failure Document → Prop
  | load {depth source origin opened}
      (opens : ∀ file position, Opens compiler disk depth file position (opened file position)) :
      Loads compiler disk depth source origin (compiler.loadWith disk opened source origin)

/-- A run that loads a file which a template at a depth imports. -/
inductive Opens (compiler : Compiler) (disk : Disk) :
    Nat → Path → Position → Except Failure Document → Prop
  | tooDeep {depth file position}
      (deep : compiler.options.maxDepth < depth + 1) :
      Opens compiler disk depth file position (.error (.template
        ((Cause.templatesTooDeep compiler.options.maxDepth).diagnose position)))
  | unreadable {depth file position failure}
      (within : depth + 1 ≤ compiler.options.maxDepth)
      (read : readFile disk file = .error failure) :
      Opens compiler disk depth file position (.error failure)
  | opened {depth file position content result}
      (within : depth + 1 ≤ compiler.options.maxDepth)
      (read : readFile disk file = .ok content)
      (loads : Loads compiler disk (depth + 1) content (some file) result) :
      Opens compiler disk depth file position (blame file result)

end

lemma opens_iff {depth} (deeper : depth + 1 ≤ compiler.options.maxDepth → ∀ source origin result,
      Loads compiler disk (depth + 1) source origin result ↔
        compiler.loadWithin disk (compiler.options.maxDepth - (depth + 1)) source origin = result)
    (file pos) (result : Except Failure Document) : Opens compiler disk depth file pos result ↔
      compiler.loaderWithin disk (compiler.options.maxDepth - depth) file pos = result := by
  by_cases within : depth + 1 ≤ compiler.options.maxDepth
  · have left : compiler.options.maxDepth - depth = compiler.options.maxDepth - (depth + 1) + 1 := by omega
    rw [left]
    constructor
    · intro opens
      cases opens with
      | tooDeep deep => omega
      | unreadable _ read =>
        simp only [loaderWithin, read]
        rfl
      | opened _ read loads =>
        simp only [loaderWithin, read]
        rw [← (deeper within _ _ _).1 loads]
        rfl
    · rintro rfl
      simp only [loaderWithin]
      cases read : readFile disk file with
      | error failure => exact .unreadable within read
      | ok content => exact .opened within read ((deeper within _ _ _).2 rfl)
  · have left : compiler.options.maxDepth - depth = 0 := by omega
    rw [left]
    constructor
    · intro opens
      cases opens with
      | tooDeep deep => rfl
      | unreadable shallow _ => exact absurd shallow within
      | opened shallow _ _ => exact absurd shallow within
    · rintro rfl
      exact .tooDeep (by omega)

lemma loads_iff (depth source origin) (ok : Except Failure Document) : Loads compiler disk depth source origin ok ↔
      compiler.loadWithin disk (compiler.options.maxDepth - depth) source origin = ok := by
  induction left : compiler.options.maxDepth - depth using Nat.strongRecOn
    generalizing depth source origin ok with
  | ind fuel ih =>
    have opens := opens_iff fun within source origin ok =>
      ih (compiler.options.maxDepth - (depth + 1)) (by omega) (depth + 1) source origin ok rfl
    rw [loadWithin_eq, ← loadWith_eq, ← left]
    constructor
    · rintro ⟨opened⟩
      rename_i load
      have same : load = compiler.loaderWithin disk (compiler.options.maxDepth - depth) := by
        funext file pos
        exact ((opens file pos _).1 (opened file pos)).symm
      rw [same]
    · rintro rfl
      exact .load fun file pos => (opens file pos _).2 rfl

/-- Loading ends, and it is bounded: if the document of a file can be made, no path through the
graph of imports that starts at the file is longer than the limit, and none runs into a cycle. So
chains of includes and layouts that are too deep or cyclic make the compilation fail. -/
theorem loading_is_bounded (compiler : Compiler) (disk : Disk) (file : Path) :
    (∀ source origin result, Loads compiler disk 0 source origin result ↔
      compiler.load disk source origin = result) ∧
    (∀ document, compiler.documentFile disk file = .ok document →
      (∀ files, List.IsChain (compiler.Leads disk) (file :: files) →
        files.length ≤ compiler.options.maxDepth) ∧
      ∀ reached, Relation.ReflTransGen (compiler.Leads disk) file reached →
        ¬ Relation.TransGen (compiler.Leads disk) reached reached) ∧
    ((∃ files, List.IsChain (compiler.Leads disk) (file :: files) ∧
        compiler.options.maxDepth < files.length) ∨
      (∃ reached, Relation.ReflTransGen (compiler.Leads disk) file reached ∧
        Relation.TransGen (compiler.Leads disk) reached reached) →
      ∃ failure, compiler.compileFile disk file = .error failure) := by
  refine ⟨fun source origin result => loads_iff 0 source origin result, ?_, ?_⟩
  · intro document made
    have fits := documentFile_fits made
    exact ⟨fun files chain => fits.path chain, fun reached path => fits.acyclic path⟩
  · intro bad
    cases compiled : compiler.compileFile disk file with
    | error failure => exact ⟨failure, rfl⟩
    | ok code =>
      obtain ⟨document, made, -⟩ := ok_of_bind compiled
      have fits := documentFile_fits made
      rcases bad with ⟨files, chain, long⟩ | ⟨reached, path, cycle⟩
      · exact absurd (fits.path chain) (Nat.not_le.2 long)
      · exact absurd cycle (fits.acyclic path)

lemma leads_of_import {content} (id kind name) (read : readFile disk file = .ok content)
    (named : ((parse content).toOption.any fun doc =>
      decide (doc.kind id = .statement (.importing kind name none))) = true)
    (located : compiler.locate disk (some file) name .start = .ok target)
    (unfiltered : compiler.fileFilter? target none = none) : compiler.Leads disk file target := by
  cases parsed : parse content with
  | error diag =>
    rw [parsed] at named
    cases named
  | ok doc =>
    rw [parsed] at named
    exact ⟨content, read, .import parsed (of_decide_eq_true named)
      (locate_elsewhere located (doc.position id)) fun _ => unfiltered⟩

/-- Two templates that lead to each other, one by an include and one by its layout. -/
def loopDisk : Disk :=
  ⟨[], [(["a.pug"], .text "p\n  include b\n"), (["b.pug"], .text "extends a\n")]⟩

theorem site_is_bounded :
    (∃ document, pageCompiler.documentFile siteDisk ⟨"/base.pug"⟩ = .ok document ∧
      List.IsChain (pageCompiler.Leads siteDisk) [⟨"/base.pug"⟩, ⟨"/head.pug"⟩] ∧
      [Path.mk "/head.pug"].length ≤ pageCompiler.options.maxDepth) ∧
    pageCompiler.Leads loopDisk ⟨"/a.pug"⟩ ⟨"/b.pug"⟩ ∧
    pageCompiler.Leads loopDisk ⟨"/b.pug"⟩ ⟨"/a.pug"⟩ ∧
    ∃ failure, pageCompiler.compileFile loopDisk ⟨"/a.pug"⟩ = .error failure := by
  have includes : pageCompiler.Leads siteDisk ⟨"/base.pug"⟩ ⟨"/head.pug"⟩ :=
    leads_of_import 6 .including "head" rfl (by decide +kernel) (by decide +kernel) (by decide +kernel)
  have down : pageCompiler.Leads loopDisk ⟨"/a.pug"⟩ ⟨"/b.pug"⟩ :=
    leads_of_import 2 .including "b" rfl (by decide +kernel) (by decide +kernel) (by decide +kernel)
  have up : pageCompiler.Leads loopDisk ⟨"/b.pug"⟩ ⟨"/a.pug"⟩ :=
    leads_of_import 1 .extending "a" rfl (by decide +kernel) (by decide +kernel) (by decide +kernel)
  have compiles : (pageCompiler.documentFile siteDisk ⟨"/base.pug"⟩).isOk = true := by
    decide +kernel
  refine ⟨?_, down, up, ?_⟩
  · cases made : pageCompiler.documentFile siteDisk ⟨"/base.pug"⟩ with
    | error failure =>
      rw [made] at compiles
      cases compiles
    | ok document =>
      have chain : List.IsChain (pageCompiler.Leads siteDisk) [⟨"/base.pug"⟩, ⟨"/head.pug"⟩] :=
        List.isChain_cons_cons.2 ⟨includes, .singleton _⟩
      exact ⟨document, rfl, chain,
        ((loading_is_bounded pageCompiler siteDisk ⟨"/base.pug"⟩).2.1 document made).1 _ chain⟩
  · exact (loading_is_bounded pageCompiler loopDisk ⟨"/a.pug"⟩).2.2
      (.inr ⟨⟨"/a.pug"⟩, .refl, .tail (.single down) up⟩)

end Compiler

end PugTemplate
