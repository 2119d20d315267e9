import PugTemplate.Compiler
import PugTemplate.Proofs.Inheritance
import PugTemplate.Proofs.Parsing
import PugTemplate.Proofs.Success

/-!
# Loaded templates

A template is assembled by parsing it and putting included files in their place, and is then merged
into its layout, which is loaded the same way. The documents on the way are all well-formed. The
templates of a load form a chain that begins with a layout that extends nothing.
-/

namespace PugTemplate

open Document

namespace Compiler

/-- The template on its own: parsed, and with included files in their place. -/
def assemble (compiler : Compiler) (view : View) (load : Loader) (source : String)
    (origin : Option Path) : Except Failure Document := do
  let doc ← (Document.parse source).mapError Failure.template
  doc.imports.foldlM (compiler.includeFile view load origin) doc

variable {compiler : Compiler} {view : View} {disk : Disk}

lemma loadWith_eq (load) : compiler.loadWith view load source origin =
    compiler.assemble view load source origin >>= compiler.extendLayout view load origin := by
  unfold loadWith assemble
  cases (parse source).mapError Failure.template with
  | error | ok => rfl

lemma loadWithin_eq : compiler.loadWithin view remaining source origin =
    compiler.assemble view (compiler.loaderWithin view remaining) source origin >>=
      compiler.extendLayout view (compiler.loaderWithin view remaining) origin := by
  rw [← loadWith_eq]
  cases remaining with
  | zero | succ => rfl

variable {origin : Option Path} {doc child after : Document} {id remaining : Nat} {source : String}

section Steps

variable {load : Loader}

/-- What an included file puts into a document: one text, or the nodes of a template. -/
inductive Includes (load : Loader) (doc : Document) : Document → List Nat → Prop
  | text (content : String) (pos : Position) : Includes load doc (doc.create (.text content true) pos).1 [doc.size]
  | template {file pos included} (loaded : load file pos = .ok included) :
    Includes load doc (doc.graftChildren included Document.root).1
      (doc.graftChildren included Document.root).2

lemma includeFile_cases (ok : compiler.includeFile disk load origin doc id = .ok after) :
    (after = doc ∧ ∀ name filter, doc.isAttached id →
      doc.kind id ≠ .statement (.importing .including name filter)) ∨
    ∃ name filter made ids, doc.isAttached id ∧
      doc.kind id = .statement (.importing .including name filter) ∧ Includes load doc made ids ∧
      after = made.replace id ids := by
  unfold includeFile at ok
  split at ok
  · rename_i name filter attached kind
    right
    obtain ⟨file, located, ok⟩ := ok_of_bind ok
    split at ok
    · obtain ⟨content, filtered, ok⟩ := ok_of_bind ok
      exact ⟨name, filter, _, _, attached, kind, .text content _, (Except.ok.inj ok).symm⟩
    · obtain ⟨included, loaded, ok⟩ := ok_of_bind ok
      exact ⟨name, filter, _, _, attached, kind, .template loaded, (Except.ok.inj ok).symm⟩
  · rename_i other
    exact .inl ⟨(Except.ok.inj ok).symm, other⟩

lemma importsOf_kind {kind} (mem : id ∈ doc.importsOf kind) :
    ∃ name filter, doc.kind id = .statement (.importing kind name filter) := by
  have test := (List.mem_filter.1 mem).2
  split at test
  · rename_i other name filter found
    simp only [Bool.and_eq_true, beq_iff_eq] at test
    exact ⟨name, filter, by rw [found, test.2]⟩
  · simp at test

lemma extendLayout_cases (ok : compiler.extendLayout disk load origin child = .ok doc) :
    (child.importsOf .extending = [] ∧ doc = child) ∨
    ∃ id name filter file layout, child.importsOf .extending = [id] ∧
      child.kind id = .statement (.importing .extending name filter) ∧
      compiler.locate disk origin name (child.position id) = .ok file ∧
      load file (child.position id) = .ok layout ∧ doc = layout.extend child := by
  unfold extendLayout at ok
  split at ok
  · rename_i alone
    exact .inl ⟨alone, (Except.ok.inj ok).symm⟩
  · rename_i id single
    obtain ⟨name, filter, named⟩ := importsOf_kind (single ▸ List.mem_singleton_self id)
    rw [named] at ok
    obtain ⟨file, located, ok⟩ := ok_of_bind ok
    obtain ⟨layout, loaded, ok⟩ := ok_of_bind ok
    exact .inr ⟨id, name, filter, file, layout, single, named, located, loaded, (Except.ok.inj ok).symm⟩
  · cases ok

variable (loads : ∀ file position doc, load file position = .ok doc → doc.WellFormed)

include loads

lemma Includes.supplies (wf : doc.WellFormed) {made ids}
    (includes : Includes load doc made ids) :
    ∃ trees, doc.Supplies made ids trees ∧ ∀ tree ∈ trees, tree.kind.isAttribute = false := by
  cases includes with
  | text content pos =>
    refine ⟨_, wf.create_supplies (.text content true) pos, fun tree mem => ?_⟩
    rw [List.mem_singleton.1 mem]
    rfl
  | template loaded =>
    have includedWf := loads _ _ _ loaded
    exact ⟨_, wf.graftChildren_supplies includedWf root, includedWf.child_trees_kinds root⟩

lemma includeFile_well_formed (wf : doc.WellFormed)
    (ok : compiler.includeFile disk load origin doc id = .ok after) : after.WellFormed := by
  rcases includeFile_cases ok with ⟨rfl, -⟩ | ⟨name, filter, made, ids, attached, kind, includes, rfl⟩
  · exact wf
  · obtain ⟨owner, parent⟩ := wf.placed attached (by simp [kind])
    obtain ⟨trees, supplies, kinds⟩ := includes.supplies loads wf
    exact supplies.replace_well_formed wf parent (by rw [kind]; rfl) kinds

lemma extendLayout_well_formed (wf : child.WellFormed)
    (ok : compiler.extendLayout disk load origin child = .ok doc) : doc.WellFormed := by
  rcases extendLayout_cases ok with ⟨-, rfl⟩ | ⟨id, name, filter, file, layout, -, -, -, loaded, rfl⟩
  · exact wf
  · exact (extend_tree (loads _ _ _ loaded) wf).1

end Steps

lemma loaderWithin_ok {file position} : compiler.loaderWithin disk remaining file position = .ok doc ↔
      ∃ before content, remaining = before + 1 ∧ readFile disk file = .ok content ∧
        compiler.loadWithin disk before content (some file) = .ok doc := by
  constructor
  · intro ok
    cases remaining with
    | zero => cases ok
    | succ before =>
      obtain ⟨content, read, ok⟩ := ok_of_bind ok
      exact ⟨before, content, rfl, read, ok_of_mapError ok⟩
  · rintro ⟨before, content, rfl, read, loaded⟩
    simp only [loaderWithin, read]
    change blame file (compiler.loadWithin disk before content (some file)) = .ok doc
    rw [loaded]
    rfl

section Keeps

variable {prop : Document → Prop}
  (parses : ∀ source doc, parse source = .ok doc → prop doc)
  (includes : ∀ (load : Loader) (origin : Option Path) (doc : Document) (id : Nat) (after : Document),
    (∀ file position doc, load file position = .ok doc → prop doc) → prop doc →
    compiler.includeFile disk load origin doc id = .ok after → prop after)

include parses includes

lemma assemble_keeps {load} (loads : ∀ file position doc, load file position = .ok doc → prop doc)
    (ok : compiler.assemble disk load source origin = .ok doc) : prop doc := by
  obtain ⟨parsed, parsing, included⟩ := ok_of_bind ok
  exact foldlM_invariant (fun state id after holds step => includes load origin state id after loads holds step)
    _ (parses source parsed (ok_of_mapError parsing)) included

/-- What parsing gives, and includes and layouts keep, holds of every document that is loaded. -/
theorem loadWithin_keeps (layouts : ∀ (load : Loader) (origin : Option Path) (child doc : Document),
      (∀ file position doc, load file position = .ok doc → prop doc) → prop child →
      compiler.extendLayout disk load origin child = .ok doc → prop doc)
    (ok : compiler.loadWithin disk remaining source origin = .ok doc) : prop doc := by
  induction remaining using Nat.strongRecOn generalizing source origin doc with
  | ind remaining ih =>
    have loads : ∀ file position doc, compiler.loaderWithin disk remaining file position = .ok doc → prop doc := by
      intro file position loaded success
      obtain ⟨before, content, same, -, within⟩ := loaderWithin_ok.1 success
      exact ih before (by omega) within
    rw [loadWithin_eq] at ok
    obtain ⟨assembled, assembly, extension⟩ := ok_of_bind ok
    exact layouts _ origin assembled doc loads (assemble_keeps parses includes loads assembly) extension

end Keeps

lemma loadWithin_well_formed (ok : compiler.loadWithin disk remaining source origin = .ok doc) : doc.WellFormed :=
  loadWithin_keeps (fun _ _ => parse_well_formed)
    (fun _ _ _ _ _ loads => includeFile_well_formed loads) (fun _ _ _ _ loads => extendLayout_well_formed loads) ok

lemma loaderWithin_well_formed {file position}
    (ok : compiler.loaderWithin disk remaining file position = .ok doc) : doc.WellFormed := by
  obtain ⟨before, content, -, -, within⟩ := loaderWithin_ok.1 ok
  exact loadWithin_well_formed within

/-- The templates that a load merges: the layout that extends nothing, and the templates that
extend it one after the other. -/
inductive Chain (compiler : Compiler) (disk : Disk) :
    Nat → String → Option Path → Document → List Document → Prop
  | base {remaining : Nat} {source : String} {origin : Option Path} {doc : Document}
      (assembled : compiler.assemble disk (compiler.loaderWithin disk remaining) source origin = .ok doc)
      (alone : doc.importsOf .extending = []) :
      Chain compiler disk remaining source origin doc []
  | child {remaining : Nat} {source content : String} {origin : Option Path} {file : Path}
      {doc base : Document} {id : Nat} {name : String} {filter : Option String}
      {children : List Document}
      (assembled : compiler.assemble disk (compiler.loaderWithin disk (remaining + 1)) source
        origin = .ok doc)
      (single : doc.importsOf .extending = [id])
      (named : doc.kind id = .statement (.importing .extending name filter))
      (located : compiler.locate disk origin name (doc.position id) = .ok file)
      (read : readFile disk file = .ok content)
      (above : Chain compiler disk remaining content (some file) base children) :
      Chain compiler disk (remaining + 1) source origin base (children ++ [doc])

def IsLoaded (compiler : Compiler) (disk : Disk) (doc : Document) : Prop :=
  ∃ remaining source origin, compiler.loadWithin disk remaining source origin = .ok doc

/-- The document of some template before it is merged into its layout. -/
def IsAssembled (compiler : Compiler) (disk : Disk) (doc : Document) : Prop :=
  ∃ remaining source origin, compiler.assemble disk (compiler.loaderWithin disk remaining) source origin = .ok doc

lemma IsLoaded.well_formed (loaded : compiler.IsLoaded disk doc) : doc.WellFormed := by
  obtain ⟨remaining, source, origin, ok⟩ := loaded
  exact loadWithin_well_formed ok

lemma IsAssembled.well_formed (assembled : compiler.IsAssembled disk doc) : doc.WellFormed := by
  obtain ⟨remaining, source, origin, ok⟩ := assembled
  exact assemble_keeps (fun _ _ => parse_well_formed)
    (fun _ _ _ _ _ loads => includeFile_well_formed loads) (fun _ _ _ => loaderWithin_well_formed) ok

lemma extendLayout_single {load name filter}
    (single : child.importsOf .extending = [id])
    (named : child.kind id = .statement (.importing .extending name filter)) :
    compiler.extendLayout view load origin child = do
      let file ← compiler.locate view origin name (child.position id)
      let layout ← load file (child.position id)
      return layout.extend child := by
  unfold extendLayout
  rw [single]
  dsimp only
  rw [named]

lemma chain_of_load (ok : compiler.loadWithin disk remaining source origin = .ok doc) :
    ∃ base children, Chain compiler disk remaining source origin base children := by
  induction remaining using Nat.strongRecOn generalizing source origin doc with
  | ind remaining ih =>
    rw [loadWithin_eq] at ok
    obtain ⟨child, assembled, extension⟩ := ok_of_bind ok
    rcases extendLayout_cases extension with
      ⟨alone, -⟩ | ⟨id, name, filter, file, layout, single, named, located, loaded, -⟩
    · exact ⟨child, [], .base assembled alone⟩
    · obtain ⟨before, content, rfl, read, within⟩ := loaderWithin_ok.1 loaded
      obtain ⟨base, children, above⟩ := ih before (by omega) within
      exact ⟨base, children ++ [child], .child assembled single named located read above⟩

lemma Chain.loads {base} {children : List Document}
    (chain : Chain compiler disk remaining source origin base children) :
    ∃ doc, compiler.loadWithin disk remaining source origin = .ok doc ∧ doc.tree = base.inherited children := by
  induction chain with
  | base assembled alone =>
    rename_i doc
    refine ⟨doc, ?_, rfl⟩
    rw [loadWithin_eq, assembled]
    change compiler.extendLayout disk _ _ doc = .ok doc
    unfold extendLayout
    rw [alone]
  | child assembled single named located read above ih =>
    rename_i remaining source content origin file child base id name filter children
    obtain ⟨layout, loaded, tree⟩ := ih
    have found : compiler.loaderWithin disk (remaining + 1) file (child.position id) = .ok layout :=
      loaderWithin_ok.2 ⟨remaining, content, rfl, read, loaded⟩
    have wf := loadWithin_well_formed loaded
    have childWf := IsAssembled.well_formed ⟨remaining + 1, source, origin, assembled⟩
    refine ⟨layout.extend child, ?_, ?_⟩
    · rw [loadWithin_eq, assembled]
      change compiler.extendLayout disk _ origin child = _
      rw [extendLayout_single single named, located]
      change (compiler.loaderWithin disk (remaining + 1) file (child.position id) >>= _) = _
      rw [found]
      rfl
    · rw [(extend_tree wf childWf).2, tree, inherited, inherited, List.foldl_append]
      rfl

lemma Chain.base_well_formed {base} {children : List Document}
    (chain : Chain compiler disk remaining source origin base children) : base.WellFormed := by
  induction chain with
  | base assembled alone => exact IsAssembled.well_formed ⟨_, _, _, assembled⟩
  | child assembled single named located read above ih => exact ih

lemma extendLayout_tree {load} (loads : ∀ file position layout, load file position = .ok layout →
      compiler.IsLoaded disk layout) (assembled : compiler.IsAssembled disk child) (origin)
    (single : child.importsOf .extending = [id]) :
    ∃ name filter, child.kind id = .statement (.importing .extending name filter) ∧
      (compiler.extendLayout disk load origin child).map tree = do
        let file ← compiler.locate disk origin name (child.position id)
        let layout ← load file (child.position id)
        return layout.tree.extend child.tree child.contributions := by
  obtain ⟨name, filter, named⟩ := importsOf_kind (single ▸ List.mem_singleton_self id)
  refine ⟨name, filter, named, ?_⟩
  rw [extendLayout_single single named]
  cases compiler.locate disk origin name (child.position id) with
  | error failure => rfl
  | ok file =>
    change ((load file (child.position id) >>= _).map _) = (load file (child.position id) >>= _)
    cases loaded : load file (child.position id) with
    | error failure => rfl
    | ok layout =>
      have tree := (extend_tree (loads _ _ _ loaded).well_formed assembled.well_formed).2
      exact congrArg Except.ok tree

/-- Inheritance is a fold over the chain of templates. An extension puts the declarations of the
child around the layout and merges its blocks, as on trees; a load does so along its chain; and
so each block of the layout ends up with the contributions of the chain, merged in order. -/
theorem inheritance_folds_contributions (compiler : Compiler) (disk : Disk) :
    (∀ (load : Loader) (child : Document) (origin : Option Path) (id : Nat),
      (∀ file position layout, load file position = .ok layout → compiler.IsLoaded disk layout) →
      compiler.IsAssembled disk child → child.importsOf .extending = [id] →
      ∃ name filter, child.kind id = .statement (.importing .extending name filter) ∧
        (compiler.extendLayout disk load origin child).map Document.tree = do
          let file ← compiler.locate disk origin name (child.position id)
          let layout ← load file (child.position id)
          return layout.tree.extend child.tree child.contributions) ∧
    (∀ (remaining : Nat) (source : String) (origin : Option Path) (document : Document),
      compiler.loadWithin disk remaining source origin = .ok document →
      ∃ base children, compiler.Chain disk remaining source origin base children ∧
        document.tree = base.inherited children) ∧
    (∀ (remaining : Nat) (source : String) (origin : Option Path) (base : Document)
        (children : List Document), compiler.Chain disk remaining source origin base children →
      (∃ document, compiler.loadWithin disk remaining source origin = .ok document ∧
        document.tree = base.inherited children) ∧
      ∃ front back, (base.inherited children).children =
        front ++ base.tree.children.map
          (Tree.mergeParts (children.flatMap Document.contributions)) ++ back) ∧
    (∀ (parts : List Contribution) (name : String) (mode : BlockMode) (position : Position)
        (attributes content : List Tree),
      Tree.mergeParts parts (.node (.statement (.block (some name) mode)) position attributes content) =
        .node (.statement (.block (some name) mode)) position attributes
          (parts.foldl (fun content part =>
            if name = part.name then part.mode.merge (content.map (Tree.merge part)) part.content
            else content.map (Tree.merge part)) content)) ∧
    ∀ (part : Contribution) (tree : Tree),
      (∀ below ∈ tree.descendants, below.kind.isBlockNamed part.name = false) →
        tree.merge part = tree := by
  refine ⟨?_, ?_, ?_, ?_, ?_⟩
  · intro load child origin id loads assembled single
    exact extendLayout_tree loads assembled origin single
  · intro remaining source origin document loaded
    obtain ⟨base, children, chain⟩ := chain_of_load loaded
    obtain ⟨same, again, tree⟩ := chain.loads
    rw [loaded] at again
    cases again
    exact ⟨base, children, chain, tree⟩
  · intro remaining source origin base children chain
    refine ⟨chain.loads, Document.foldl_extend_children children ?_⟩
    rw [Document.tree, Document.kind_treeAt, chain.base_well_formed.root_kind]
    rfl
  · intro parts name mode position attributes content
    rw [Tree.mergeParts_node]
    congr
    funext content part
    simp only [Tree.refill, NodeKind.isBlockNamed, beq_iff_eq]
  · intro part tree absent
    exact Tree.merge_absent absent

def pageDisk : Disk :=
  ⟨[], [(["base.pug"], .text "block body\n  p old\n"),
    (["page.pug"], .text "extends base\nblock append body\n  p more\n")]⟩

def pageCompiler : Compiler :=
  .ofOptions { Options.standard with paths := [⟨"/"⟩] }

def pageSource : String :=
  "extends page\nblock prepend body\n  p first\n"

theorem inheritance_folds_page :
    (∃ child id, pageCompiler.IsAssembled pageDisk child ∧ child.importsOf .extending = [id] ∧
      ∃ name filter, child.kind id = .statement (.importing .extending name filter) ∧
        (pageCompiler.extendLayout pageDisk (pageCompiler.loaderWithin pageDisk 2) none child).map
            Document.tree = do
          let file ← pageCompiler.locate pageDisk none name (child.position id)
          let layout ← pageCompiler.loaderWithin pageDisk 2 file (child.position id)
          return layout.tree.extend child.tree child.contributions) ∧
    (∃ document base children,
      pageCompiler.loadWithin pageDisk 2 pageSource none = .ok document ∧
        pageCompiler.Chain pageDisk 2 pageSource none base children ∧
        document.tree = base.inherited children ∧
        ∃ front back, (base.inherited children).children =
          front ++ base.tree.children.map
            (Tree.mergeParts (children.flatMap Document.contributions)) ++ back) ∧
    (Tree.node .document .start [] []).merge ⟨"body", .replace, []⟩ =
      .node .document .start [] [] := by
  obtain ⟨extension, load, chain, -, absent⟩ :=
    inheritance_folds_contributions pageCompiler pageDisk
  have assembles : (pageCompiler.assemble pageDisk (pageCompiler.loaderWithin pageDisk 2) pageSource
      none).toOption.map (fun child => child.importsOf .extending) = some [1] := by
    decide +kernel
  have loads : (pageCompiler.loadWithin pageDisk 2 pageSource none).toOption.isSome = true := by
    decide +kernel
  refine ⟨?_, ?_, ?_⟩
  · cases assembled : pageCompiler.assemble pageDisk (pageCompiler.loaderWithin pageDisk 2)
        pageSource none with
    | error failure =>
      rw [assembled] at assembles
      cases assembles
    | ok child =>
      rw [assembled] at assembles
      have isAssembled : pageCompiler.IsAssembled pageDisk child := ⟨2, pageSource, none, assembled⟩
      have single : child.importsOf .extending = [1] := Option.some.inj assembles
      refine ⟨child, 1, isAssembled, single, extension _ child none 1 ?_ isAssembled single⟩
      intro file position layout loaded
      obtain ⟨before, content, -, -, within⟩ := loaderWithin_ok.1 loaded
      exact ⟨before, content, some file, within⟩
  · cases loaded : pageCompiler.loadWithin pageDisk 2 pageSource none with
    | error failure =>
      rw [loaded] at loads
      cases loads
    | ok document =>
      obtain ⟨base, children, isChain, tree⟩ := load 2 pageSource none document loaded
      exact ⟨document, base, children, rfl, isChain, tree, (chain 2 _ none _ _ isChain).2⟩
  · apply absent
    simp [Tree.descendants, Tree.allDescendants, Tree.kind, NodeKind.isBlockNamed]

end Compiler

end PugTemplate
