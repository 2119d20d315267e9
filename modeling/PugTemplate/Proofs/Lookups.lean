import PugTemplate.Proofs.Loading

/-!
# What a load depends on

A load looks templates up and reads the files that are found. If two views show the same for each of its
lookups, then the load gives the same in both and makes the same lookups.
-/

namespace PugTemplate

open List

namespace Compiler

/-- The same answer to a lookup in two views, and the same text in the file that is found. -/
structure Shows (compiler : Compiler) (view other : View) (lookup : Lookup) : Prop where
  found : compiler.find other lookup = compiler.find view lookup
  read : ∀ file, compiler.find view lookup = some file → other.disk.read file = view.disk.read file

variable {compiler : Compiler} {view other : View} {origin : Option Path} {name : String}

lemma find_of_locate {pos file} (located : compiler.locate view origin name pos = .ok file) :
    compiler.find view (compiler.lookup origin name) = some file := by
  unfold locate at located
  split at located
  · cases located
    assumption
  · cases located

lemma locate_shown (shows : compiler.Shows view other (compiler.lookup origin name)) {pos} :
    compiler.locate other origin name pos = compiler.locate view origin name pos := by
  unfold locate
  rw [shows.found]

def Shown (compiler : Compiler) (view other : View) (lookups : List Lookup) : Prop :=
  ∀ lookup ∈ lookups, compiler.Shows view other lookup

lemma lookupsFor_shown {nested nested' : Path → List Lookup}
    (nests : ∀ file, other.disk.read file = view.disk.read file →
      compiler.Shown view other (nested file) → nested' file = nested file)
    (shown : compiler.Shown view other (compiler.lookupsFor view nested origin name)) :
    compiler.lookupsFor other nested' origin name = compiler.lookupsFor view nested origin name := by
  obtain ⟨first, rest⟩ := forall_mem_cons.1 shown
  unfold lookupsFor
  rw [first.found]
  cases found : compiler.find view (compiler.lookup origin name) with
  | none => rfl
  | some file =>
    rw [found] at rest
    exact congrArg _ (nests file (first.read file found) rest)

section Loader

variable {load load' : Loader} {nested nested' : Path → List Lookup}
  (nests : ∀ file, other.disk.read file = view.disk.read file → compiler.Shown view other (nested file) →
    (∀ pos, load' file pos = load file pos) ∧ nested' file = nested file)

include nests

lemma includeFile_shown {doc : Document} {id : Nat}
    (shown : compiler.Shown view other (compiler.includeLookups view nested origin doc id)) :
    compiler.includeFile other load' origin doc id = compiler.includeFile view load origin doc id ∧
      compiler.includeLookups other nested' origin doc id = compiler.includeLookups view nested origin doc id := by
  unfold includeLookups at shown ⊢
  unfold includeFile
  split at shown
  · rename_i name filter attached kind
    refine ⟨?_, lookupsFor_shown (fun file read within => ?_) shown⟩
    · obtain ⟨first, rest⟩ := forall_mem_cons.1 shown
      dsimp only
      rw [locate_shown first]
      cases located : compiler.locate view origin name (doc.position id) with
      | error failure => rfl
      | ok file =>
        have found := find_of_locate located
        have read := first.read file found
        rw [found, Option.elim_some] at rest
        dsimp only [bind, Except.bind]
        cases filtered : compiler.fileFilter? file filter with
        | some filter =>
          unfold filterFile readFile
          rw [read]
        | none =>
          rw [filtered] at rest
          simp only [(nests file read rest).1]
    · split
      · rfl
      · rename_i unfiltered
        rw [if_neg unfiltered] at within
        exact (nests file read within).2
  · exact ⟨rfl, rfl⟩

lemma extendLayout_shown {doc : Document}
    (shown : compiler.Shown view other (compiler.extendLookups view nested origin doc)) :
    compiler.extendLayout other load' origin doc = compiler.extendLayout view load origin doc ∧
      compiler.extendLookups other nested' origin doc = compiler.extendLookups view nested origin doc := by
  unfold extendLookups at shown ⊢
  rcases imports : doc.importsOf .extending with _ | ⟨id, _ | ⟨second, more⟩⟩
  · simp only [extendLayout, imports, and_self]
  · obtain ⟨name, filter, kind⟩ := importsOf_kind (imports ▸ mem_singleton_self id)
    rw [imports] at shown
    simp only [kind] at shown ⊢
    refine ⟨?_, lookupsFor_shown (fun file read within => (nests file read within).2) shown⟩
    obtain ⟨first, rest⟩ := forall_mem_cons.1 shown
    rw [extendLayout_single imports kind, extendLayout_single imports kind, locate_shown first]
    cases located : compiler.locate view origin name (doc.position id) with
    | error failure => rfl
    | ok file =>
      have found := find_of_locate located
      rw [found, Option.elim_some] at rest
      dsimp only [bind, Except.bind]
      rw [(nests file (first.read file found) rest).1]
  · simp only [extendLayout, imports, and_self]

lemma lookupsFrom_shown {ids : List Nat} {doc : Document}
    (shown : compiler.Shown view other (compiler.lookupsFrom view load nested origin ids doc)) :
    (ids.foldlM (compiler.includeFile other load' origin) doc >>= compiler.extendLayout other load' origin) =
        (ids.foldlM (compiler.includeFile view load origin) doc >>= compiler.extendLayout view load origin) ∧
      compiler.lookupsFrom other load' nested' origin ids doc =
        compiler.lookupsFrom view load nested origin ids doc := by
  induction ids generalizing doc with
  | nil => exact extendLayout_shown nests shown
  | cons id more ih =>
    obtain ⟨here, later⟩ := forall_mem_append.1 shown
    obtain ⟨included, lookups⟩ := includeFile_shown nests here
    rw [foldlM_cons, foldlM_cons, lookupsFrom, lookupsFrom, included, lookups]
    cases step : compiler.includeFile view load origin doc id with
    | error failure => exact ⟨rfl, rfl⟩
    | ok next =>
      rw [step] at later
      obtain ⟨same, further⟩ := ih later
      exact ⟨same, congrArg _ further⟩

end Loader

/-- What is loaded from a file depends on the views only as far as they show the file and the lookups. -/
theorem loaderWithin_shown {remaining file} (read : other.disk.read file = view.disk.read file)
    (shown : compiler.Shown view other (compiler.lookupsWithin view remaining file)) :
    (∀ pos, compiler.loaderWithin other remaining file pos = compiler.loaderWithin view remaining file pos) ∧
      compiler.lookupsWithin other remaining file = compiler.lookupsWithin view remaining file := by
  induction remaining generalizing file with
  | zero => exact ⟨fun _ => rfl, rfl⟩
  | succ remaining ih =>
    have same : readFile other file = readFile view file := by
      unfold readFile
      rw [read]
    have loaded : ∀ (any : View) pos, compiler.loaderWithin any (remaining + 1) file pos =
        readFile any file >>= fun content => blame file (compiler.loadWithin any remaining content (some file)) :=
      fun _ _ => rfl
    simp only [loaded, loadWithin_eq, assemble]
    rw [lookupsWithin] at shown
    rw [lookupsWithin, lookupsWithin, same]
    cases content : readFile view file with
    | error failure =>
      dsimp only [bind, Except.bind, Except.toOption, Option.bind]
      exact ⟨fun _ => rfl, rfl⟩
    | ok text =>
      rw [content] at shown
      dsimp only [bind, Except.bind, Except.toOption, Option.bind] at shown ⊢
      cases parsed : Document.parse text with
      | error diag => exact ⟨fun _ => rfl, rfl⟩
      | ok doc =>
        rw [parsed] at shown
        obtain ⟨loads, lookups⟩ := lookupsFrom_shown (fun file => ih) shown
        exact ⟨fun _ => congrArg _ loads, lookups⟩

end Compiler

end PugTemplate
