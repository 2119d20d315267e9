import PugTemplate.Command
import PugTemplate.Proofs.Inclusion
import PugTemplate.Proofs.Lookups
import PugTemplate.Proofs.Resolution

/-!
# Templates compiled one after the other

Compiling a directory writes files into it while templates are still to be read, and one resolver keeps
its answers for all of them. If the files that are written stand apart, and change nothing that templates
look up or read, every template is compiled as it would be on its own, in whatever order they are visited.
-/

namespace PugTemplate

open List Compiler

namespace Disk

variable {disk other : Disk} {path : Path} {location place : Location} {entry : Entry}

lemma entry_put (written : place ≠ []) : entry? (disk.put place entry) location =
    if location = place then some entry else disk.entry? location := by
  have rest : ∀ entries : List (Location × Entry), location ≠ place →
      lookup location (entries.filter fun found => found.1 != place) = lookup location entries := by
    intro entries apart
    induction entries with
    | nil => rfl
    | cons found more ih =>
      obtain ⟨name, value⟩ := found
      by_cases here : name = place
      · simpa [here, lookup_cons, beq_eq_false_iff_ne.2 apart] using ih
      · simp [here, lookup_cons, ih]
  unfold entry? put
  by_cases same : location = place
  · simp [same, written]
  · simp [same, lookup_cons, beq_eq_false_iff_ne.2 same, rest disk.entries same]

/-- A walk that meets an entry meets whatever is in its place on a disk that has the same directories. -/
theorem walk_kept (dirs : ∀ location, disk.entry? location = some .directory →
      other.entry? location = some .directory) (pieces)
    (walked : disk.walk location pieces = .ok (place, entry)) :
    other.walk location pieces = other.walk place [] := by
  induction pieces generalizing location with
  | nil =>
    unfold walk at walked
    split at walked <;> cases walked
    rfl
  | cons piece more ih =>
    unfold walk at walked
    split at walked
    · rename_i isDirectory
      split at walked
      · cases walked
      · rename_i short
        rw [← ih walked, walk, dirs location isDirectory]
        exact if_neg short
    · cases walked
    · cases walked

lemma locate_walk {found} (located : disk.locate path = .ok found)
    (home : other.workingDirectory = disk.workingDirectory) :
    ∃ start pieces, disk.walk start pieces = .ok found ∧ other.locate path = other.walk start pieces := by
  unfold locate at located ⊢
  rw [home]
  generalize (if path.isAbsolute = true then [] else disk.workingDirectory) = start at located ⊢
  split at located
  · cases located
  · split at located
    · cases located
    · split at located
      · cases located
      · exact ⟨start, _, located, by simp_all⟩

/-- A path leads to a place where a file is or can be written. -/
structure Takes (disk : Disk) (path : Path) (place : Location) : Prop where
  leads : (disk.put place (.text "")).locate path = .ok (place, .text "")
  writes : disk.write path "" = .ok (disk.put place (.text ""))

/-- A disk on which nothing but files at some places has been written. -/
structure Beside (places : List Location) (disk other : Disk) : Prop where
  home : other.workingDirectory = disk.workingDirectory
  same : ∀ location ∉ places, other.entry? location = disk.entry? location
  kept : ∀ location ∈ places, other.entry? location = disk.entry? location ∨
    ∃ content, other.entry? location = some (.text content)

/-- The places that a path leads past. -/
def passed (disk : Disk) (path : Path) : List Location :=
  (Text.fields (· == '/') path.text.toList).scanl Location.step
    (if path.isAbsolute then [] else disk.workingDirectory)

section Beside

variable {places : List Location} (beside : Beside places disk other)

include beside

lemma Beside.walk (pieces) (apart : ∀ passed ∈ pieces.scanl Location.step location, passed ∉ places) :
    other.walk location pieces = disk.walk location pieces := by
  induction pieces generalizing location with
  | nil => rw [walk, walk, beside.same location (apart location (by simp))]
  | cons piece more ih =>
    rw [scanl_cons] at apart
    rw [walk, walk, beside.same location (apart location mem_cons_self),
      ih fun passed mem => apart passed (mem_cons_of_mem _ mem)]

lemma Beside.locate (apart : ∀ location ∈ disk.passed path, location ∉ places) :
    other.locate path = disk.locate path := by
  rw [Disk.locate, Disk.locate, beside.home, beside.walk _ apart]

lemma Beside.read (apart : ∀ location ∈ disk.passed path, location ∉ places) :
    other.read path = disk.read path := by
  rw [Disk.read, Disk.read, beside.locate apart]

lemma Beside.search {lookup : Lookup} {paths}
    (apart : ∀ path ∈ lookup.candidates paths, ∀ location ∈ disk.passed path, location ∉ places) :
    lookup.search other paths = lookup.search disk paths := by
  unfold Lookup.search
  generalize lookup.candidates paths = candidates at apart ⊢
  induction candidates with
  | nil => rfl
  | cons path more ih =>
    obtain ⟨here, later⟩ := forall_mem_cons.1 apart
    have same := beside.locate here
    have file : other.isFile path = disk.isFile path := by rw [isFile, isFile, same]
    rw [find?_cons, find?_cons, file]
    cases disk.isFile path with
    | true => rw [Option.bind_some, Option.bind_some, canonical?, canonical?, same]
    | false => exact ih later

end Beside

section Takes

variable (takes : disk.Takes path place)

include takes

lemma Takes.not_root : place ≠ [] := by
  rintro rfl
  obtain ⟨start, pieces, walked, -⟩ := @locate_walk _ (disk.put [] (.text "")) _ _ takes.leads rfl
  cases walk_entry walked

/-- On a disk that has the same directories the path leads to the same place. -/
theorem Takes.locate (home : other.workingDirectory = disk.workingDirectory)
    (dirs : ∀ location, disk.entry? location = some .directory → other.entry? location = some .directory) :
    other.locate path = other.walk place [] := by
  obtain ⟨start, pieces, walked, located⟩ := @locate_walk _ other _ _ takes.leads home
  rw [located]
  refine walk_kept (fun location isDirectory => ?_) pieces walked
  rw [entry_put takes.not_root] at isDirectory
  split at isDirectory
  · cases isDirectory
  · exact dirs location isDirectory

lemma Takes.free : disk.entry? place ≠ some .directory := by
  intro isDirectory
  have writes := takes.writes
  rw [write, takes.locate rfl fun _ => id, walk, isDirectory] at writes
  cases writes

variable {places : List Location} (beside : Beside places disk other)
  (free : ∀ location ∈ places, disk.entry? location ≠ some .directory)

omit takes in
include beside free in
lemma Beside.directory (isDirectory : disk.entry? location = some .directory) :
    other.entry? location = some .directory := by
  rw [beside.same location fun mem => free location mem isDirectory]
  exact isDirectory

include beside free

lemma Takes.write (mem : place ∈ places) (content) :
    other.write path content = .ok (other.put place (.text content)) := by
  have located := takes.locate beside.home fun _ => beside.directory free
  unfold Disk.write
  rw [located, walk]
  cases now : other.entry? place with
  | some entry =>
    cases entry with
    | text | binary => rfl
    | directory =>
      rcases beside.kept place mem with same | ⟨content, written⟩
      · exact absurd (same.symm.trans now) (free place mem)
      · cases written.symm.trans now
  | none =>
    -- The place is still free, so the file is written into the directory that it was to be written into.
    have old : disk.entry? place = none := by
      rcases beside.kept place mem with same | ⟨content, written⟩
      · exact same.symm.trans now
      · cases written.symm.trans now
    have writes := takes.writes
    rw [Disk.write, takes.locate rfl fun _ => id, walk, old] at writes
    dsimp only at writes ⊢
    split at writes
    · cases writes
    · rename_i impossible
      cases impossible
    · rename_i parent name _
      split at writes
      · rename_i above within
        obtain ⟨start, pieces, walked, parentLocated⟩ := @locate_walk _ other _ _ within beside.home
        rw [parentLocated, walk_kept (fun _ => beside.directory free) pieces walked, walk,
          beside.directory free (walk_entry walked)]
        have same := congrArg entries (Except.ok.inj writes)
        simp only [put, cons.injEq, Prod.mk.injEq] at same
        rw [← same.1.1]
      · cases writes
      · cases writes
    · cases writes

end Takes

lemma Takes.put (takes : disk.Takes path place) (mem : place ∈ places)
    (beside : Beside places disk other) (content) :
    Beside places disk (other.put place (.text content)) := by
  refine ⟨beside.home, fun location apart => ?_, fun location found => ?_⟩
  · rw [entry_put takes.not_root, if_neg (ne_of_mem_of_not_mem mem apart).symm, beside.same location apart]
  · rw [entry_put takes.not_root]
    split
    · exact .inr ⟨content, rfl⟩
    · exact beside.kept location found

end Disk

namespace Command

open Disk

variable {compiler : Compiler} {disk : Disk}

def output (path : Path) : Path :=
  path.withExtension "php"

section

variable (compiler : Compiler) (disk : Disk) (visited : List Path) (places : List Location)

/-- The lookups that templates make, each compiled on its own. -/
def asked : List Lookup :=
  visited.flatMap (compiler.lookups disk)

/-- The places that templates lead past with what they look up and read. -/
def touched : List Location :=
  (visited ++ (asked compiler disk visited).flatMap fun lookup =>
    lookup.candidates compiler.options.paths ++ (compiler.find disk lookup).toList).flatMap disk.passed

/-- Templates that do not depend on what is written at some places. As answers are kept, lookups that are
the same to a resolver have to find the same file. -/
structure Undisturbed : Prop where
  apart : ∀ location ∈ touched compiler disk visited, location ∉ places
  kept : ∀ first ∈ asked compiler disk visited, ∀ second ∈ asked compiler disk visited,
    Resolver.key first = Resolver.key second → compiler.find disk first = compiler.find disk second

/-- What is seen while templates are compiled: a disk with more files, and answers from before. -/
structure Underway (view : View) : Prop where
  beside : Beside places disk view.disk
  answers : ∀ answer ∈ view.answers, ∃ lookup ∈ asked compiler disk visited,
    answer = (Resolver.key lookup, compiler.find disk lookup)

end

section Underway

variable {visited : List Path} {places : List Location} {view : View}
  (undisturbed : Undisturbed compiler disk visited places)
  (underway : Underway compiler disk visited places view)

include undisturbed underway

lemma Underway.search {lookup} (mem : lookup ∈ asked compiler disk visited) :
    lookup.search view.disk compiler.options.paths = compiler.find disk lookup := by
  refine underway.beside.search fun path tried location passed => undisturbed.apart location ?_
  exact mem_flatMap.2 ⟨path, mem_append_right _ (mem_flatMap.2 ⟨lookup, mem, mem_append_left _ tried⟩), passed⟩

lemma Underway.shows {lookup} (mem : lookup ∈ asked compiler disk visited) : compiler.Shows disk view lookup := by
  refine ⟨?_, fun file found => underway.beside.read fun location passed => undisturbed.apart location ?_⟩
  swap
  · exact mem_flatMap.2 ⟨file, mem_append_right _ (mem_flatMap.2 ⟨lookup, mem, mem_append_right _
      (Option.mem_toList.2 found)⟩), passed⟩
  unfold find Compiler.resolve Resolver.resolve
  split
  · rename_i answer remembered
    obtain ⟨before, after, split, -⟩ := lookup_eq_some_iff.1 remembered
    have known : (Resolver.key lookup, answer) ∈ view.answers := by
      rw [show view.answers = _ from split]
      simp
    obtain ⟨first, isAsked, same⟩ := underway.answers _ known
    rw [Prod.mk.injEq] at same
    exact same.2.trans (undisturbed.kept first isAsked lookup mem same.1.symm)
  · exact underway.search undisturbed mem

lemma Underway.after {lookups : List Lookup} (listed : ∀ lookup ∈ lookups, lookup ∈ asked compiler disk visited) :
    Underway compiler disk visited places (lookups.foldl compiler.ask view) := by
  induction lookups generalizing view with
  | nil => exact underway
  | cons lookup more ih =>
    obtain ⟨isAsked, moreListed⟩ := forall_mem_cons.1 listed
    refine @ih (compiler.ask view lookup) ⟨underway.beside, fun answer mem => ?_⟩ moreListed
    unfold ask Compiler.resolve Resolver.resolve at mem
    split at mem
    · exact underway.answers answer mem
    · rcases mem_cons.1 mem with rfl | old
      · exact ⟨lookup, isAsked, congrArg _ (underway.search undisturbed isAsked)⟩
      · exact underway.answers answer old

lemma compileSeen_underway (mem : path ∈ visited) :
    compiler.compileSeen view path = compiler.compileFile disk path ∧
      compiler.lookups view path = compiler.lookups disk path := by
  have read : view.disk.read path = disk.read path := underway.beside.read fun location passed =>
    undisturbed.apart location (mem_flatMap.2 ⟨path, mem_append_left _ mem, passed⟩)
  obtain ⟨loads, lookups⟩ := loaderWithin_shown read
    fun lookup isAsked => underway.shows undisturbed (mem_flatMap.2 ⟨path, mem, isAsked⟩)
  have loaded : compiler.loadFile view path = compiler.loadFile disk path := loads .start
  refine ⟨?_, lookups⟩
  rw [compileFile, compileSeen, compileSeen, documentSeen, documentSeen, loaded]

end Underway

variable {visited : List Path} {place : Path → Location}
  (takes : ∀ path ∈ visited, disk.Takes (output path) (place path))
  (undisturbed : Undisturbed compiler disk visited (visited.map place))

include takes in
lemma outputs_free : ∀ location ∈ visited.map place, disk.entry? location ≠ some .directory := by
  intro location mem
  obtain ⟨path, isVisited, rfl⟩ := mem_map.1 mem
  exact (takes path isVisited).free

include takes undisturbed

lemma compileOne_underway {view} (underway : Underway compiler disk visited (visited.map place) view)
    (mem : path ∈ visited) :
    Underway compiler disk visited (visited.map place) (compileOne compiler view path).toView ∧
      (compileOne compiler view path).disk = match compiler.compileFile disk path with
        | .ok code => view.disk.put (place path) (.text code)
        | .error _ => view.disk := by
  obtain ⟨compiled, lookups⟩ := compileSeen_underway undisturbed underway mem
  have after := underway.after undisturbed fun lookup isAsked => mem_flatMap.2 ⟨path, mem, isAsked⟩
  have kept : ∀ lookups : List Lookup, (lookups.foldl compiler.ask view).disk = view.disk := by
    intro lookups
    generalize view = start
    induction lookups generalizing start with
    | nil => rfl
    | cons lookup more ih => exact ih _
  unfold compileOne
  rw [compiled, lookups]
  cases compiler.compileFile disk path with
  | error failure => exact ⟨after, kept _⟩
  | ok code =>
    have placed := mem_map_of_mem (f := place) mem
    have written := (takes path mem).write underway.beside (outputs_free takes) placed code
    unfold output at written
    simp only [written]
    exact ⟨⟨(takes path mem).put placed underway.beside code, after.answers⟩, trivial⟩

/-- The disk after some of the templates have been visited. -/
theorem compileAll_entries {paths : List Path} (listed : ∀ path ∈ paths, path ∈ visited)
    (apart : (paths.map place).Nodup) {tally : Tally}
    (underway : Underway compiler disk visited (visited.map place) tally.toView) :
    let final := (paths.foldl (fun tally path => tally.add (compileOne compiler tally.toView path)) tally).disk
    Beside (visited.map place) disk final ∧ (∀ path ∈ paths, ∀ code, compiler.compileFile disk path = .ok code →
        final.entry? (place path) = some (.text code)) ∧
      ∀ location, (∀ path ∈ paths, ∀ code, compiler.compileFile disk path = .ok code →
        place path ≠ location) → final.entry? location = tally.disk.entry? location := by
  induction paths generalizing tally with
  | nil => exact ⟨underway.beside, by simp, fun _ _ => rfl⟩
  | cons path more ih =>
    obtain ⟨isVisited, moreListed⟩ := forall_mem_cons.1 listed
    obtain ⟨alone, moreApart⟩ := nodup_cons.1 apart
    obtain ⟨next, step⟩ := compileOne_underway takes undisturbed underway isVisited
    obtain ⟨final, written, others⟩ :=
      @ih moreListed moreApart (tally.add (compileOne compiler tally.toView path)) next
    refine ⟨final, forall_mem_cons.2 ⟨fun code compiled => ?_, written⟩, fun location free => ?_⟩
    · refine (others _ fun other mem _ _ => ne_of_mem_of_not_mem (mem_map_of_mem mem) alone).trans ?_
      change entry? (compileOne compiler tally.toView path).disk _ = _
      rw [step, compiled]
      exact (entry_put (takes path isVisited).not_root).trans (if_pos rfl)
    · refine (others location fun other mem => free other (mem_cons_of_mem _ mem)).trans ?_
      change entry? (compileOne compiler tally.toView path).disk _ = _
      rw [step]
      cases compiled : compiler.compileFile disk path with
      | error failure => rfl
      | ok code =>
        have elsewhere := free path mem_cons_self code compiled
        exact (entry_put (takes path isVisited).not_root).trans (if_neg elsewhere.symm)

omit takes undisturbed

lemma compileAll_counts {tally final : Tally} (run : visited.foldl (fun tally path =>
      tally.add (compileOne compiler tally.toView path)) tally = final) :
    final.compiled + final.failed = tally.compiled + tally.failed + visited.length := by
  induction visited generalizing tally with
  | nil =>
    rw [← run]
    rfl
  | cons path more ih =>
    rw [ih run]
    dsimp only [Tally.add]
    cases (compileOne compiler tally.toView path).complaint <;> simp +arith

lemma compileDirectory_disk (directory) : (compileDirectory compiler disk directory).disk =
    (compileAll compiler disk (templatesBelow disk directory)).disk := by
  have counted := @compileAll_counts compiler (templatesBelow disk directory) ⟨disk, [], 0, 0⟩ _ rfl
  unfold compileDirectory
  dsimp only
  split
  · rename_i nothing
    have empty : templatesBelow disk directory = [] := by
      rw [← length_eq_zero_iff, ← Nat.zero_add (length _)]
      exact counted.symm.trans (eq_of_beq nothing)
    rw [empty]
    rfl
  · split <;> rfl

/-- A template that includes another one, and one that fails beside a file from before. -/
def mixedDisk : Disk :=
  ⟨[], [(["a.jade"], .text "include c"), (["b.pug"], .text "p("), (["b.php"], .text "old"),
    (["c.pug"], .text "p x")]⟩

/-- A file that was not there for the first template is missing for the last one as well. -/
example : (compileAll pageCompiler ⟨[], [(["a.jade"], .text "include b.php"), (["b.jade"], .text "p x"),
    (["c.jade"], .text "include b.php")]⟩ [⟨"a.jade"⟩, ⟨"b.jade"⟩, ⟨"c.jade"⟩]).disk.isFile ⟨"c.php"⟩ = false := by
  decide +kernel

def blockedDisk : Disk :=
  ⟨[], [(["a.jade"], .text "p x"), (["a.php"], .directory)]⟩

def sharedDisk : Disk :=
  ⟨[], [(["a.jade"], .text "p x"), (["a.pug"], .text "p y")]⟩

def readDisk : Disk :=
  ⟨[], [(["a.jade"], .text "p x"), (["a.php"], .text "old"), (["b.pug"], .text "include a.php")]⟩

end Command

end PugTemplate
