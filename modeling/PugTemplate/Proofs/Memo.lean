import Mathlib.Data.List.Induction
import PugTemplate.Resolver

/-!
# Remembered lookups

A resolver searches for a name once and gives the same answer ever after. So its answer is the one that a
search gave when the name was first asked for, whatever has been written and removed since. The search itself
goes through the directories, and in each of them through the names, and takes the first file it finds.
-/

namespace PugTemplate

open List

namespace Lookup

/-- The names of a lookup, counted from the name itself. An extension that the name ends with leaves a gap. -/
inductive Names (lookup : Lookup) : Nat → String → Prop
  | exact : Names lookup 0 lookup.name
  | extended {index extension} (listed : lookup.extensions[index]? = some extension)
      (missing : ¬ (dotted extension).toList <:+ lookup.name.toList) :
      Names lookup (index + 1) (lookup.name ++ dotted extension)

/-- The files of a lookup by the numbers of their directory and of their name. -/
inductive Tries (lookup : Lookup) (paths : List Path) : Nat → Nat → Path → Prop
  | absolute {index name} (isAbsolute : Path.isAbsolute ⟨lookup.name⟩)
      (named : lookup.Names index name) : Tries lookup paths 0 index ⟨name⟩
  | relative {number index directory name}
      (isRelative : Path.isAbsolute ⟨lookup.name⟩ = false)
      (searched : (lookup.base.toList ++ paths)[number]? = some directory)
      (named : lookup.Names index name) : Tries lookup paths number index (directory.join name)

/-- Whether a file is tried before another one. -/
def Earlier (number index number' index' : Nat) : Prop :=
  number < number' ∨ number = number' ∧ index < index'

variable {lookup : Lookup} {disk : Disk} {index : Nat} {name : String}

def slots (lookup : Lookup) : List (Option String) :=
  some lookup.name :: lookup.extensions.map fun extension =>
    if (dotted extension).toList <:+ lookup.name.toList then none else some (lookup.name ++ dotted extension)

lemma fileNames_eq (lookup : Lookup) : lookup.fileNames = lookup.slots.filterMap id := by
  change lookup.name :: _ = lookup.name :: _
  induction lookup.extensions with
  | nil => rfl
  | cons extension extensions ih =>
    by_cases present : (dotted extension).toList <:+ lookup.name.toList
    · simpa [present] using ih
    · have found : (dotted extension).toList.isSuffixOf lookup.name.toList = false := by
        rwa [Bool.eq_false_iff, ne_eq, isSuffixOf_iff_suffix]
      simpa [present, found] using ih

lemma slots_iff : lookup.slots[index]? = some (some name) ↔ lookup.Names index name := by
  constructor
  · intro found
    cases index with
    | zero =>
      cases found
      exact .exact
    | succ index =>
      rw [slots, getElem?_cons_succ, getElem?_map, Option.map_eq_some_iff] at found
      obtain ⟨extension, listed, same⟩ := found
      split at same
      · cases same
      · rename_i missing
        cases same
        exact .extended listed missing
  · rintro (_ | ⟨listed, missing⟩)
    · rfl
    · rw [slots, getElem?_cons_succ, getElem?_map, listed, Option.map_some, if_neg missing]

lemma Names.head (named : lookup.Names index name) (isAbsolute : Path.isAbsolute ⟨lookup.name⟩) :
    name.toList.head? = some '/' := by
  have first : lookup.name.toList.head? = some '/' := beq_iff_eq.1 isAbsolute
  cases named with
  | exact => exact first
  | extended listed missing => rw [String.toList_append, head?_append, first, Option.some_or]

lemma tries_iff : lookup.Tries paths number index candidate ↔ ∃ directory name,
    (lookup.directories paths)[number]? = some directory ∧ lookup.Names index name ∧
      directory.join name = candidate := by
  unfold directories
  cases absolute : Path.isAbsolute ⟨lookup.name⟩ with
  | true =>
    constructor
    · intro tries
      cases tries with
      | absolute _ named =>
        refine ⟨⟨""⟩, _, rfl, named, ?_⟩
        rw [Path.join, named.head absolute]
        rfl
      | relative isRelative => rw [absolute] at isRelative; cases isRelative
    · rintro ⟨directory, name, only, named, rfl⟩
      have alone := getElem?_singleton ▸ only
      split at alone
      · rename_i first
        subst first
        rw [Path.join, named.head absolute]
        exact .absolute absolute named
      · cases alone
  | false =>
    constructor
    · intro tries
      cases tries with
      | absolute isAbsolute => rw [absolute] at isAbsolute; cases isAbsolute
      | relative _ searched named => exact ⟨_, _, searched, named, rfl⟩
    · rintro ⟨directory, name, searched, named, rfl⟩
      exact .relative absolute searched named

lemma findSome_first {α β : Type} {f} {list : List α} {value : β} :
    list.findSome? f = some value ↔ ∃ (index : Nat) (item : α), list[index]? = some item ∧ f item = some value ∧
      ∀ earlier < index, ∀ other, list[earlier]? = some other → f other = none := by
  rw [findSome?_eq_some_iff]
  constructor
  · rintro ⟨front, item, back, rfl, yields, nothing⟩
    refine ⟨front.length, item, by simp, yields, fun earlier before other found => nothing other ?_⟩
    rw [getElem?_append_left before] at found
    exact mem_of_getElem? found
  · rintro ⟨index, item, found, yields, nothing⟩
    obtain ⟨inside, rfl⟩ := List.getElem?_eq_some_iff.1 found
    refine ⟨list.take index, _, list.drop (index + 1), ?_, yields, ?_⟩
    · rw [← drop_eq_getElem_cons, take_append_drop]
    · intro other mem
      obtain ⟨earlier, before, rfl⟩ := mem_take_iff_getElem.1 mem
      exact nothing earlier (by omega) _ (getElem?_eq_getElem _)

def foundIn (lookup : Lookup) (disk : Disk) (directory : Path) : Option Path :=
  lookup.slots.findSome? fun slot => (slot.map directory.join).filter disk.isFile

lemma find_candidates (lookup : Lookup) : (lookup.candidates paths).find? disk.isFile =
    (lookup.directories paths).findSome? (lookup.foundIn disk) := by
  unfold candidates foundIn
  rw [find?_flatMap, fileNames_eq]
  congr 1
  funext directory
  induction lookup.slots with
  | nil => rfl
  | cons slot slots ih =>
    cases slot with
    | none => exact ih
    | some name =>
      cases isFile : disk.isFile (directory.join name) with
      | true => simp [isFile, Option.filter]
      | false => simpa [isFile] using ih

lemma foundIn_eq_some_iff : lookup.foundIn disk directory = some candidate ↔ ∃ index name, lookup.Names index name ∧
      directory.join name = candidate ∧ disk.isFile candidate ∧
      ∀ earlier < index, ∀ other, lookup.Names earlier other → disk.isFile (directory.join other) = false := by
  unfold foundIn
  rw [findSome_first]
  constructor
  · rintro ⟨index, slot, found, yields, nothing⟩
    obtain ⟨placed, isFile⟩ := Option.filter_eq_some_iff.1 yields
    obtain ⟨name, rfl, joined⟩ := Option.map_eq_some_iff.1 placed
    refine ⟨index, name, slots_iff.1 found, joined, isFile, fun earlier before other named => ?_⟩
    simpa using nothing earlier before _ (slots_iff.2 named)
  · rintro ⟨index, name, named, rfl, isFile, nothing⟩
    refine ⟨index, some name, slots_iff.2 named, by simp [isFile], fun earlier before slot found => ?_⟩
    cases slot with
    | none => rfl
    | some other => simpa using nothing earlier before other (slots_iff.1 found)

lemma foundIn_eq_none_iff : lookup.foundIn disk directory = none ↔
    ∀ index name, lookup.Names index name → disk.isFile (directory.join name) = false := by
  unfold foundIn
  rw [findSome?_eq_none_iff]
  constructor
  · intro nothing index name named
    simpa using nothing _ (mem_of_getElem? (slots_iff.2 named))
  · intro nothing slot mem
    cases slot with
    | none => rfl
    | some name =>
      obtain ⟨index, found⟩ := mem_iff_getElem?.1 mem
      simpa using nothing index name (slots_iff.1 found)

lemma search_eq_some_iff : lookup.search disk paths = some path ↔
    ∃ number index candidate, lookup.Tries paths number index candidate ∧ disk.isFile candidate ∧
      disk.canonical? candidate = some path ∧
      ∀ number' index' other, lookup.Tries paths number' index' other → Earlier number' index' number index →
        disk.isFile other = false := by
  unfold search
  rw [find_candidates, Option.bind_eq_some_iff]
  constructor
  · rintro ⟨candidate, found, canonical⟩
    obtain ⟨number, directory, searched, foundHere, elsewhere⟩ := findSome_first.1 found
    obtain ⟨index, name, named, rfl, isFile, nothing⟩ := foundIn_eq_some_iff.1 foundHere
    refine ⟨number, index, _, tries_iff.2 ⟨directory, name, searched, named, rfl⟩, isFile, canonical, ?_⟩
    intro number' index' other tries earlier
    obtain ⟨directory', name', searched', named', rfl⟩ := tries_iff.1 tries
    rcases earlier with before | ⟨rfl, before⟩
    · exact foundIn_eq_none_iff.1 (elsewhere number' before directory' searched') index' name' named'
    · rw [searched] at searched'
      cases searched'
      exact nothing index' before name' named'
  · rintro ⟨number, index, candidate, tries, isFile, canonical, nothing⟩
    obtain ⟨directory, name, searched, named, rfl⟩ := tries_iff.1 tries
    refine ⟨_, findSome_first.2 ⟨number, directory, searched, foundIn_eq_some_iff.2 ⟨index, name, named, rfl,
      isFile, fun earlier before other named' => ?_⟩, fun earlier before directory' searched' => ?_⟩, canonical⟩
    · exact nothing number earlier _ (tries_iff.2 ⟨_, _, searched, named', rfl⟩) (.inr ⟨rfl, before⟩)
    · refine foundIn_eq_none_iff.2 fun index' name' named' => ?_
      exact nothing earlier index' _ (tries_iff.2 ⟨_, _, searched', named', rfl⟩) (.inl before)

lemma canonical_of_isFile (isFile : disk.isFile path) : ∃ canonical, disk.canonical? path = some canonical := by
  unfold Disk.isFile at isFile
  unfold Disk.canonical?
  cases located : disk.locate path with
  | error fault =>
    rw [located] at isFile
    cases isFile
  | ok found => exact ⟨_, rfl⟩

lemma search_eq_none_iff : lookup.search disk paths = none ↔
    ∀ number index candidate, lookup.Tries paths number index candidate → disk.isFile candidate = false := by
  unfold search
  rw [Option.bind_eq_none_iff, find_candidates]
  constructor
  · intro nothing number index candidate tries
    obtain ⟨directory, name, searched, named, rfl⟩ := tries_iff.1 tries
    cases found : (lookup.directories paths).findSome? (lookup.foundIn disk) with
    | none =>
      have here := findSome?_eq_none_iff.1 found directory (mem_of_getElem? searched)
      exact foundIn_eq_none_iff.1 here index name named
    | some first =>
      obtain ⟨_, directory', _, foundHere, _⟩ := findSome_first.1 found
      obtain ⟨_, _, _, _, isFile, _⟩ := foundIn_eq_some_iff.1 foundHere
      obtain ⟨canonical, same⟩ := canonical_of_isFile isFile
      rw [nothing first found] at same
      cases same
  · intro nothing first found
    obtain ⟨number, directory, searched, foundHere, _⟩ := findSome_first.1 found
    obtain ⟨index, name, named, rfl, isFile, _⟩ := foundIn_eq_some_iff.1 foundHere
    rw [nothing number index _ (tries_iff.2 ⟨_, _, searched, named, rfl⟩)] at isFile
    cases isFile

end Lookup

namespace Resolver

/-- What happens while a resolver is used. -/
inductive Event where
  | write (location : Location) (entry : Entry)
  | remove (location : Location)
  | ask (lookup : Lookup)

structure Session where
  disk : Disk
  resolver : Resolver

namespace Session

def begin (paths : List Path) (disk : Disk) : Session :=
  ⟨disk, .ofPaths paths⟩

def answer (session : Session) (lookup : Lookup) : Option Path :=
  (session.resolver.resolve session.disk lookup).1

def step (session : Session) : Event → Session
  | .write location entry => { session with disk := session.disk.add location entry }
  | .remove location => { session with disk := session.disk.remove location }
  | .ask lookup => { session with resolver := (session.resolver.resolve session.disk lookup).2 }

def run (session : Session) (events : List Event) : Session :=
  events.foldl step session

end Session

/-- The first lookup with a key in a row of events, and what has happened before it. -/
structure FirstAsked (events : List Event) (sought : Key) (past : List Event) (lookup : Lookup) : Prop where
  asked : past ++ [.ask lookup] <+: events
  same : key lookup = sought
  first : ∀ other, .ask other ∈ past → key other ≠ sought

/-- What is remembered of a key is what its first lookup found. -/
inductive Remembered (paths : List Path) (disk : Disk) (events : List Event) (sought : Key) :
    Option (Option Path) → Prop
  | never (unasked : ∀ other, .ask other ∈ events → key other ≠ sought) : Remembered paths disk events sought none
  | known {past lookup} (asked : FirstAsked events sought past lookup) : Remembered paths disk events sought
        (some (lookup.search ((Session.begin paths disk).run past).disk paths))

variable {paths : List Path} {disk : Disk} {events : List Event}

lemma Remembered.later (now : Remembered paths disk events sought remembered)
    (other : ∀ lookup, event = .ask lookup → key lookup = sought → remembered ≠ none) :
    Remembered paths disk (events ++ [event]) sought remembered := by
  cases now with
  | never unasked =>
    refine .never fun lookup mem same => ?_
    rcases mem_append.1 mem with before | last
    · exact unasked lookup before same
    · exact other lookup (mem_singleton.1 last).symm same rfl
  | known asked =>
    exact .known ⟨asked.asked.trans (prefix_append _ _), asked.same, asked.first⟩

lemma Session.run_append (session : Session) (events : List Event) (event : Event) :
    session.run (events ++ [event]) = (session.run events).step event :=
  foldl_append ..

lemma resolve_paths (resolver : Resolver) (disk) (lookup : Lookup) :
    (resolver.resolve disk lookup).2.paths = resolver.paths := by
  unfold resolve
  split <;> rfl

lemma run_paths (paths disk) (events : List Event) :
    ((Session.begin paths disk).run events).resolver.paths = paths := by
  induction events using reverseRecOn with
  | nil => rfl
  | append_singleton events event ih =>
    rw [Session.run_append]
    cases event with
    | write | remove => exact ih
    | ask lookup => exact (resolve_paths _ _ lookup).trans ih

lemma remembered_ask (lookup) {resolver : Resolver} (searched : resolver.paths = paths)
    (now : Remembered paths disk events sought (List.lookup sought resolver.answers)) :
    Remembered paths disk (events ++ [.ask lookup]) sought (List.lookup sought
      (resolver.resolve ((Session.begin paths disk).run events).disk lookup).2.answers) := by
  unfold resolve
  cases found : List.lookup (key lookup) resolver.answers with
  | some answer =>
    refine now.later ?_
    rintro _ ⟨⟩ same unknown
    rw [← same, found] at unknown
    cases unknown
  | none =>
    by_cases same : key lookup = sought
    · subst same
      rw [found] at now
      cases now with
      | never unasked =>
        rw [lookup_cons_self, searched]
        exact .known ⟨prefix_rfl, rfl, unasked⟩
    · rw [lookup_cons, beq_false_of_ne (Ne.symm same)]
      refine now.later ?_
      rintro _ ⟨⟩ again
      exact absurd again same

lemma run_remembered (paths disk) (events : List Event) (sought : Key) : Remembered paths disk events sought
      (lookup sought ((Session.begin paths disk).run events).resolver.answers) := by
  induction events using reverseRecOn with
  | nil => exact .never (by simp)
  | append_singleton events event ih =>
    rw [Session.run_append]
    cases event with
    | write | remove => exact ih.later (by simp)
    | ask lookup => exact remembered_ask lookup (run_paths paths disk events) ih

lemma answer_first (paths disk events lookup) :
    ∃ past first, FirstAsked (events ++ [.ask lookup]) (key lookup) past first ∧
      ((Session.begin paths disk).run events).answer lookup =
        first.search ((Session.begin paths disk).run past).disk paths := by
  have now := run_remembered paths disk events (key lookup)
  unfold Session.answer resolve
  cases found : List.lookup (key lookup) ((Session.begin paths disk).run events).resolver.answers with
  | some answer =>
    rw [found] at now
    cases now with
    | known asked =>
      exact ⟨_, _, ⟨asked.asked.trans (prefix_append _ _), asked.same, asked.first⟩, rfl⟩
  | none =>
    rw [found] at now
    cases now with
    | never unasked =>
      refine ⟨events, lookup, ⟨prefix_rfl, rfl, unasked⟩, ?_⟩
      rw [run_paths]

/-- Whatever is written and removed between the lookups, every answer of a resolver is what the search found
on the disk as it was at the first lookup with the same directory, name and extensions. A search gives the path
without dots of the first file in the order of the directories and, within a directory, of the names. -/
theorem answers_are_first_searches (paths : List Path) (disk : Disk) (events : List Event) (lookup : Lookup) :
    (∃ past first, FirstAsked (events ++ [.ask lookup]) (key lookup) past first ∧
      ((Session.begin paths disk).run events).answer lookup =
        first.search ((Session.begin paths disk).run past).disk paths) ∧
    (∀ (disk : Disk) (path : Path), lookup.search disk paths = some path ↔
      ∃ number index candidate, lookup.Tries paths number index candidate ∧ disk.isFile candidate = true ∧
        disk.canonical? candidate = some path ∧
        ∀ number' index' other, lookup.Tries paths number' index' other →
          Lookup.Earlier number' index' number index → disk.isFile other = false) ∧
    ∀ disk : Disk, lookup.search disk paths = none ↔
      ∀ number index candidate, lookup.Tries paths number index candidate → disk.isFile candidate = false := by
  refine ⟨?_, fun _ _ => Lookup.search_eq_some_iff, fun _ => Lookup.search_eq_none_iff⟩
  exact answer_first paths disk events lookup

/-- A page is found, removed, and asked for again with another spelling of its directory. -/
theorem removed_page_is_remembered :
    ((Session.begin [] ⟨[], [(["a"], .directory), (["a", "x.pug"], .text "")]⟩).run
      [.ask ⟨some ⟨"/a//"⟩, "x", ["pug"]⟩, .remove ["a", "x.pug"]]).answer
        ⟨some ⟨"/a/."⟩, "x", ["pug"]⟩ = some ⟨"/a/x.pug"⟩ := by
  obtain ⟨⟨past, first, asked, answered⟩, -, -⟩ := answers_are_first_searches []
    ⟨[], [(["a"], .directory), (["a", "x.pug"], .text "")]⟩
    [.ask ⟨some ⟨"/a//"⟩, "x", ["pug"]⟩, .remove ["a", "x.pug"]] ⟨some ⟨"/a/."⟩, "x", ["pug"]⟩
  cases past with
  | nil =>
    cases (List.cons_prefix_cons.1 asked.asked).1
    rw [answered]
    decide +kernel
  | cons event past =>
    cases (List.cons_prefix_cons.1 asked.asked).1
    exact absurd (by decide +kernel) (asked.first _ List.mem_cons_self)

end Resolver

end PugTemplate
