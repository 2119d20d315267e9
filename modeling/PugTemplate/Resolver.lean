import PugTemplate.Disk

/-!
# Resolvers

A template is looked up by name in a list of directories. In each directory the name is tried
as it is and then with each extension. The answer is the path without dots of the first file
that exists. A resolver keeps its answers, so a repeated lookup does not see changes on disk.
-/

namespace PugTemplate

structure Lookup where
  base : Option Path
  name : String
  extensions : List String
  deriving DecidableEq, Repr

namespace Lookup

def dotted (extension : String) : String :=
  if extension.toList.head? == some '.' then extension else "." ++ extension

/-- The file names that are tried in a directory. An extension that the name already has is not
added again. -/
def fileNames (lookup : Lookup) : List String :=
  let missing := (lookup.extensions.map dotted).filter fun extension =>
    !extension.toList.isSuffixOf lookup.name.toList
  lookup.name :: missing.map (lookup.name ++ ·)

def directories (lookup : Lookup) (paths : List Path) : List Path :=
  if Path.isAbsolute ⟨lookup.name⟩ then [⟨""⟩] else lookup.base.toList ++ paths

def candidates (lookup : Lookup) (paths : List Path) : List Path :=
  (lookup.directories paths).flatMap fun directory => lookup.fileNames.map directory.join

def search (lookup : Lookup) (disk : Disk) (paths : List Path) : Option Path :=
  ((lookup.candidates paths).find? disk.isFile).bind disk.canonical?

end Lookup

namespace Resolver

/-- What tells one lookup from another. Directories are the same if their components are. -/
structure Key where
  base : Option (Bool × List (List Char))
  name : String
  extensions : List String
  deriving DecidableEq, Repr

def key (lookup : Lookup) : Key where
  base := lookup.base.map fun path => (path.isAbsolute, path.components.map Path.Component.name)
  name := lookup.name
  extensions := lookup.extensions

end Resolver

structure Resolver where
  paths : List Path
  answers : List (Resolver.Key × Option Path)
  deriving DecidableEq, Repr

namespace Resolver

def ofPaths (paths : List Path) : Resolver :=
  ⟨paths, []⟩

def resolve (resolver : Resolver) (disk : Disk) (lookup : Lookup) : Option Path × Resolver :=
  match List.lookup (key lookup) resolver.answers with
  | some answer => (answer, resolver)
  | none =>
    let answer := lookup.search disk resolver.paths
    (answer, { resolver with answers := (key lookup, answer) :: resolver.answers })

end Resolver

/-- A disk as it is seen through the answers that a resolver gave before. -/
structure View where
  disk : Disk
  answers : List (Resolver.Key × Option Path)
  deriving DecidableEq, Repr

instance : Coe Disk View :=
  ⟨fun disk => ⟨disk, []⟩⟩

end PugTemplate
