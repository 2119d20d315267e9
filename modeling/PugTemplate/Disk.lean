import PugTemplate.Path

/-!
# Disks

The files and directories that the compiler can see. A path is followed from the root or from
the working directory, name by name, and every name but the last has to be a directory. The
lengths of names and paths are limited.
-/

namespace PugTemplate

/-- The names that lead from the root directory to an entry. -/
abbrev Location := List String

inductive Entry where
  | text (content : String)
  | binary
  | directory
  deriving DecidableEq, Repr

structure Disk where
  workingDirectory : Location
  entries : List (Location × Entry)
  deriving DecidableEq, Repr

namespace Location

def path (location : Location) : Path :=
  ⟨"/" ++ "/".intercalate location⟩

def step (location : Location) (piece : List Char) : Location :=
  if piece.isEmpty || piece == ['.'] then location
  else if piece == ['.', '.'] then location.dropLast
  else location ++ [String.ofList piece]

end Location

namespace Disk

inductive Fault where
  | missing
  | notDirectory
  | isDirectory
  | notText
  | nameTooLong
  | holdsNull
  deriving DecidableEq, Repr

def Fault.reason : Fault → String
  | missing => "No such file or directory (os error 2)"
  | notDirectory => "Not a directory (os error 20)"
  | isDirectory => "Is a directory (os error 21)"
  | notText => "stream did not contain valid UTF-8"
  | nameTooLong => "File name too long (os error 36)"
  | holdsNull => "file name contained an unexpected NUL byte"

/-- What is at a location; the root is always a directory. -/
def entry? (disk : Disk) (location : Location) : Option Entry :=
  if location.isEmpty then some .directory else List.lookup location disk.entries

def longestName : Nat := 255

def longestPath : Nat := 4095

def walk (disk : Disk) (location : Location) : List (List Char) → Except Fault (Location × Entry)
  | [] =>
    match disk.entry? location with
    | some entry => .ok (location, entry)
    | none => .error .missing
  | piece :: more =>
    match disk.entry? location with
    | some .directory =>
      if (String.ofList piece).utf8ByteSize > longestName then .error .nameTooLong
      else disk.walk (location.step piece) more
    | some _ => .error .notDirectory
    | none => .error .missing

def locate (disk : Disk) (path : Path) : Except Fault (Location × Entry) :=
  if path.text.isEmpty then
    .error .missing
  else if path.text.toList.contains '\x00' then
    .error .holdsNull
  else if path.text.utf8ByteSize > longestPath then
    .error .nameTooLong
  else
    disk.walk (if path.isAbsolute then [] else disk.workingDirectory)
      (Text.fields (· == '/') path.text.toList)

def isFile (disk : Disk) (path : Path) : Bool :=
  match disk.locate path with
  | .ok (_, .directory) => false
  | .ok _ => true
  | .error _ => false

def isDirectory (disk : Disk) (path : Path) : Bool :=
  match disk.locate path with
  | .ok (_, .directory) => true
  | _ => false

def canonical? (disk : Disk) (path : Path) : Option Path :=
  (disk.locate path).toOption.map fun (location, _) => location.path

def read (disk : Disk) (path : Path) : Except Fault String :=
  match disk.locate path with
  | .ok (_, .text content) => .ok content
  | .ok (_, .binary) => .error .notText
  | .ok (_, .directory) => .error .isDirectory
  | .error fault => .error fault

def readOrEmpty (disk : Disk) (path : Path) : String :=
  (disk.read path).toOption.getD ""

def put (disk : Disk) (location : Location) (entry : Entry) : Disk :=
  let others := disk.entries.filter fun other => other.1 != location
  { disk with entries := (location, entry) :: others }

def remove (disk : Disk) (location : Location) : Disk :=
  { disk with entries := disk.entries.filter fun other => other.1 != location }

def makeDirectory (disk : Disk) (location : Location) : Disk :=
  (List.range (location.length + 1)).foldl (fun made depth =>
    match made.entry? (location.take depth) with
    | some .directory => made
    | _ => made.put (location.take depth) .directory) disk

def add (disk : Disk) (location : Location) (entry : Entry) : Disk :=
  match entry with
  | .directory => disk.makeDirectory location
  | _ => (disk.makeDirectory location.dropLast).put location entry

/-- Writes a file whose directory exists. -/
def write (disk : Disk) (path : Path) (content : String) : Except Fault Disk :=
  match disk.locate path, path.parent?, path.fileName? with
  | .ok (_, .directory), _, _ => .error .isDirectory
  | .ok (location, _), _, _ => .ok (disk.put location (.text content))
  | .error .missing, some parent, some name =>
    match disk.locate (if parent.text.isEmpty then ⟨"."⟩ else parent) with
    | .ok (location, .directory) => .ok (disk.put (location ++ [name]) (.text content))
    | .ok _ => .error .notDirectory
    | .error fault => .error fault
  | .error fault, _, _ => .error fault

def filesBelow (disk : Disk) (location : Location) : List Location :=
  let files := disk.entries.filterMap fun (place, entry) =>
    if location.isPrefixOf place && entry != .directory then some place else none
  files.mergeSort fun left right => !(right < left)

end Disk

end PugTemplate
