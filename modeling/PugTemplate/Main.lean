import PugTemplate.Command

/-!
# The program

Takes from the disk what a request may read, carries the request out on that, and writes the
files and texts that it gives.
-/

namespace PugTemplate.Program

def observe (disk : Disk) (place : Location) : IO Disk := do
  match ← (IO.FS.realPath place.path.text).toBaseIO with
  | .error _ => return disk
  | .ok real =>
    if ← real.isDir then
      return disk.makeDirectory place
    match ← (IO.FS.readBinFile real).toBaseIO with
    | .ok bytes => return disk.add place ((String.fromUTF8? bytes).elim .binary .text)
    | .error _ => return disk.add place .binary

def observePath (disk : Disk) (path : Path) : IO Disk := do
  let mut place : Location := if path.isAbsolute then [] else disk.workingDirectory
  let mut seen := disk
  for piece in Text.fields (· == '/') path.text.toList do
    place := place.step piece
    seen ← observe seen place
  return seen

partial def observeBelow (disk : Disk) (place : Location) : IO Disk := do
  let mut seen ← observe disk place
  if seen.entry? place == some .directory then
    let real ← IO.FS.realPath place.path.text
    for entry in ← real.readDir do
      seen ← observeBelow seen (place ++ [entry.fileName])
  return seen

def importedNames (text : String) : List String :=
  match Document.parse text with
  | .error _ => []
  | .ok document => document.imports.filterMap fun id =>
    match document.kind id with
    | .statement (.importing _ name _) => some name
    | _ => none

partial def observeImports (options : Options) (disk : Disk) (visited : List Path) :
    List (Option Path × String) → IO Disk
  | [] => return disk
  | (origin, text) :: more => do
    let mut seen := disk
    let mut done := visited
    let mut pending := more
    for name in importedNames text do
      let lookup : Lookup := ⟨origin.bind Path.parent?, name, options.extensions⟩
      for candidate in lookup.candidates options.paths do
        seen ← observePath seen candidate
      if let some file := lookup.search seen options.paths then
        if !done.contains file then
          done := file :: done
          pending := (some file, seen.readOrEmpty file) :: pending
    observeImports options seen done pending

def observeOperand (disk : Disk) (path : Path) : IO Disk := do
  let seen ← observePath disk path
  match seen.locate path with
  | .ok (place, .directory) => observeBelow seen place
  | _ => return seen

def survey (request : Command.Request) (input : String) : IO Disk := do
  let current := (← IO.currentDir).toString
  let start : Location := (Text.fields (· == '/') current.toList).foldl Location.step []
  let disk := (⟨start, []⟩ : Disk).makeDirectory start
  match request with
  | .tokens (.file path) _ | .outline (.file path) => observePath disk path
  | .tokens .standardInput _ | .outline .standardInput => return disk
  | .compile request =>
    let configured ← request.config.elim (pure disk) (observePath disk)
    match Command.requestOptions configured request with
    | .error _ => return configured
    | .ok options =>
      match request.source with
      | .standardInput => observeImports options configured [] [(none, input)]
      | .file path =>
        let seen ← observeOperand configured path
        let files := if seen.isDirectory path then Command.templatesBelow seen path else [path]
        observeImports options seen [] (files.map fun file => (some file, seen.readOrEmpty file))

def readsInput : Command.Request → Bool
  | .compile request => request.source == .standardInput
  | .tokens source _ | .outline source => source == .standardInput

partial def readAll (stream : IO.FS.Stream) (text : String) : IO String := do
  let line ← stream.getLine
  if line.isEmpty then
    return text
  readAll stream (text ++ line)

/-- A number of hundredths or tenths with a point before its last digits. -/
def pointed (value places : Nat) : String :=
  let unit := Nat.pow 10 places
  let digits := toString (value % unit)
  toString (value / unit) ++ "." ++ String.ofList (List.replicate (places - digits.length) '0') ++
    digits

def elapsedText (micros : Nat) : String :=
  if micros < 1000 then toString micros ++ "μs"
  else if micros < 1000000 then pointed ((micros + 50) / 100) 1 ++ "ms"
  else pointed ((micros + 5000) / 10000) 2 ++ "s"

def writeChanges (before after : Disk) : IO Unit := do
  for (place, entry) in after.entries do
    if before.entry? place != some entry then
      if let .text content := entry then
        IO.FS.writeFile place.path.text content

def run (request : Command.Request) : IO UInt32 := do
  let start ← IO.monoNanosNow
  let input ← if readsInput request then readAll (← IO.getStdin) "" else pure ""
  let disk ← survey request input
  let report := request.run disk input
  writeChanges disk report.disk
  let terminal ← (← IO.getStderr).isTty
  let finish ← IO.monoNanosNow
  IO.print report.output
  IO.eprint (report.renderNotices terminal (elapsedText ((finish - start) / 1000)))
  return if report.succeeded then 0 else 1

end PugTemplate.Program

def main (arguments : List String) : IO UInt32 := do
  match PugTemplate.Command.Request.ofArguments arguments with
  | .ok request => PugTemplate.Program.run request
  | .error .helpWanted =>
    IO.print PugTemplate.Command.usage
    return 0
  | .error .misuse =>
    IO.eprint PugTemplate.Command.usage
    return 2
