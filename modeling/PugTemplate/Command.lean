import PugTemplate.Command.Arguments
import PugTemplate.Compiler
import PugTemplate.Diagnostic.Excerpt
import PugTemplate.Document.Outline
import PugTemplate.Json.Reading
import PugTemplate.Token.Listing

/-!
# Commands

What a command does with the disk, as a value: its output, its notices in order, whether it
succeeded, and the disk it leaves behind.
-/

namespace PugTemplate.Command

structure Complaint where
  message : String
  cause : Option String
  deriving DecidableEq, Repr

inductive Notice where
  /-- A failure with the text it is about and the name of that text. -/
  | failed (failure : Failure) (source filename : String)
  | wrote (path : Path)
  | summary (compiled failed : Nat)
  | complaint (complaint : Complaint)
  deriving DecidableEq, Repr

structure Report where
  output : String
  notices : List Notice
  succeeded : Bool
  disk : Disk
  deriving DecidableEq, Repr

/-- The text of a notice, in colors if it goes to a terminal, with the time that was needed. -/
def Notice.render (terminal : Bool) (elapsed : String) : Notice → String
  | failed failure source filename =>
    failure.render (if terminal then Palette.colored else Palette.plain) (fun _ => source) source
      filename
  | wrote path =>
    let mark := if terminal then "\x1b[32m✓\x1b[0m" else "✓"
    s!"  {mark} {path.text}\n"
  | summary compiled failures =>
    let files := if compiled == 1 then "file" else "files"
    let failing := if failures == 0 then "" else ", " ++ toString failures ++ " failed"
    let line := "✨ Compiled " ++ toString compiled ++ s!" {files}{failing} in {elapsed}"
    if terminal then s!"\n\x1b[1m{line}\x1b[0m\n" else s!"\n{line}\n"
  | complaint ⟨message, none⟩ => s!"Error: {message}\n"
  | complaint ⟨message, some cause⟩ => s!"Error: {message}\n\nCaused by:\n    {cause}\n"

namespace Report

def success (disk : Disk) (output : String) (notices : List Notice) : Report :=
  ⟨output, notices, true, disk⟩

def failure (disk : Disk) (notices : List Notice) (complaint : Complaint) : Report :=
  ⟨"", notices ++ [.complaint complaint], false, disk⟩

def renderNotices (report : Report) (terminal : Bool) (elapsed : String) : String :=
  String.join (report.notices.map (Notice.render terminal elapsed))

end Report

/-- The notice of a failure in a text that is called `filename`. A failure that belongs to a file
is shown with the text of that file. -/
def failureNotice (disk : Disk) (failure : Failure) (source filename : String) : Notice :=
  match failure.diagnostic?.bind Diagnostic.path with
  | some path => .failed failure (disk.readOrEmpty path) filename
  | none => .failed failure source filename

def compileComplaint (filename : String) : Complaint :=
  ⟨s!"failed to compile {filename}", none⟩

def readConfig (disk : Disk) (path : Path) : Except Complaint Options :=
  match disk.read path with
  | .error fault => .error ⟨s!"failed to read config {path.text}", some fault.reason⟩
  | .ok text =>
    match (Json.parse? text).bind Options.ofJson? with
    | some options => .ok options
    | none => .error ⟨s!"invalid config {path.text}", some "these are not compiler options"⟩

/-- The options of a request: those of the file, with what the request itself says. -/
def requestOptions (disk : Disk) (request : CompileRequest) : Except Complaint Options := do
  let options ← request.config.elim (.ok Options.standard) (readConfig disk)
  let format := options.format
  return { options with
    paths := options.paths ++ request.paths
    extensions := if request.extensions.isEmpty then options.extensions else request.extensions
    format := { format with pretty := format.pretty || request.pretty } }

def isTemplate (path : Path) : Bool :=
  path.extension?.any ["jade", "pug"].contains

structure Compilation extends View where
  notices : List Notice
  complaint : Option Complaint
  deriving DecidableEq, Repr

/-- Compiles a template to the file next to it. -/
def compileOne (compiler : Compiler) (view : View) (path : Path) : Compilation :=
  let disk := view.disk
  let after := (compiler.lookups view path).foldl compiler.ask view
  match compiler.compileSeen view path with
  | .error failure =>
    let notice := failureNotice disk failure (disk.readOrEmpty path) path.text
    ⟨after, [notice], some (compileComplaint path.text)⟩
  | .ok code =>
    let target := path.withExtension "php"
    match disk.write target code with
    | .ok written => ⟨{ after with disk := written }, [.wrote target], none⟩
    | .error fault => ⟨after, [], some ⟨s!"failed to write {target.text}", some fault.reason⟩⟩

structure Tally extends View where
  notices : List Notice
  compiled : Nat
  failed : Nat
  deriving DecidableEq, Repr

def Tally.add (tally : Tally) (compilation : Compilation) : Tally where
  toView := compilation.toView
  notices := tally.notices ++ compilation.notices
  compiled := tally.compiled + if compilation.complaint.isNone then 1 else 0
  failed := tally.failed + if compilation.complaint.isSome then 1 else 0

def compileAll (compiler : Compiler) (disk : Disk) (visited : List Path) : Tally :=
  visited.foldl (fun tally path => tally.add (compileOne compiler tally.toView path)) ⟨disk, [], 0, 0⟩

/-- The templates below a directory, in the order of their names. -/
def templatesBelow (disk : Disk) (directory : Path) : List Path :=
  match disk.locate directory with
  | .error _ => []
  | .ok (location, _) =>
    let paths := (disk.filesBelow location).map fun place =>
      (place.drop location.length).foldl Path.join directory
    paths.filter isTemplate

def compileDirectory (compiler : Compiler) (disk : Disk) (directory : Path) : Report :=
  let tally := compileAll compiler disk (templatesBelow disk directory)
  let total := tally.compiled + tally.failed
  if total == 0 then
    .failure disk [] ⟨s!"no .jade or .pug files found in {directory.text}", none⟩
  else
    let notices := tally.notices ++ [.summary tally.compiled tally.failed]
    if tally.failed == 0 then
      .success tally.disk "" notices
    else
      let counts := toString tally.failed ++ " of " ++ toString total
      .failure tally.disk notices ⟨counts ++ " templates failed to compile", none⟩

def compilePath (compiler : Compiler) (disk : Disk) (path : Path) : Report :=
  if disk.isFile path then
    if isTemplate path then
      let compilation := compileOne compiler disk path
      match compilation.complaint with
      | some complaint => .failure compilation.disk compilation.notices complaint
      | none => .success compilation.disk "" (compilation.notices ++ [.summary 1 0])
    else
      .failure disk [] ⟨s!"{path.text} is not a .jade or .pug file", none⟩
  else if disk.isDirectory path then
    compileDirectory compiler disk path
  else
    .failure disk [] ⟨s!"{path.text} does not exist", none⟩

def compileInput (compiler : Compiler) (disk : Disk) (input : String) : Report :=
  match compiler.compile disk input with
  | .ok code => .success disk code []
  | .error failure =>
    .failure disk [failureNotice disk failure input "<stdin>"] (compileComplaint "<stdin>")

def readSource (disk : Disk) (input : String) : Source → Except Complaint String
  | .standardInput => .ok input
  | .file path =>
    (disk.read path).mapError fun fault => ⟨s!"failed to read {path.text}", some fault.reason⟩

def showSource (disk : Disk) (input : String) (source : Source)
    (display : String → Except Diagnostic String) : Report :=
  match readSource disk input source with
  | .error complaint => .failure disk [] complaint
  | .ok text =>
    match display text with
    | .ok output => .success disk output []
    | .error diagnostic =>
      .failure disk [.failed (.template diagnostic) text "<input>"] (compileComplaint "<input>")

def listTokens (json : Bool) (text : String) : Except Diagnostic String := do
  let tokens ← Token.tokenize text
  if json then
    return (Json.array (tokens.map Token.toJson)).pretty ++ "\n"
  else
    return String.join (tokens.map fun token => token.listing ++ "\n")

def Request.run (request : Request) (disk : Disk) (input : String) : Report :=
  match request with
  | .compile request =>
    match requestOptions disk request with
    | .error complaint => .failure disk [] complaint
    | .ok options =>
      let compiler := Compiler.ofOptions options
      match request.source with
      | .standardInput => compileInput compiler disk input
      | .file path => compilePath compiler disk path
  | .tokens source json => showSource disk input source (listTokens json)
  | .outline source =>
    showSource disk input source fun text => (Document.parse text).map Document.outline

def usage : String :=
  "Compile indentation-based templates\n\n" ++
  "Usage: jade [-v] compile [--pretty] [-I DIR] [--ext EXT] [--config FILE] (PATH | --stdin)\n" ++
  "       jade [-v] tokens [--json] (PATH | --stdin)\n" ++
  "       jade [-v] ast (PATH | --stdin)\n"

end PugTemplate.Command
