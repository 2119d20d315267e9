import PugTemplate.Document.Inheritance
import PugTemplate.Fragment.Emission
import PugTemplate.Mixin.Expansion
import PugTemplate.Options
import PugTemplate.Resolver

/-!
# The compiler

A template is parsed, the files it includes are put in their place, it is merged into
the layout it extends, its mixins are expanded, and code is generated from the result. Included
files and layouts are loaded in the same way; how deep they may nest is limited.
-/

namespace PugTemplate

structure Compiler where
  options : Options
  filters : Filters

namespace Compiler

def ofOptions (options : Options) : Compiler :=
  ⟨options, .standard⟩

def searched (base : Option Path) (paths : List Path) : List String :=
  match base.toList ++ paths with
  | [] => ["(no search paths configured)"]
  | directories => directories.map Path.text

/-- How a template is looked up that is named in the file `origin`. -/
def lookup (compiler : Compiler) (origin : Option Path) (name : String) : Lookup :=
  ⟨origin.bind Path.parent?, name, compiler.options.extensions⟩

def resolve (compiler : Compiler) (view : View) (lookup : Lookup) : Option Path × Resolver :=
  Resolver.resolve ⟨compiler.options.paths, view.answers⟩ view.disk lookup

def find (compiler : Compiler) (view : View) (lookup : Lookup) : Option Path :=
  (compiler.resolve view lookup).1

/-- The view after a lookup. -/
def ask (compiler : Compiler) (view : View) (lookup : Lookup) : View :=
  { view with answers := (compiler.resolve view lookup).2.answers }

/-- The file of a template that is named at a position, next to the file `origin` or in one of the
search directories. -/
def locate (compiler : Compiler) (view : View) (origin : Option Path) (name : String)
    (position : Position) : Except Failure Path :=
  match compiler.find view (compiler.lookup origin name) with
  | some file => .ok file
  | none =>
    let directories := searched (origin.bind Path.parent?) compiler.options.paths
    .error (.template ((Cause.templateNotFound name directories).diagnose position))

def readFile (view : View) (path : Path) : Except Failure String :=
  match view.disk.read path with
  | .ok content => .ok content
  | .error fault => .error (.unreadable path fault.reason)

/-- The filter for an included file: the one that is named, or the one for its extension. -/
def fileFilter? (compiler : Compiler) (file : Path) (named : Option String) : Option String :=
  named <|> file.extension?.bind compiler.options.filterMap.get?

def filterFile (compiler : Compiler) (view : View) (file : Path) (name : String)
    (position : Position) : Except Failure String := do
  let content ← readFile view file
  match compiler.filters.get? name with
  | none => throw (.template ((Cause.unknownFilter name compiler.filters.names).diagnose position))
  | some filter =>
    let dialect := compiler.options.dialect.getD .html
    return filter content ⟨dialect, compiler.options.format.pretty, some file⟩ []

/-- Loads the template in a file that is named at a position. -/
abbrev Loader := Path → Position → Except Failure Document

/-- Puts an included file in the place of the import that names it. -/
def includeFile (compiler : Compiler) (view : View) (load : Loader) (origin : Option Path)
    (document : Document) (id : NodeId) : Except Failure Document :=
  match document.isAttached id, document.kind id with
  | true, .statement (.importing .including name filter) => do
    let position := document.position id
    let file ← compiler.locate view origin name position
    match compiler.fileFilter? file filter with
    | some filter => do
      let content ← compiler.filterFile view file filter position
      let (created, text) := document.create (.text content true) position
      return created.replace id [text]
    | none => do
      let included ← load file position
      let (grafted, nodes) := document.graftChildren included Document.root
      return grafted.replace id nodes
  | _, _ => .ok document

/-- Merges a document into the layout it extends, if it extends one. -/
def extendLayout (compiler : Compiler) (view : View) (load : Loader) (origin : Option Path)
    (document : Document) : Except Failure Document :=
  match document.importsOf .extending with
  | [] => .ok document
  | [id] =>
    match document.kind id with
    | .statement (.importing _ name _) => do
      let position := document.position id
      let file ← compiler.locate view origin name position
      let layout ← load file position
      return layout.extend document
    | _ => .ok document
  | _ :: second :: _ =>
    .error (.template (Cause.secondExtends.diagnose (document.position second)))

/-- Parses a template and resolves its imports, given how other templates are loaded. -/
def loadWith (compiler : Compiler) (view : View) (load : Loader) (source : String)
    (origin : Option Path) : Except Failure Document := do
  let document ← (Document.parse source).mapError Failure.template
  let complete ← document.imports.foldlM (compiler.includeFile view load origin) document
  compiler.extendLayout view load origin complete

def blame {α : Type} (path : Path) (result : Except Failure α) : Except Failure α :=
  result.mapError fun failure => failure.inFile (some path)

/-- Loads a template whose imports nest at most `remaining` deep. -/
def loadWithin (compiler : Compiler) (view : View) :
    Nat → String → Option Path → Except Failure Document
  | 0, source, origin =>
    compiler.loadWith view (fun _ position =>
      let cause := Cause.templatesTooDeep compiler.options.maxDepth
      .error (.template (cause.diagnose position))) source origin
  | remaining + 1, source, origin =>
    compiler.loadWith view (fun file _ => do
      let content ← readFile view file
      blame file (compiler.loadWithin view remaining content (some file))) source origin

/-- How other templates are loaded, if they may nest `remaining` deep. -/
def loaderWithin (compiler : Compiler) (view : View) : Nat → Loader
  | 0 => fun _ position =>
    let cause := Cause.templatesTooDeep compiler.options.maxDepth
    .error (.template (cause.diagnose position))
  | remaining + 1 => fun file _ => do
    let content ← readFile view file
    blame file (compiler.loadWithin view remaining content (some file))

def load (compiler : Compiler) (view : View) (source : String) (origin : Option Path) :
    Except Failure Document :=
  compiler.loadWithin view compiler.options.maxDepth source origin

def loadFile (compiler : Compiler) (view : View) (path : Path) : Except Failure Document := do
  let content ← readFile view path
  blame path (compiler.load view content (some path))

def expand (compiler : Compiler) (document : Document) : Except Failure Document :=
  let options := compiler.options
  (document.expandMixins options.maxMixinDepth options.format.codeQuoteStyle).mapError
    Failure.template

/-- The document of a template, with imports resolved and mixins expanded. -/
def document (compiler : Compiler) (disk : Disk) (source : String) : Except Failure Document := do
  let loaded ← compiler.load disk source none
  compiler.expand loaded

def documentSeen (compiler : Compiler) (view : View) (path : Path) : Except Failure Document := do
  let loaded ← compiler.loadFile view path
  blame path (compiler.expand loaded)

def documentFile (compiler : Compiler) (disk : Disk) (path : Path) : Except Failure Document :=
  compiler.documentSeen disk path

def generate (compiler : Compiler) (document : Document) : Except Failure String :=
  let options := compiler.options
  (document.generate compiler.filters ⟨options.format, options.dialect, options.charset⟩).mapError
    Failure.template

def compile (compiler : Compiler) (disk : Disk) (source : String) : Except Failure String := do
  let document ← compiler.document disk source
  compiler.generate document

def compileSeen (compiler : Compiler) (view : View) (path : Path) : Except Failure String := do
  let document ← compiler.documentSeen view path
  blame path (compiler.generate document)

def compileFile (compiler : Compiler) (disk : Disk) (path : Path) : Except Failure String :=
  compiler.compileSeen disk path

/-- The lookup of a named template, with those that its file leads to. -/
def lookupsFor (compiler : Compiler) (view : View) (nested : Path → List Lookup)
    (origin : Option Path) (name : String) : List Lookup :=
  compiler.lookup origin name ::
    (compiler.find view (compiler.lookup origin name)).elim [] nested

def includeLookups (compiler : Compiler) (view : View) (nested : Path → List Lookup)
    (origin : Option Path) (document : Document) (id : NodeId) : List Lookup :=
  match document.isAttached id, document.kind id with
  | true, .statement (.importing .including name filter) =>
    compiler.lookupsFor view (fun file =>
      if (compiler.fileFilter? file filter).isSome then [] else nested file) origin name
  | _, _ => []

def extendLookups (compiler : Compiler) (view : View) (nested : Path → List Lookup)
    (origin : Option Path) (document : Document) : List Lookup :=
  match document.importsOf .extending with
  | [id] =>
    match document.kind id with
    | .statement (.importing _ name _) => compiler.lookupsFor view nested origin name
    | _ => []
  | _ => []

/-- The lookups for imports that are still to be resolved. They end with an include that fails. -/
def lookupsFrom (compiler : Compiler) (view : View) (load : Loader) (nested : Path → List Lookup)
    (origin : Option Path) : List NodeId → Document → List Lookup
  | [], document => compiler.extendLookups view nested origin document
  | id :: more, document =>
    compiler.includeLookups view nested origin document id ++
      match compiler.includeFile view load origin document id with
      | .ok next => compiler.lookupsFrom view load nested origin more next
      | .error _ => []

/-- The lookups for a template in a file, if others may nest less than `remaining` deep in it. -/
def lookupsWithin (compiler : Compiler) (view : View) : Nat → Path → List Lookup
  | 0, _ => []
  | remaining + 1, file =>
    match (readFile view file).toOption.bind fun content => (Document.parse content).toOption with
    | none => []
    | some document =>
      compiler.lookupsFrom view (compiler.loaderWithin view remaining)
        (compiler.lookupsWithin view remaining) (some file) document.imports document

/-- The lookups when a file is compiled, also if that fails. -/
def lookups (compiler : Compiler) (view : View) (path : Path) : List Lookup :=
  compiler.lookupsWithin view (compiler.options.maxDepth + 1) path

end Compiler

end PugTemplate
