import PugTemplate.Proofs.Loading
import PugTemplate.Proofs.Structure

/-!
# The file a fault is in

Faults of the lexer and of the builder are about the text of one template. On its way out of nested
imports such a fault is attributed to the innermost file; every other failure of a load belongs to
the compiler. A fault that names no file is one of the text that was given.
-/

namespace PugTemplate

open Document

/-- A fault in the text of a template, rather than in how templates are put together. -/
def Diagnostic.isTextual (diagnostic : Diagnostic) : Bool :=
  diagnostic.stage != .compile

variable {diagnostic : Diagnostic}

lemma Document.parse_error_textual (failed : parse source = .error diagnostic) :
    diagnostic.path = none ∧ diagnostic.isTextual := by
  rcases parse_eq_error failed with built | read
  · have yields := Builder.stream_yields source
    rw [built] at yields
    have fault : Builder.Fault (Token.stream source).tokens diagnostic := yields
    cases fault with
    | indentWithoutParent | indentUnderLeaf | selfClosingCall => exact ⟨rfl, rfl⟩
  · obtain ⟨cause, pos, isLex, rfl⟩ := stream_failure_lexical read
    refine ⟨rfl, ?_⟩
    change (cause.stage != .compile) = true
    rw [isLex]
    rfl

namespace Compiler

/-- The file holds a template whose text has the fault that the diagnostic reports. -/
structure Holds (disk : Disk) (file : Path) (diagnostic : Diagnostic) : Prop where
  path : diagnostic.path = some file
  text : ∃ content, readFile disk file = .ok content ∧
    Document.parse content = .error { diagnostic with path := none }

/-- A failure over the text of a template names the file that holds it, unless it is one of the
template's own faults. -/
def Traced {α : Type} (disk : Disk) (own : Diagnostic → Prop) (result : Except Failure α) : Prop :=
  ∀ diagnostic, result = .error (.template diagnostic) → diagnostic.isTextual = true →
    (∃ file, Holds disk file diagnostic) ∨ own diagnostic

namespace Traced

variable {disk : Disk} {own : Diagnostic → Prop}

lemma ok (value : α) : Traced disk own (.ok value) := by
  intro diagnostic failed
  cases failed

lemma fault {cause : Cause} (compiling : cause.stage = .compile) (pos) :
    Traced disk own (.error (.template (cause.diagnose pos)) : Except Failure α) := by
  intro diagnostic failed textual
  cases failed
  change (cause.stage != .compile) = true at textual
  rw [compiling] at textual
  cases textual

lemma unreadable (path reason) : Traced disk own (.error (.unreadable path reason) : Except Failure α) := by
  intro diagnostic failed
  cases failed

lemma bind {first} {next : α → Except Failure β} (early : Traced disk own first)
    (late : ∀ value, first = .ok value → Traced disk own (next value)) :
    Traced disk own (first >>= next) := by
  cases first with
  | error failure =>
    intro diagnostic failed
    exact early diagnostic (congrArg _ (Except.error.inj failed))
  | ok value => exact late value rfl

lemma foldlM {step}
    (steps : ∀ state item, Traced disk own (step state item)) (items : List α) (state : β) :
    Traced disk own (items.foldlM step state) := by
  induction items generalizing state with
  | nil => exact .ok state
  | cons item more ih =>
    exact (steps state item).bind fun next _ => ih next

lemma foreign {ok : Except Failure α} (traced : Traced disk (fun _ => False) ok) : Traced disk own ok := by
  intro diagnostic failed textual
  exact (traced diagnostic failed textual).imp id False.elim

lemma blame {file} {content : String} (read : readFile disk file = .ok content) {ok : Except Failure α}
    (traced : Traced disk (fun diagnostic => parse content = .error diagnostic) ok) :
    Traced disk (fun _ => False) (blame file ok) := by
  intro diagnostic failed textual
  obtain ⟨failure, found, attributed⟩ := error_of_mapError failed
  cases failure with
  | unreadable path reason => cases attributed
  | template fault =>
    have same : fault.inFile (some file) = diagnostic := Failure.template.inj attributed
    subst same
    left
    rcases traced fault found textual with ⟨inner, holds⟩ | own
    · have kept : fault.inFile (some file) = fault := by
        rw [Diagnostic.inFile, holds.path, Option.orElse_eq_orElse, Option.orElse_some, ← holds.path]
      rw [kept]
      exact ⟨inner, holds⟩
    · have unplaced := (parse_error_textual own).1
      have struck : ({ fault.inFile (some file) with path := none } : Diagnostic) = fault := by
        rw [Diagnostic.inFile, ← unplaced]
      refine ⟨file, ?_, content, read, ?_⟩
      · rw [Diagnostic.inFile, unplaced]
        rfl
      · rw [struck]
        exact own

end Traced

variable {compiler : Compiler} {disk : Disk} {own : Diagnostic → Prop}

lemma readFile_traced (path) : Traced disk own (readFile disk path) := by
  unfold readFile
  split
  · exact .ok _
  · exact .unreadable _ _

lemma locate_traced (origin name pos) : Traced disk own (compiler.locate disk origin name pos) := by
  unfold locate
  dsimp only
  split
  · exact .ok _
  · exact .fault rfl _

lemma filterFile_traced (file name pos) : Traced disk own (compiler.filterFile disk file name pos) := by
  refine (readFile_traced file).bind fun content _ => ?_
  split
  · exact .fault rfl _
  · exact .ok _

section Loaders

variable {load : Loader}
  (loads : ∀ file pos, Traced disk (fun _ => False) (load file pos))

include loads

lemma includeFile_traced (origin doc id) :
    Traced disk (fun _ => False) (compiler.includeFile disk load origin doc id) := by
  unfold includeFile
  split
  · refine (locate_traced origin _ _).bind fun file _ => ?_
    split
    · exact (filterFile_traced file _ _).bind fun _ _ => .ok _
    · exact (loads file _).bind fun _ _ => .ok _
  · exact .ok _

lemma extendLayout_traced (origin doc) :
    Traced disk (fun _ => False) (compiler.extendLayout disk load origin doc) := by
  unfold extendLayout
  split
  · exact .ok _
  · split
    · refine (locate_traced origin _ _).bind fun file _ => ?_
      exact (loads file _).bind fun _ _ => .ok _
    · exact .ok _
  · exact .fault rfl _

/-- Of its own faults a template shows only those of its text. -/
theorem loadWith_traced (source origin) : Traced disk (fun diagnostic => parse source = .error diagnostic)
      (compiler.loadWith disk load source origin) := by
  have others : ∀ doc : Document, Traced disk (fun diagnostic => parse source = .error diagnostic)
      (doc.imports.foldlM (compiler.includeFile disk load origin) doc >>=
        compiler.extendLayout disk load origin) := by
    intro doc
    refine .foreign (.bind ?_ ?_)
    · exact .foldlM (includeFile_traced loads origin) doc.imports doc
    · exact fun complete _ => extendLayout_traced loads origin complete
  refine Traced.bind ?_ fun doc _ => others doc
  intro diagnostic failed textual
  obtain ⟨fault, found, same⟩ := error_of_mapError failed
  cases same
  exact .inr found

end Loaders

lemma loadWithin_traced (fuel source origin) : Traced disk (fun diagnostic => parse source = .error diagnostic)
      (compiler.loadWithin disk fuel source origin) := by
  induction fuel generalizing source origin with
  | zero => exact loadWith_traced (fun _ pos => .fault rfl pos) source origin
  | succ fuel ih =>
    refine loadWith_traced (fun file _ => ?_) source origin
    refine (readFile_traced file).bind fun content read => ?_
    exact .blame read (ih content (some file))

end Compiler

namespace Document

lemma expandAll_compiling {calls}
    (failed : expandAll defs quote state calls = .error diagnostic) :
    diagnostic.stage = .compile := by
  induction calls generalizing state with
  | nil => cases failed
  | cons call more ih =>
    unfold expandAll at failed
    split at failed
    · exact ih failed
    · rcases error_of_bind failed with here | ⟨⟨expanded, added⟩, -, later⟩
      · unfold expandCall at here
        split at here
        · cases here
          rfl
        · cases here
      · rcases error_of_bind later with further | ⟨done, -, finished⟩
        · exact ih further
        · cases finished

lemma expandLevels_compiling {calls}
    (failed : expandLevels defs limit quote fuel state calls = .error diagnostic) :
    diagnostic.stage = .compile := by
  induction fuel generalizing state calls with
  | zero =>
    unfold expandLevels at failed
    split at failed
    · cases failed
    · cases failed
      rfl
  | succ fuel ih =>
    unfold expandLevels at failed
    split at failed
    · cases failed
    · rcases error_of_bind failed with here | ⟨⟨expanded, next⟩, -, deeper⟩
      · exact expandAll_compiling here
      · exact ih deeper

end Document

namespace Compiler

variable {compiler : Compiler} {disk : Disk} {own : Diagnostic → Prop}

lemma expand_compiling (failed : compiler.expand doc = .error (.template diagnostic)) :
    diagnostic.isTextual = false := by
  obtain ⟨fault, found, same⟩ := error_of_mapError failed
  cases same
  rcases error_of_bind found with levels | ⟨expanded, -, finished⟩
  · rw [Diagnostic.isTextual, expandLevels_compiling levels]
    rfl
  · cases finished

lemma document_traced (source) : Traced disk (fun diagnostic => parse source = .error diagnostic)
    (compiler.document disk source) := by
  refine (loadWithin_traced _ source none).bind fun loaded _ => ?_
  intro diagnostic failed textual
  rw [expand_compiling failed] at textual
  cases textual

lemma documentFile_traced (path) : Traced disk (fun _ => False) (compiler.documentFile disk path) := by
  refine Traced.bind ?_ fun loaded _ => ?_
  · refine (readFile_traced path).bind fun content read => ?_
    exact .blame read (loadWithin_traced _ content (some path))
  · intro diagnostic failed textual
    obtain ⟨failure, found, attributed⟩ := error_of_mapError failed
    cases failure with
    | unreadable file reason => cases attributed
    | template fault =>
      cases attributed
      change fault.isTextual = true at textual
      rw [expand_compiling found] at textual
      cases textual

/-- A fault of the lexer or of the builder is attributed to the file whose text has it, however deep
that file is nested in imports. Where a text is compiled that is not in a file, a fault of its own
names no file. -/
theorem text_faults_name_their_file (compiler : Compiler) (disk : Disk) :
    (∀ path diagnostic, compiler.documentFile disk path = .error (.template diagnostic) →
      diagnostic.stage = .lex ∨ diagnostic.stage = .parse →
      ∃ file content, diagnostic.path = some file ∧ readFile disk file = .ok content ∧
        Document.parse content = .error { diagnostic with path := none }) ∧
    ∀ source diagnostic, compiler.document disk source = .error (.template diagnostic) →
      diagnostic.stage = .lex ∨ diagnostic.stage = .parse →
      (∃ file content, diagnostic.path = some file ∧ readFile disk file = .ok content ∧
        Document.parse content = .error { diagnostic with path := none }) ∨
      diagnostic.path = none ∧ Document.parse source = .error diagnostic := by
  have isTextual : ∀ diagnostic : Diagnostic, diagnostic.stage = .lex ∨ diagnostic.stage = .parse →
      diagnostic.isTextual = true := by
    intro diagnostic stage
    rcases stage with isLex | isParse
    · rw [Diagnostic.isTextual, isLex]
      rfl
    · rw [Diagnostic.isTextual, isParse]
      rfl
  constructor
  · intro path diagnostic failed stage
    rcases documentFile_traced path diagnostic failed (isTextual diagnostic stage) with
      ⟨file, held, content, read, fault⟩ | none
    · exact ⟨file, content, held, read, fault⟩
    · exact none.elim
  · intro source diagnostic failed stage
    rcases document_traced source diagnostic failed (isTextual diagnostic stage) with
      ⟨file, held, content, read, fault⟩ | own
    · exact .inl ⟨file, content, held, read, fault⟩
    · exact .inr ⟨(Document.parse_error_textual own).1, own⟩

/-- A page that extends a layout, which includes a list that is never closed. -/
def brokenDisk : Disk :=
  ⟨[], [(["page.pug"], .text "extends layout\nblock body\n"),
    (["layout.pug"], .text "main\n  block body\n  include list\n"),
    (["list.pug"], .text "ul\n  li(class=\"a\"\n")]⟩

def openList (file : Option Path) : Diagnostic :=
  Cause.openAttributeList.diagnose ⟨2, 4⟩ |>.inFile file

theorem broken_list_is_named :
    pageCompiler.documentFile brokenDisk ⟨"/page.pug"⟩ =
        .error (.template (openList (some ⟨"/list.pug"⟩))) ∧
      (∃ file content, (openList (some ⟨"/list.pug"⟩)).path = some file ∧
        readFile brokenDisk file = .ok content ∧
        Document.parse content = .error { openList (some ⟨"/list.pug"⟩) with path := none }) ∧
      pageCompiler.document brokenDisk "p(" =
        .error (.template (Cause.openAttributeList.diagnose ⟨1, 1⟩)) ∧
      Document.parse "p(" = .error (Cause.openAttributeList.diagnose ⟨1, 1⟩) := by
  obtain ⟨inFiles, inTexts⟩ := text_faults_name_their_file pageCompiler brokenDisk
  have nested : pageCompiler.documentFile brokenDisk ⟨"/page.pug"⟩ =
      .error (.template (openList (some ⟨"/list.pug"⟩))) := by
    decide +kernel
  have own : pageCompiler.document brokenDisk "p(" =
      .error (.template (Cause.openAttributeList.diagnose ⟨1, 1⟩)) := by
    decide +kernel
  refine ⟨nested, inFiles _ _ nested (.inl rfl), own, ?_⟩
  rcases inTexts _ _ own (.inl rfl) with ⟨file, content, held, -⟩ | ⟨-, failed⟩
  · cases held
  · exact failed

end Compiler

end PugTemplate
