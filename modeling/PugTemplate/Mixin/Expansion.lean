import PugTemplate.Diagnostic.Cause
import PugTemplate.Document.Copy
import PugTemplate.Mixin

/-!
# Expansion of mixins

Every call of a mixin is replaced by a copy of the mixin's body between code that binds the
arguments and code that restores the caller's variables. Calls that come with a copy are
expanded in turn, one level deeper, up to a limit. In the end the mixins themselves are removed.
-/

namespace PugTemplate

namespace NodeKind

def readText? : NodeKind → Option String
  | attr ⟨_, some value, _, _⟩ => some value
  | attr ⟨name, none, _, _⟩ => name
  | text value _ => some value
  | expression echo => some echo.value
  | statement (.code value _) | statement (.binding _ value) => some value
  | statement (.conditional _ subject) | statement (.branch subject) => subject
  | statement (.each _ _ subject) | statement (.caseOf subject) | statement (.whileLoop subject)
  | statement (.forLoop subject) => some subject
  | _ => none

def readsAttributes (kind : NodeKind) : Bool :=
  kind.readText?.any fun text => (Text.splitOnce "$attributes".toList text.toList).isSome

end NodeKind

namespace Document

def isInMixin (document : Document) (id : NodeId) : Bool :=
  (document.ancestors id).any fun above => (document.kind above).isMixin

def isLive (document : Document) (id : NodeId) : Bool :=
  document.isAttached id && !document.isInMixin id

def definitions (document : Document) : List (String × NodeId) :=
  (document.descendants root).filterMap fun id =>
    match document.kind id with
    | .statement (.mixin name) => some (name, id)
    | _ => none

/-- The mixin of a name: the last one counts. -/
def definition? (definitions : List (String × NodeId)) (name : String) : Option NodeId :=
  List.lookup name definitions.reverse

def definedNames (definitions : List (String × NodeId)) : List String :=
  ((definitions.map Prod.fst).eraseDups).mergeSort fun left right => !(right < left)

def parameters (document : Document) (definition : NodeId) : List Mixin.Parameter :=
  (document.attributes definition).filterMap fun id =>
    match document.kind id with
    | .attr ⟨some name, value, _, _⟩ => some (.ofText name value)
    | .attr ⟨none, some value, _, _⟩ => some (.ofText value none)
    | _ => none

def spreadCodes (document : Document) (assignment : NodeId) : List String :=
  (document.attributes assignment).filterMap fun id =>
    match document.kind id with
    | .attr entry => (entry.value <|> entry.name).map Text.trimmed
    | _ => none

def arguments (document : Document) (call : NodeId) : Mixin.Arguments :=
  let written := document.attributes call
  { positional := written.filterMap fun id =>
      match document.kind id with
      | .attr ⟨none, some value, _, _⟩ => some value
      | _ => none
    named := written.filterMap fun id =>
      match document.kind id with
      | .attr ⟨some name, value, _, _⟩ => some (name, value.getD "true")
      | _ => none
    spreads := written.flatMap fun id =>
      match document.kind id with
      | .assignment _ => document.spreadCodes id
      | _ => [] }

def readsAttributes (document : Document) (definition : NodeId) : Bool :=
  (document.descendants definition).any fun id =>
    (document.kind id).readsAttributes ||
      (document.attributes id).any fun owned =>
        (document.kind owned).readsAttributes ||
          (document.attributes owned).any fun inner => (document.kind inner).readsAttributes

def callBindings (document : Document) (definition call : NodeId) (quote : Char) :
    List (String × String) :=
  Mixin.bindings (document.parameters definition) (document.arguments call)
    (document.readsAttributes definition) quote

/-- Creates nodes that are not yet part of the tree, all at one position. -/
def createAll (document : Document) (position : Position) :
    List NodeKind → Document × List NodeId
  | [] => (document, [])
  | kind :: more =>
    let (created, id) := document.create kind position
    let (done, ids) := created.createAll position more
    (done, id :: ids)

/-- The nameless blocks in copies of a body, outside of mixins defined there. -/
def slots (document : Document) (copies : List NodeId) : List NodeId :=
  (copies.flatMap document.descendants).filter fun id =>
    document.kind id matches .statement (.block none _) && !document.isInMixin id

def fillSlots (document : Document) (content : List NodeId) : List NodeId → Document
  | [] => document
  | slot :: more =>
    let (copied, filling) := document.duplicateAll content
    (copied.setChildren slot filling).fillSlots content more

def instantiate (document : Document) (definition call : NodeId) (stash : String) (quote : Char) :
    Document × List NodeId :=
  let position := document.position call
  let bound := document.callBindings definition call quote
  let names := bound.map Prod.fst
  let line (code : String) : NodeKind := .statement (.code code false)
  let head := if bound.isEmpty then [] else
    line (Mixin.saveCode names stash quote) ::
      bound.map fun (name, value) => .statement (.binding name value)
  let tail := if bound.isEmpty then [] else [line (Mixin.restoreCode names stash)]
  let (opened, before) := document.createAll position head
  let (copied, copies) := opened.duplicateAll (opened.children definition)
  let content := copied.children call
  let filled := if content.isEmpty then copied else
    copied.fillSlots content (copied.slots copies)
  let (closed, after) := filled.createAll position tail
  (closed, before ++ copies ++ after)

/-- A document in which `scopes` calls have been expanded. -/
structure Expanding where
  document : Document
  scopes : Nat
  deriving DecidableEq, Repr

/-- Expands one call and gives the live calls that this brings into the tree. -/
def expandCall (definitions : List (String × NodeId)) (quote : Char) (state : Expanding)
    (call : NodeId) (name : String) : Except Diagnostic (Expanding × List NodeId) :=
  match definition? definitions name with
  | none =>
    .error ((Cause.mixinNotDefined name (definedNames definitions)).diagnose
      (state.document.position call))
  | some definition =>
    let scopes := state.scopes + 1
    let (filled, nodes) :=
      state.document.instantiate definition call (Mixin.stashName scopes) quote
    let replaced := filled.replace call nodes
    let added := (replaced.calls.drop state.document.calls.length).filter replaced.isLive
    .ok (⟨replaced, scopes⟩, added)

def pendingName? (document : Document) (call : NodeId) : Option String :=
  match document.kind call with
  | .statement (.call name) => if document.isLive call then some name else none
  | _ => none

/-- Expands calls one after the other and gives the calls of the next level. -/
def expandAll (definitions : List (String × NodeId)) (quote : Char) (state : Expanding) :
    List NodeId → Except Diagnostic (Expanding × List NodeId)
  | [] => .ok (state, [])
  | call :: more =>
    match state.document.pendingName? call with
    | none => expandAll definitions quote state more
    | some name => do
      let (expanded, added) ← expandCall definitions quote state call name
      let (done, others) ← expandAll definitions quote expanded more
      return (done, added ++ others)

/-- Expands calls and those that come with them, at most `remaining` levels deep. -/
def expandLevels (definitions : List (String × NodeId)) (limit : Nat) (quote : Char) :
    Nat → Expanding → List NodeId → Except Diagnostic Document
  | 0, state, calls =>
    match calls.find? fun call => (state.document.pendingName? call).isSome with
    | none => .ok state.document
    | some call =>
      let name := (state.document.pendingName? call).getD ""
      .error ((Cause.mixinsTooDeep name limit).diagnose (state.document.position call))
  | remaining + 1, state, calls =>
    if calls.isEmpty then
      .ok state.document
    else do
      let (expanded, next) ← expandAll definitions quote state calls
      expandLevels definitions limit quote remaining expanded next

def dropMixins (document : Document) : Document :=
  (document.mixins.filter document.isAttached).foldl detach document

def expandMixins (document : Document) (limit : Nat) (quote : Char) :
    Except Diagnostic Document := do
  let calls := document.calls.filter document.isLive
  let expanded ← expandLevels document.definitions limit quote limit ⟨document, 0⟩ calls
  return expanded.dropMixins

end Document

end PugTemplate
