import PugTemplate.Compiler
import PugTemplate.Proofs.Success
import Mathlib.Data.List.Basic

/-!
# Redacted documents

A verbatim text is the result of a filter. No pass looks at it, except that a mixin is searched for
the variable that holds its attributes. So all but this can be struck out of verbatim texts before a
pass or after it, and the outcome is the same.
-/

namespace PugTemplate

open List

/-- Whether a text mentions the variable for the attributes of a mixin. -/
def Text.mentionsAttributes (text : String) : Bool :=
  (Text.splitOnce "$attributes".toList text.toList).isSome

namespace NodeKind

def redact : NodeKind → NodeKind
  | text value true => text (if Text.mentionsAttributes value then "$attributes" else "") true
  | kind => kind

lemma redact_cases (kind : NodeKind) :
    kind.redact = kind ∨ ∃ value other, kind = .text value true ∧ kind.redact = .text other true := by
  unfold redact
  split
  · exact .inr ⟨_, _, rfl, rfl⟩
  · exact .inl rfl

variable (kind : NodeKind)

@[simp] lemma redact_statement (line) : redact (.statement line) = .statement line := rfl

lemma view_redact {β : Type} (view : NodeKind → β)
    (blind : ∀ value other, view (.text value true) = view (.text other true)) :
    view kind.redact = view kind := by
  rcases kind.redact_cases with same | ⟨value, other, was, is⟩
  · rw [same]
  · rw [is, was, blind]

@[simp] lemma isBlock_redact : kind.redact.isBlock = kind.isBlock :=
  kind.view_redact isBlock fun _ _ => rfl

@[simp] lemma isImport_redact : kind.redact.isImport = kind.isImport :=
  kind.view_redact isImport fun _ _ => rfl

@[simp] lemma isMixin_redact : kind.redact.isMixin = kind.isMixin :=
  kind.view_redact isMixin fun _ _ => rfl

@[simp] lemma isCall_redact : kind.redact.isCall = kind.isCall :=
  kind.view_redact isCall fun _ _ => rfl

@[simp] lemma readsAttributes_redact : kind.redact.readsAttributes = kind.readsAttributes := by
  unfold redact
  split
  · rename_i value
    change Text.mentionsAttributes _ = Text.mentionsAttributes value
    cases Text.mentionsAttributes value with
    | true | false => decide
  · rfl

end NodeKind

def Node.redact (node : Node) : Node :=
  { node with kind := node.kind.redact }

def Subtree.redact (subtree : Subtree) : Subtree :=
  ⟨subtree.nodes.map Node.redact⟩

namespace Document

def redact (doc : Document) : Document :=
  { doc with nodes := doc.nodes.map Node.redact }

variable (doc : Document)

@[simp] lemma size_redact : doc.redact.size = doc.size :=
  Array.size_map

@[simp] lemma calls_redact : doc.redact.calls = doc.calls := rfl

@[simp] lemma node_redact (id) : doc.redact.node id = (doc.node id).redact := by
  simp only [node, redact, Array.getD_eq_getD_getElem?, Array.getElem?_map]
  cases doc.nodes[id]? with
  | none | some => rfl

@[simp] lemma kind_redact (id) : doc.redact.kind id = (doc.kind id).redact := by
  simp [kind, Node.redact]

@[simp] lemma parent_redact (id) : doc.redact.parent id = doc.parent id := by
  simp [parent, Node.redact]

@[simp] lemma children_redact (id) : doc.redact.children id = doc.children id := by
  simp [children, Node.redact]

@[simp] lemma attributes_redact (id) :
    doc.redact.attributes id = doc.attributes id := by
  simp [attributes, Node.redact]

@[simp] lemma position_redact (id) : doc.redact.position id = doc.position id := by
  simp [position, Node.redact]

lemma modify_redact (id) (blind : ∀ node, (change node).redact = change node.redact) :
    doc.redact.modify id change = (doc.modify id change).redact := by
  have nodes : (doc.nodes.map Node.redact).modify id change = (doc.nodes.modify id change).map Node.redact := by
    apply Array.ext_getElem?
    intro place
    simp only [Array.getElem?_map, Array.getElem?_modify]
    split
    · cases doc.nodes[place]? with
      | none => rfl
      | some node => exact congrArg some (blind node).symm
    · rfl
  simp only [modify, redact, nodes]

@[simp] lemma push_redact (node) : doc.redact.push node.redact = (doc.push node).redact := by
  simp [push, redact, size, Node.redact]

@[simp] lemma create_redact (kind pos) : doc.redact.create kind.redact pos =
      ((doc.create kind pos).1.redact, (doc.create kind pos).2) := by
  have single : Node.single kind.redact pos = (Node.single kind pos).redact := rfl
  simp only [create, single, push_redact, size_redact]

lemma relevelWithin_redact (id level) :
    relevelWithin bound doc.redact id level = (relevelWithin bound doc id level).redact := by
  induction bound generalizing doc id level with
  | zero => rfl
  | succ bound ih =>
    have blind : ∀ node : Node, { node with level := level }.redact =
        { node.redact with level := level } := fun _ => rfl
    simp only [relevelWithin, node_redact]
    rw [modify_redact doc id blind]
    exact foldl_hom redact fun changed child => ih changed child (level + 1)

@[simp] lemma relevel_redact (id level) :
    doc.redact.relevel id level = (doc.relevel id level).redact := by
  rw [relevel, size_redact, relevelWithin_redact, relevel]

@[simp] lemma attach_redact (parent child) :
    doc.redact.attach parent child = (doc.attach parent child).redact := by
  have blind : ∀ node : Node, { node with parent := some parent }.redact =
      { node.redact with parent := some parent } := fun _ => rfl
  simp only [attach]
  rw [modify_redact doc child blind, node_redact, relevel_redact]
  rfl

@[simp] lemma attachAll_redact (parent) :
    doc.redact.attachAll parent ids = (doc.attachAll parent ids).redact :=
  foldl_hom redact fun changed id => changed.attach_redact parent id

@[simp] lemma replace_redact (id replacements) :
    doc.redact.replace id replacements = (doc.replace id replacements).redact := by
  simp only [replace, parent_redact]
  cases doc.parent id with
  | none => rfl
  | some parent =>
    dsimp only
    rw [attachAll_redact, modify_redact, modify_redact]
    · exact fun _ => rfl
    · exact fun _ => rfl

@[simp] lemma setChildren_redact (id children) :
    doc.redact.setChildren id children = (doc.setChildren id children).redact := by
  have released : ∀ (ids : List Nat) (changed : Document), ids.foldl (fun changed child =>
        changed.modify child fun node => { node with parent := none }) changed.redact =
      (ids.foldl (fun changed child =>
        changed.modify child fun node => { node with parent := none }) changed).redact := by
    intro ids changed
    apply foldl_hom redact
    intro changed child
    exact modify_redact changed child fun _ => rfl
  simp only [setChildren, children_redact]
  rw [modify_redact, released, attachAll_redact, modify_redact]
  · exact fun _ => rfl
  · exact fun _ => rfl

@[simp] lemma insertChildren_redact (parent) : doc.redact.insertChildren parent index ids =
      (doc.insertChildren parent index ids).redact := by
  simp only [insertChildren, attachAll_redact]
  rw [modify_redact]
  exact fun _ => rfl

lemma ancestorsWithin_redact (id) : ancestorsWithin bound doc.redact id = ancestorsWithin bound doc id := by
  induction bound generalizing id with
  | zero => rfl
  | succ bound ih => simp only [ancestorsWithin, parent_redact, ih]

@[simp] lemma ancestors_redact (id) : doc.redact.ancestors id = doc.ancestors id := by
  rw [ancestors, size_redact, ancestorsWithin_redact, ancestors]

@[simp] lemma isAttached_redact (id) :
    doc.redact.isAttached id = doc.isAttached id := by
  rw [isAttached, ancestors_redact, isAttached]

lemma descendantsWithin_redact (id) : descendantsWithin bound doc.redact id = descendantsWithin bound doc id := by
  induction bound generalizing id with
  | zero => rfl
  | succ bound ih =>
    simp only [descendantsWithin, children_redact, funext ih]

@[simp] lemma descendants_redact (id) :
    doc.redact.descendants id = doc.descendants id := by
  rw [descendants, size_redact, descendantsWithin_redact, descendants]

lemma preorderWithin_redact (id) : preorderWithin bound doc.redact id = preorderWithin bound doc id := by
  induction bound generalizing id with
  | zero => rfl
  | succ bound ih =>
    simp only [preorderWithin, node_redact, funext ih]
    rfl

@[simp] lemma preorder_redact (id) : doc.redact.preorder id = doc.preorder id := by
  rw [preorder, size_redact, preorderWithin_redact, preorder]

@[simp] lemma subtree_redact (id) :
    doc.redact.subtree id = (doc.subtree id).redact := by
  simp only [subtree, preorder_redact, node_redact, Subtree.redact, map_map]
  rfl

@[simp] lemma graft_redact (subtree) : doc.redact.graft subtree.redact =
      ((doc.graft subtree).1.redact, (doc.graft subtree).2) := by
  simp only [graft, Subtree.redact, foldl_map, size_redact]
  rw [foldl_hom redact fun changed node =>
    changed.push_redact (node.rename fun id => some (id + doc.size)), relevel_redact]

@[simp] lemma graftAll_redact : doc.redact.graftAll (subtrees.map Subtree.redact) =
      ((doc.graftAll subtrees).1.redact, (doc.graftAll subtrees).2) := by
  induction subtrees generalizing doc with
  | nil => rfl
  | cons subtree more ih =>
    simp only [map_cons, graftAll, graft_redact, ih]

@[simp] lemma graftChildren_redact (source parent) :
    doc.redact.graftChildren source.redact parent =
      ((doc.graftChildren source parent).1.redact, (doc.graftChildren source parent).2) := by
  have subtrees : (source.redact.children parent).map source.redact.subtree =
      ((source.children parent).map source.subtree).map Subtree.redact := by
    rw [children_redact, map_map]
    exact map_congr_left fun id _ => source.subtree_redact id
  rw [graftChildren, subtrees, graftAll_redact, graftChildren]

@[simp] lemma duplicateAll_redact : doc.redact.duplicateAll ids =
      ((doc.duplicateAll ids).1.redact, (doc.duplicateAll ids).2) := by
  induction ids generalizing doc with
  | nil => rfl
  | cons id more ih =>
    simp only [duplicateAll, duplicate, subtree_redact, graft_redact, ih]

@[simp] lemma importsOf_redact (kind : ImportKind) :
    doc.redact.importsOf kind = doc.importsOf kind := by
  apply filter_congr
  intro id _
  rw [isAttached_redact, kind_redact]
  rcases (doc.kind id).redact_cases with same | ⟨value, other, was, is⟩
  · rw [same]
  · rw [is, was]

lemma graftDeclarations_redact : doc.redact.graftDeclarations child.redact ids =
    ((doc.graftDeclarations child ids).1.redact, (doc.graftDeclarations child ids).2) := by
  induction ids generalizing doc with
  | nil => rfl
  | cons id more ih =>
    rw [graftDeclarations, graftDeclarations, kind_redact]
    rcases (child.kind id).redact_cases with same | ⟨value, other, was, is⟩
    · rw [same]
      split
      iterate 3
        · simp only [subtree_redact, graft_redact, ih]
      · exact ih doc
    · rw [was]
      exact ih doc

@[simp] lemma adoptDeclarations_redact :
    doc.redact.adoptDeclarations child.redact = (doc.adoptDeclarations child).redact := by
  simp only [adoptDeclarations, children_redact, graftDeclarations_redact, insertChildren_redact]

@[simp] lemma contribution?_redact (id) :
    doc.redact.contribution? id = doc.contribution? id := by
  simp only [contribution?, isAttached_redact, ancestors_redact, kind_redact, NodeKind.isBlock_redact]
  rcases (doc.kind id).redact_cases with same | ⟨value, other, was, is⟩
  · rw [same]
  · rw [is, was]

@[simp] lemma blocksNamed_redact : doc.redact.blocksNamed name = doc.blocksNamed name := by
  apply filter_congr
  intro id _
  rw [isAttached_redact, kind_redact]
  rcases (doc.kind id).redact_cases with same | ⟨value, other, was, is⟩
  · rw [same]
  · rw [is, was]

@[simp] lemma mergeBlock_redact (child id mode target) :
    doc.redact.mergeBlock child.redact id mode target = (doc.mergeBlock child id mode target).redact := by
  simp only [mergeBlock, graftChildren_redact, children_redact, setChildren_redact]

@[simp] lemma contribute_redact (child id) :
    doc.redact.contribute child.redact id = (doc.contribute child id).redact := by
  simp only [contribute, contribution?_redact]
  split
  · rfl
  · rw [blocksNamed_redact]
    apply foldl_hom redact
    intro merged target
    exact merged.mergeBlock_redact child id _ target

@[simp] lemma extend_redact : doc.redact.extend child.redact = (doc.extend child).redact := by
  simp only [extend, adoptDeclarations_redact]
  apply foldl_hom redact
  intro merged id
  exact merged.contribute_redact child id

@[simp] lemma isInMixin_redact (id) :
    doc.redact.isInMixin id = doc.isInMixin id := by
  simp only [isInMixin, ancestors_redact, kind_redact, NodeKind.isMixin_redact]

@[simp] lemma isLive_redact (id) : doc.redact.isLive id = doc.isLive id := by
  rw [isLive, isAttached_redact, isInMixin_redact, isLive]

@[simp] lemma definitions_redact : doc.redact.definitions = doc.definitions := by
  rw [definitions, descendants_redact]
  apply filterMap_congr
  intro id _
  rw [kind_redact]
  rcases (doc.kind id).redact_cases with same | ⟨value, other, was, is⟩
  · rw [same]
  · rw [is, was]

@[simp] lemma parameters_redact : doc.redact.parameters defn = doc.parameters defn := by
  rw [parameters, attributes_redact]
  apply filterMap_congr
  intro id _
  rw [kind_redact]
  rcases (doc.kind id).redact_cases with same | ⟨value, other, was, is⟩
  · rw [same]
  · rw [is, was]

@[simp] lemma spreadCodes_redact :
    doc.redact.spreadCodes assignment = doc.spreadCodes assignment := by
  rw [spreadCodes, attributes_redact]
  apply filterMap_congr
  intro id _
  rw [kind_redact]
  rcases (doc.kind id).redact_cases with same | ⟨value, other, was, is⟩
  · rw [same]
  · rw [is, was]

@[simp] lemma arguments_redact : doc.redact.arguments call = doc.arguments call := by
  simp only [arguments, attributes_redact, kind_redact, spreadCodes_redact, Mixin.Arguments.mk.injEq]
  refine ⟨filterMap_congr fun id _ => ?_, filterMap_congr fun id _ => ?_, flatMap_congr fun id _ => ?_⟩
  all_goals
    rcases (doc.kind id).redact_cases with same | ⟨value, other, was, is⟩
    · rw [same]
    · rw [is, was]

@[simp] lemma readsAttributes_redact :
    doc.redact.readsAttributes defn = doc.readsAttributes defn := by
  simp only [readsAttributes, descendants_redact, attributes_redact, kind_redact, NodeKind.readsAttributes_redact]

@[simp] lemma callBindings_redact : doc.redact.callBindings defn call quote =
      doc.callBindings defn call quote := by
  simp only [callBindings, parameters_redact, arguments_redact, readsAttributes_redact]

lemma createAll_redact (plain : ∀ kind ∈ kinds, kind.redact = kind) : doc.redact.createAll pos kinds =
    ((doc.createAll pos kinds).1.redact, (doc.createAll pos kinds).2) := by
  induction kinds generalizing doc with
  | nil => rfl
  | cons kind more ih =>
    have created := doc.create_redact kind pos
    rw [plain kind mem_cons_self] at created
    simp only [createAll, created, ih _ (forall_mem_cons.1 plain).2]

@[simp] lemma slots_redact : doc.redact.slots copies = doc.slots copies := by
  rw [slots, funext doc.descendants_redact]
  apply filter_congr
  intro id _
  rw [isInMixin_redact, kind_redact]
  rcases (doc.kind id).redact_cases with same | ⟨value, other, was, is⟩
  · rw [same]
  · rw [is, was]

@[simp] lemma fillSlots_redact (slots) :
    doc.redact.fillSlots content slots = (doc.fillSlots content slots).redact := by
  induction slots generalizing doc with
  | nil => rfl
  | cons slot more ih =>
    simp only [fillSlots, duplicateAll_redact, setChildren_redact, ih]

@[simp] lemma instantiate_redact : doc.redact.instantiate defn call stash quote =
      ((doc.instantiate defn call stash quote).1.redact, (doc.instantiate defn call stash quote).2) := by
  simp only [instantiate, position_redact, callBindings_redact]
  generalize doc.callBindings defn call quote = bound
  have bindings : ∀ kind ∈ bound.map fun entry => NodeKind.statement (.binding entry.1 entry.2),
      kind.redact = kind := by
    intro kind listed
    obtain ⟨entry, -, rfl⟩ := mem_map.mp listed
    rfl
  rw [createAll_redact]
  · rw [children_redact, duplicateAll_redact]
    rw [children_redact, slots_redact, fillSlots_redact, ← apply_ite redact, createAll_redact]
    split
    · simp
    · simp
  · split
    · simp
    · exact forall_mem_cons.mpr ⟨rfl, bindings⟩

lemma expandCall_redact : expandCall defs quote ⟨state.document.redact, state.scopes⟩ call name =
    (expandCall defs quote state call name).map fun found =>
      (⟨found.1.document.redact, found.1.scopes⟩, found.2) := by
  unfold expandCall
  cases definition? defs name with
  | none => simp only [position_redact]; rfl
  | some defn =>
    dsimp only
    rw [instantiate_redact]
    rw [replace_redact, calls_redact, calls_redact, funext (isLive_redact _)]
    simp only [Except.map]

@[simp] lemma pendingName?_redact : doc.redact.pendingName? call = doc.pendingName? call := by
  rw [pendingName?, isLive_redact, kind_redact, pendingName?]
  rcases (doc.kind call).redact_cases with same | ⟨value, other, was, is⟩
  · rw [same]
  · rw [is, was]

lemma expandAll_redact (defs quote) (state : Expanding)
    (calls) : expandAll defs quote ⟨state.document.redact, state.scopes⟩ calls =
      (expandAll defs quote state calls).map fun found =>
        (⟨found.1.document.redact, found.1.scopes⟩, found.2) := by
  induction calls generalizing state with
  | nil => rfl
  | cons call more ih =>
    rw [expandAll, expandAll, pendingName?_redact]
    cases state.document.pendingName? call with
    | none => exact ih state
    | some name =>
      dsimp only
      rw [expandCall_redact]
      cases expandCall defs quote state call name with
      | error => rfl
      | ok found =>
        have later := ih found.1
        simp only [Except.map, bind, Except.bind, later]
        cases expandAll defs quote found.1 more with
        | error | ok => rfl

lemma expandLevels_redact (defs limit quote)
    (fuel) (state : Expanding) (calls) :
    expandLevels defs limit quote fuel ⟨state.document.redact, state.scopes⟩ calls =
      (expandLevels defs limit quote fuel state calls).map redact := by
  induction fuel generalizing state calls with
  | zero =>
    simp only [expandLevels, pendingName?_redact, position_redact]
    split
    · rfl
    · rfl
  | succ fuel ih =>
    rw [expandLevels, expandLevels]
    split
    · rfl
    · rw [expandAll_redact]
      cases expandAll defs quote state calls with
      | error => rfl
      | ok found => exact ih found.1 found.2

@[simp] lemma dropMixins_redact : doc.redact.dropMixins = doc.dropMixins.redact := by
  rw [dropMixins, funext doc.isAttached_redact]
  exact foldl_hom redact fun changed id => changed.replace_redact id []

lemma expandMixins_redact (limit quote) :
    doc.redact.expandMixins limit quote = (doc.expandMixins limit quote).map redact := by
  have levels := expandLevels_redact doc.definitions limit quote limit ⟨doc, 0⟩ (doc.calls.filter doc.isLive)
  rw [expandMixins, definitions_redact, calls_redact, funext doc.isLive_redact, levels, expandMixins]
  cases expandLevels doc.definitions limit quote limit ⟨doc, 0⟩ (doc.calls.filter doc.isLive) with
  | error => rfl
  | ok expanded => exact congrArg Except.ok expanded.dropMixins_redact

end Document

end PugTemplate
