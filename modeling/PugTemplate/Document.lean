import PugTemplate.Token

/-!
# Documents

A document is a store of nodes in the order of their creation, with the root first. Nodes refer
to each other by their place in the store. A node that is removed from the tree stays in the
store; it is then not attached. Blocks, imports, mixins and calls are also listed as they are
created.
-/

namespace PugTemplate

abbrev NodeId := Nat

inductive NodeKind where
  | document
  | element (tag : String) (selfClosing : Bool)
  | attr (entry : Attribute)
  /-- Verbatim text is written as it is; other text may hold interpolations. -/
  | text (value : String) (verbatim : Bool)
  | expression (echo : Echo)
  | assignment (name : String)
  | statement (line : Statement)
  deriving DecidableEq, Repr

namespace NodeKind

def acceptsAttributes : NodeKind → Bool
  | element _ _ | assignment _ => true
  | statement (.mixin _) | statement (.call _) | statement (.importing _ _ _)
  | statement (.filter _) => true
  | _ => false

def acceptsChildren : NodeKind → Bool
  | text _ _ | expression _ | attr _ | assignment _ => false
  | statement (.doctype _) | statement (.comment _ _) | statement (.binding _ _)
  | statement (.importing _ _ _) => false
  | _ => true

def isText : NodeKind → Bool
  | text _ _ => true
  | _ => false

def isBlock : NodeKind → Bool
  | statement (.block _ _) => true
  | _ => false

def isImport : NodeKind → Bool
  | statement (.importing _ _ _) => true
  | _ => false

def isMixin : NodeKind → Bool
  | statement (.mixin _) => true
  | _ => false

def isCall : NodeKind → Bool
  | statement (.call _) => true
  | _ => false

end NodeKind

structure Node where
  kind : NodeKind
  parent : Option NodeId
  /-- The node this one belongs to without being its child: an attribute's owner, or the node
  whose line goes on with this one. -/
  outer : Option NodeId
  children : List NodeId
  attributes : List NodeId
  position : Position
  level : Nat
  deriving DecidableEq, Repr

namespace Node

def single (kind : NodeKind) (position : Position) : Node :=
  ⟨kind, none, none, [], [], position, 0⟩

/-- The nodes that a node owns, attributes first. -/
def owned (node : Node) : List NodeId :=
  node.attributes ++ node.children

end Node

structure Document where
  nodes : Array Node
  blocks : List NodeId
  imports : List NodeId
  mixins : List NodeId
  calls : List NodeId
  deriving DecidableEq, Repr

namespace Document

def empty : Document :=
  ⟨#[Node.single .document .start], [], [], [], []⟩

def root : NodeId := 0

def size (document : Document) : Nat :=
  document.nodes.size

/-- The node at a place of the store; places beyond it hold an empty document node. -/
def node (document : Document) (id : NodeId) : Node :=
  document.nodes.getD id (Node.single .document .start)

def kind (document : Document) (id : NodeId) : NodeKind :=
  (document.node id).kind

def children (document : Document) (id : NodeId) : List NodeId :=
  (document.node id).children

def attributes (document : Document) (id : NodeId) : List NodeId :=
  (document.node id).attributes

def parent (document : Document) (id : NodeId) : Option NodeId :=
  (document.node id).parent

def position (document : Document) (id : NodeId) : Position :=
  (document.node id).position

def modify (document : Document) (id : NodeId) (change : Node → Node) : Document :=
  { document with nodes := document.nodes.modify id change }

def push (document : Document) (node : Node) : Document :=
  let id := document.size
  let listed (test : Bool) (ids : List NodeId) := if test then ids ++ [id] else ids
  { nodes := document.nodes.push node
    blocks := listed node.kind.isBlock document.blocks
    imports := listed node.kind.isImport document.imports
    mixins := listed node.kind.isMixin document.mixins
    calls := listed node.kind.isCall document.calls }

def create (document : Document) (kind : NodeKind) (position : Position) : Document × NodeId :=
  (document.push (Node.single kind position), document.size)

/-- Sets the levels of a node and of all below it, at most `bound` levels deep. -/
def relevelWithin : Nat → Document → NodeId → Nat → Document
  | 0, document, _, _ => document
  | bound + 1, document, id, level =>
    let below := (document.node id).attributes.reverse ++ (document.node id).children.reverse
    below.foldl (fun changed child => relevelWithin bound changed child (level + 1))
      (document.modify id fun node => { node with level := level })

def relevel (document : Document) (id : NodeId) (level : Nat) : Document :=
  relevelWithin document.size document id level

/-- Makes `parent` the parent of `child`, which it does not yet list. -/
def attach (document : Document) (parent child : NodeId) : Document :=
  let linked := document.modify child fun node => { node with parent := some parent }
  linked.relevel child ((linked.node parent).level + 1)

def append (document : Document) (parent : NodeId) (kind : NodeKind) (position : Position) :
    Document × NodeId :=
  let (created, id) := document.create kind position
  let attached := created.attach parent id
  (attached.modify parent fun node => { node with children := node.children ++ [id] }, id)

def appendAttribute (document : Document) (owner : NodeId) (kind : NodeKind)
    (position : Position) : Document × NodeId :=
  let (created, id) := document.create kind position
  let attached := created.attach owner id
  let owned := attached.modify id fun node => { node with outer := some owner }
  (owned.modify owner fun node => { node with attributes := node.attributes ++ [id] }, id)

def attachAll (document : Document) (parent : NodeId) (ids : List NodeId) : Document :=
  ids.foldl (fun changed id => changed.attach parent id) document

/-- The list with `replacements` in place of the first occurrence of `id`. -/
def spliceAt (id : NodeId) (replacements : List NodeId) : List NodeId → List NodeId
  | [] => []
  | sibling :: more =>
    if sibling == id then replacements ++ more else sibling :: spliceAt id replacements more

/-- Puts `replacements` in the place of a node among its siblings. A node without a parent has
no such place. -/
def replace (document : Document) (id : NodeId) (replacements : List NodeId) : Document :=
  match document.parent id with
  | none => document
  | some parent =>
    let attached := document.attachAll parent replacements
    let spliced := attached.modify parent fun node =>
      { node with children := spliceAt id replacements node.children }
    spliced.modify id fun node => { node with parent := none }

def detach (document : Document) (id : NodeId) : Document :=
  document.replace id []

/-- Gives a node new children. The children it loses have no parent any more. -/
def setChildren (document : Document) (id : NodeId) (children : List NodeId) : Document :=
  let lost := (document.children id).filter fun child => !children.contains child
  let emptied := document.modify id fun node => { node with children := [] }
  let released := lost.foldl (fun changed child =>
    changed.modify child fun node => { node with parent := none }) emptied
  let attached := released.attachAll id children
  attached.modify id fun node => { node with children := children }

/-- Inserts nodes among the children of `parent`, at the end if there are fewer than `index`. -/
def insertChildren (document : Document) (parent : NodeId) (index : Nat) (ids : List NodeId) :
    Document :=
  let attached := document.attachAll parent ids
  attached.modify parent fun node =>
    { node with children := node.children.take index ++ ids ++ node.children.drop index }

def ancestorsWithin : Nat → Document → NodeId → List NodeId
  | 0, _, _ => []
  | bound + 1, document, id =>
    match document.parent id with
    | none => []
    | some parent => parent :: ancestorsWithin bound document parent

def ancestors (document : Document) (id : NodeId) : List NodeId :=
  ancestorsWithin document.size document id

def isAttached (document : Document) (id : NodeId) : Bool :=
  (id :: document.ancestors id).contains root

def descendantsWithin : Nat → Document → NodeId → List NodeId
  | 0, _, _ => []
  | bound + 1, document, id =>
    id :: (document.children id).flatMap (descendantsWithin bound document)

/-- A node and all below it, each before its children. Attributes are not among them. -/
def descendants (document : Document) (id : NodeId) : List NodeId :=
  descendantsWithin document.size document id

def preorderWithin : Nat → Document → NodeId → List NodeId
  | 0, _, _ => []
  | bound + 1, document, id =>
    id :: (document.node id).owned.flatMap (preorderWithin bound document)

/-- A node and all it owns: the node, then its attributes, then its children. -/
def preorder (document : Document) (id : NodeId) : List NodeId :=
  preorderWithin document.size document id

end Document

end PugTemplate
