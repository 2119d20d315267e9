import PugTemplate.Document

/-!
# Copies of subtrees

A subtree is copied by writing its nodes at the end of a store, in preorder. References inside
the subtree go to the copies, and references out of it are dropped.
-/

namespace PugTemplate

/-- Nodes that refer to each other by their place in the list, the first being the root. -/
structure Subtree where
  nodes : List Node
  deriving DecidableEq, Repr

/-- Changes the references of a node, dropping those for which there is no new place. -/
def Node.rename (node : Node) (place : NodeId → Option NodeId) : Node :=
  { node with
    parent := node.parent.bind place
    outer := node.outer.bind place
    children := node.children.filterMap place
    attributes := node.attributes.filterMap place }

namespace Document

def subtree (document : Document) (id : NodeId) : Subtree :=
  let order := document.preorder id
  ⟨order.map fun old => (document.node old).rename order.idxOf?⟩

/-- Copies a subtree into the store and gives its root, which is not attached. -/
def graft (document : Document) (subtree : Subtree) : Document × NodeId :=
  let base := document.size
  let copied := subtree.nodes.foldl (fun changed node =>
    changed.push (node.rename fun id => some (id + base))) document
  (copied.relevel base 0, base)

def duplicate (document : Document) (id : NodeId) : Document × NodeId :=
  document.graft (document.subtree id)

def graftAll (document : Document) : List Subtree → Document × List NodeId
  | [] => (document, [])
  | subtree :: more =>
    let (grafted, id) := document.graft subtree
    let (done, ids) := grafted.graftAll more
    (done, id :: ids)

def graftChildren (document source : Document) (parent : NodeId) : Document × List NodeId :=
  document.graftAll ((source.children parent).map source.subtree)

def duplicateAll (document : Document) : List NodeId → Document × List NodeId
  | [] => (document, [])
  | id :: more =>
    let (copied, copy) := document.duplicate id
    let (done, copies) := copied.duplicateAll more
    (done, copy :: copies)

end Document

end PugTemplate
