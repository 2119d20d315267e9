import PugTemplate.Document

/-!
# Trees

The tree below a node of a document, without the places of the nodes in the store. It is what
the generated code depends on.
-/

namespace PugTemplate

inductive Tree where
  | node (kind : NodeKind) (position : Position) (attributes children : List Tree)
  deriving Repr

namespace Tree

def kind : Tree → NodeKind
  | node kind _ _ _ => kind

def position : Tree → Position
  | node _ position _ _ => position

def attributes : Tree → List Tree
  | node _ _ attributes _ => attributes

def children : Tree → List Tree
  | node _ _ _ children => children

def isHidden (tree : Tree) : Bool :=
  match tree.kind with
  | .statement (.comment _ false) => true
  | _ => false

end Tree

namespace Document

def treeWithin : Nat → Document → NodeId → Tree
  | 0, document, id => .node (document.kind id) (document.position id) [] []
  | bound + 1, document, id =>
    .node (document.kind id) (document.position id)
      ((document.attributes id).map (treeWithin bound document))
      ((document.children id).map (treeWithin bound document))

def treeAt (document : Document) (id : NodeId) : Tree :=
  treeWithin document.size document id

def tree (document : Document) : Tree :=
  document.treeAt root

end Document

end PugTemplate
