import PugTemplate.Document.Copy

/-!
# Inheritance

A template that extends a layout keeps of itself only its top-level code, its top-level mixins
and its named blocks. The code goes to the front of the layout and the mixins to its end, where
they override mixins of the same name. Each block is merged into every block of the layout that
has its name.
-/

namespace PugTemplate

def BlockMode.merge {α : Type} (mode : BlockMode) (existing content : List α) : List α :=
  match mode with
  | replace => content
  | append => existing ++ content
  | prepend => content ++ existing

namespace Document

/-- The attached imports of a kind in the order of their creation. -/
def importsOf (document : Document) (kind : ImportKind) : List NodeId :=
  document.imports.filter fun id =>
    document.isAttached id &&
      match document.kind id with
      | .statement (.importing other _ _) => other == kind
      | _ => false

/-- Copies of the code and of the mixins among `ids`, nodes of the child, in the layout. -/
def graftDeclarations (layout child : Document) :
    List NodeId → Document × List NodeId × List NodeId
  | [] => (layout, [], [])
  | id :: more =>
    match child.kind id with
    | .statement (.binding _ _) | .statement (.code _ _) =>
      let (grafted, copy) := layout.graft (child.subtree id)
      let (done, code, mixins) := grafted.graftDeclarations child more
      (done, copy :: code, mixins)
    | .statement (.mixin _) =>
      let (grafted, copy) := layout.graft (child.subtree id)
      let (done, code, mixins) := grafted.graftDeclarations child more
      (done, code, copy :: mixins)
    | _ => graftDeclarations layout child more

/-- Carries the top-level code and mixins of the child over to the layout. -/
def adoptDeclarations (layout child : Document) : Document :=
  let (grafted, code, mixins) := layout.graftDeclarations child (child.children root)
  let opened := grafted.insertChildren root 0 code
  opened.insertChildren root (opened.children root).length mixins

/-- The name and the mode of a block that a child contributes: it is attached, has a name, and
is not inside another block. -/
def contribution? (child : Document) (id : NodeId) : Option (String × BlockMode) :=
  match child.kind id with
  | .statement (.block (some name) mode) =>
    if child.isAttached id && !(child.ancestors id).any fun above => (child.kind above).isBlock then
      some (name, mode)
    else
      none
  | _ => none

def blocksNamed (document : Document) (name : String) : List NodeId :=
  document.blocks.filter fun id =>
    document.isAttached id &&
      match document.kind id with
      | .statement (.block (some other) _) => other == name
      | _ => false

def mergeBlock (layout child : Document) (id : NodeId) (mode : BlockMode) (target : NodeId) :
    Document :=
  let (grafted, content) := layout.graftChildren child id
  grafted.setChildren target (mode.merge (grafted.children target) content)

/-- Merges a block of the child into all blocks of its name. -/
def contribute (layout child : Document) (id : NodeId) : Document :=
  match child.contribution? id with
  | none => layout
  | some (name, mode) =>
    (layout.blocksNamed name).foldl (fun merged target => merged.mergeBlock child id mode target)
      layout

def extend (layout child : Document) : Document :=
  child.blocks.foldl (fun merged id => merged.contribute child id) (layout.adoptDeclarations child)

end Document

end PugTemplate
