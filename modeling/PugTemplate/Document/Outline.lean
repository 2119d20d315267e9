import PugTemplate.Document
import PugTemplate.Text.Literal

/-!
# Outlines

A document is listed with one line for each node, indented by its level, and one for each
attribute of a node and of its assignments.
-/

namespace PugTemplate

def Statement.outline : Statement → String
  | .code value _ => "code " ++ Text.literal value
  | .comment content rendered =>
    "comment" ++ (if rendered then " " else " hidden ") ++ Text.literal content
  | .doctype name => s!"doctype {name}"
  | .filter name => s!"filter {name}"
  | .binding name value => s!"variable {name} = {value}"
  | .importing kind path none => s!"{kind.label} {path}"
  | .importing kind path (some name) => s!"{kind.label} {path} :{name}"
  | .block name mode => "block " ++ mode.label ++ " " ++ name.getD "<slot>"
  | .mixin name => s!"mixin {name}"
  | .call name => s!"call {name}"
  | .conditional kind subject => kind.label ++ " " ++ subject.getD ""
  | .caseOf subject => s!"case {subject}"
  | .branch (some subject) => s!"when {subject}"
  | .branch none => "default"
  | .each item (some key) subject => s!"each {item}, {key} in {subject}"
  | .each item none subject => s!"each {item} in {subject}"
  | .whileLoop subject => s!"while {subject}"
  | .doLoop => "do"
  | .forLoop subject => s!"for {subject}"

def NodeKind.outline : NodeKind → String
  | .document => "document"
  | .element tag selfClosing => s!"element {tag}" ++ if selfClosing then "/" else ""
  | .attr entry =>
    "attribute " ++ entry.name.getD "_" ++ "=" ++ entry.value.getD "_" ++
      (if entry.escaped then "" else " unescaped") ++ (if entry.checked then "" else " unchecked")
  | .text value _ => "text " ++ Text.literal value
  | .expression echo => s!"expression {echo.value}"
  | .assignment name => s!"&{name}"
  | .statement line => line.outline

namespace Document

def levelIndent (level : Nat) : String :=
  String.ofList (List.replicate (2 * level) ' ')

def attributeLine (document : Document) (id : NodeId) : String :=
  let node := document.node id
  levelIndent node.level ++ s!"@{node.kind.outline}\n"

def nodeLines (document : Document) (id : NodeId) : String :=
  let node := document.node id
  let place := s!" ({node.position.line}:{node.position.offset})\n"
  let attributes := node.attributes.map fun entry =>
    document.attributeLine entry ++
      String.join ((document.attributes entry).map document.attributeLine)
  levelIndent node.level ++ node.kind.outline ++ place ++ String.join attributes

def outline (document : Document) : String :=
  String.join ((document.descendants root).map document.nodeLines)

end Document

end PugTemplate
