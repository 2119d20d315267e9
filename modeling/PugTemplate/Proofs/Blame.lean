import PugTemplate.Proofs.WellNested

/-!
# Faults of code generation

Code generation fails at a node of the tree: over a text that cannot be taken apart, over an import
that is left or because the node is out of place. An inline tag is parsed when the text around it is
written, and can fail as a template of its own.
-/

namespace PugTemplate

open Interpolation List

/-- Kinds of faults that neither a text nor an import has. -/
def FaultKind.isMisfit : FaultKind → Bool
  | .importNotFound | .invalidInterpolation | .unbalancedBrackets | .unterminatedString => false
  | _ => true

namespace Tree

/-- An inline tag that is rendered for a text node: one of its text, or one of a line of it where
lines are laid out. -/
def RendersTag (tree : Tree) (snippet : String) : Prop :=
  ∃ value text pieces, tree.kind = .text value false ∧ (text = value.toList ∨ text ∈ Text.lines value.toList) ∧
    Interpolation.segments text = .ok pieces ∧ .tag snippet ∈ pieces

/-- A text that is taken apart for a node, with the place that is taken for its own. -/
def Writes (tree : Tree) (text : List Char) (place : Position) : Prop :=
  ∃ value, tree.kind = .text value false ∧ (text = value.toList ∧ place = tree.position ∨
    ∃ line, (Text.lines value.toList)[line]? = some text ∧
      place = ⟨tree.position.line + line, tree.position.offset⟩)

variable {tree : Tree} {text : List Char} {place : Position}

lemma Writes.renders (writes : tree.Writes text place) {pieces}
    (apart : segments text = .ok pieces)
    (tagged : .tag snippet ∈ pieces) : tree.RendersTag snippet := by
  obtain ⟨value, kind, part⟩ := writes
  refine ⟨value, text, pieces, kind, part.imp And.left ?_, apart, tagged⟩
  rintro ⟨line, found, -⟩
  exact mem_of_getElem? found

/-- A fault that code generation may report for a tree. -/
inductive Blamed : Tree → Diagnostic → Prop
  | misfit {tree : Tree} {diagnostic : Diagnostic} (isMisfit : diagnostic.kind.isMisfit) : Blamed tree diagnostic
  | importing {tree : Tree} {diagnostic : Diagnostic} (isImport : tree.kind.isImport)
      (kind : diagnostic.kind = .importNotFound) : Blamed tree diagnostic
  | text {tree : Tree} {text : List Char} {place : Position} {fault : Fault}
      (writes : tree.Writes text place) (faulty : segments text = .error fault) :
      Blamed tree (fault.diagnose ⟨text, place⟩)
  | tag {tree : Tree} {snippet : String} {inner : Diagnostic} (renders : tree.RendersTag snippet)
      (invalid : Document.parse snippet = .error inner) (place : Position) :
      Blamed tree ((Cause.invalidInlineTag snippet inner.message).diagnose place)
  | inChild {tree child : Tree} {diagnostic : Diagnostic} (mem : child ∈ tree.children)
      (blamed : Blamed child diagnostic) : Blamed tree diagnostic
  | inTag {tree : Tree} {snippet : String} {doc : Document} {diagnostic : Diagnostic}
      (renders : tree.RendersTag snippet) (parsed : Document.parse snippet = .ok doc)
      (blamed : Blamed doc.tree diagnostic) : Blamed tree diagnostic

end Tree

namespace Emission

/-- A result that fails only for a reason. -/
def Blames {α : Type} (reason : Diagnostic → Prop) (result : Except Diagnostic α) : Prop :=
  ∀ diagnostic, result = .error diagnostic → reason diagnostic

section Blames

lemma Blames.ok (value : α) : Blames reason (.ok value) := by
  intro diag same
  cases same

lemma Blames.error (given : reason diag) : Blames reason (.error diag : Except Diagnostic α) := by
  rintro _ ⟨⟩
  exact given

lemma Blames.bind {first} {next : α → Except Diagnostic β}
    (early : Blames reason first) (late : ∀ value, first = .ok value → Blames reason (next value)) :
    Blames reason (first >>= next) := by
  cases first with
  | error diag => exact .error (early diag rfl)
  | ok value => exact late value rfl

end Blames

variable {inlineTag : InlineTag} {reason : Diagnostic → Prop}

/-- What may go wrong with a text is a reason. -/
structure Reasons (reason : Diagnostic → Prop) (inlineTag : InlineTag) (text : List Char)
    (place : Position) : Prop where
  fault : ∀ fault, segments text = .error fault → reason (fault.diagnose ⟨text, place⟩)
  tag : ∀ pieces snippet, segments text = .ok pieces → .tag snippet ∈ pieces →
    Blames reason (inlineTag snippet place)

lemma emitSegments_blames {segments}
    (tags : ∀ snippet, .tag snippet ∈ segments → Blames reason (inlineTag snippet pos)) :
    Blames reason (emitSegments target inlineTag pos segments) := by
  induction segments with
  | nil => exact .ok _
  | cons segment more ih =>
    have others := ih fun snippet mem => tags snippet (mem_cons_of_mem _ mem)
    refine .bind ?_ fun first _ => .bind others fun _ _ => .ok _
    cases segment with
    | text | echo => exact .ok _
    | tag snippet => exact tags snippet mem_cons_self

lemma emitText_blames (reasons : Reasons reason inlineTag value.toList pos) :
    Blames reason (emitText target inlineTag value pos) := by
  refine .bind ?_ fun pieces taken => emitSegments_blames fun snippet =>
    reasons.tag pieces snippet (segments_of_interpolate taken)
  unfold interpolate
  split
  · exact .ok _
  · rename_i fault faulty
    exact .error (reasons.fault fault faulty)

lemma emitTextLines_blames {depth pos lines}
    (reasons : ∀ line text, lines[line]? = some text →
      Reasons reason inlineTag text ⟨pos.line + line, pos.offset⟩) :
    Blames reason (emitTextLines target inlineTag depth pos lines) := by
  induction lines generalizing pos with
  | nil => exact .ok _
  | cons first more ih =>
    refine .bind (emitText_blames ?_) fun _ _ => .bind (ih ?_) fun _ _ => .ok _
    · rw [String.toList_ofList]
      exact reasons 0 first rfl
    · intro line text found
      rw [Nat.add_right_comm]
      exact reasons (line + 1) text found

/-- Whatever a tree is blamed for is a reason. -/
def Covers (reason : Diagnostic → Prop) (tree : Tree) : Prop :=
  ∀ diagnostic, tree.Blamed diagnostic → reason diagnostic

lemma Covers.below (covers : Covers reason tree) : ∀ child ∈ tree.children, Covers reason child :=
  fun _ mem diag blamed => covers diag (.inChild mem blamed)

/-- The renderer of inline tags fails only if a tag cannot be parsed or its document is at fault. -/
def BlamesTags (inlineTag : InlineTag) : Prop :=
  ∀ (reason : Diagnostic → Prop) snippet place, (∀ doc, Document.parse snippet = .ok doc → Covers reason doc.tree) →
    (∀ inner, Document.parse snippet = .error inner →
      reason ((Cause.invalidInlineTag snippet inner.message).diagnose place)) →
    Blames reason (inlineTag snippet place)

lemma emitTextNode_blames (tags : BlamesTags inlineTag) (kind : tree.kind = .text value verbatim)
    (covers : Covers reason tree) (opened depth inline) : Blames reason
      (emitTextNode target inlineTag opened depth inline value verbatim tree.position) := by
  have reasons : ∀ text place, tree.Writes text place → Reasons reason inlineTag text place := by
    refine fun text place writes => ⟨fun fault faulty => covers _ (.text writes faulty), ?_⟩
    intro pieces snippet apart tagged
    have renders := writes.renders apart tagged
    exact tags reason snippet place (fun _ parsed _ inner => covers _ (.inTag renders parsed inner))
      fun _ invalid => covers _ (.tag renders invalid place)
  cases verbatim with
  | true =>
    unfold emitTextNode
    split
    · exact .ok _
    · exact .ok _
  | false =>
    unfold emitTextNode
    split
    · exact emitTextLines_blames fun line text found =>
        reasons text _ ⟨value, kind, .inr ⟨line, found, rfl⟩⟩
    · exact .bind (emitText_blames (reasons _ _ ⟨value, kind, .inl ⟨rfl, rfl⟩⟩)) fun _ _ => .ok _

mutual

lemma emitChildren_blames {inline} (tags : BlamesTags inlineTag) :
    ∀ tree : Tree, Covers reason tree → Blames reason (emitChildren target inlineTag depth inline tree)
  | .node _ _ _ children, covers => by
    rw [emitChildren]
    exact emitSiblings_blames tags children covers.below

lemma emitNode_blames {inline} (tags : BlamesTags inlineTag) :
    ∀ tree : Tree, Covers reason tree → Blames reason (emitNode target inlineTag depth inline tree)
  | .node kind pos attrs children, covers => by
    have below : ∀ child ∈ children, Covers reason child := covers.below
    unfold emitNode
    dsimp only
    cases kind with
    | document => exact emitSiblings_blames tags children below
    | element tag selfClosing =>
      dsimp only
      split
      · exact .error (covers _ (.misfit rfl))
      · exact .ok _
      · exact .bind (emitSiblings_blames tags children below) fun _ _ => .ok _
    | text value verbatim => exact emitTextNode_blames tags rfl covers _ _ _
    | expression | attr | assignment => exact .ok _
    | statement statement =>
      cases statement with
      | code | comment | doctype => exact .ok _
      | filter name =>
        dsimp only
        unfold emitFilter
        split
        · exact .error (covers _ (.misfit rfl))
        · exact .ok _
      | binding name value => exact .ok _
      | importing kind path filter => exact .error (covers _ (.importing rfl rfl))
      | block name mode => exact emitSiblings_blames tags children below
      | mixin name => exact .ok _
      | call | conditional => exact .error (covers _ (.misfit rfl))
      | caseOf subject => exact .bind (emitBranches_blames tags children below) fun _ _ => .ok _
      | branch subject => exact .error (covers _ (.misfit rfl))
      | each | whileLoop | forLoop =>
        exact .bind (emitSiblings_blames tags children below) fun _ _ => .ok _
      | doLoop => exact .error (covers _ (.misfit rfl))

lemma emitSiblings_blames {inline} (tags : BlamesTags inlineTag) :
    ∀ trees : List Tree, (∀ tree ∈ trees, Covers reason tree) →
      Blames reason (emitSiblings target inlineTag opened depth inline trees)
  | [], _ => by
    rw [emitSiblings]
    exact .ok _
  | tree :: more, covers => by
    have here := covers tree mem_cons_self
    have inside : ∀ depth inline, Blames reason (emitChildren target inlineTag depth inline tree) :=
      fun _ _ => emitChildren_blames tags tree here
    have behind : ∀ opened depth inline, Blames reason (emitSiblings target inlineTag opened depth inline more) :=
      fun _ _ _ => emitSiblings_blames tags more (forall_mem_cons.1 covers).2
    -- What a node begins is followed by the siblings behind it.
    have followed : ∀ first next, Blames reason (do
        let others ← emitSiblings target inlineTag next depth inline more
        pure (closing opened depth inline ++ first ++ others)) :=
      fun first next => .bind (behind next depth inline) fun _ _ => .ok _
    rw [emitSiblings]
    split
    · exact behind _ _ _
    iterate 3
      · exact .bind (inside _ _) fun _ _ => .bind (behind _ _ _) fun _ _ => .ok _
    · exact .bind (behind _ _ _) fun _ _ => .ok _
    · dsimp only
      split
      · rename_i value verbatim kind
        exact .bind (emitTextNode_blames tags kind here _ _ _) fun _ _ => followed _ _
      · exact .bind (inside _ _) fun _ _ => followed _ _
      · exact .bind (inside _ _) fun _ _ => followed _ _
      · split
        · exact .bind (emitNode_blames tags tree here) fun _ _ => followed _ _
        · exact .bind (inside _ _) fun _ _ => followed _ _
      · split
        · exact .bind (inside _ _) fun _ _ => followed _ _
        · exact .error (here _ (.misfit rfl))
      · exact .bind (emitNode_blames tags tree here) fun _ _ => followed _ _

lemma emitBranches_blames {inline} (tags : BlamesTags inlineTag) :
    ∀ trees : List Tree, (∀ tree ∈ trees, Covers reason tree) →
      Blames reason (emitBranches target inlineTag inTag breaks depth inline trees)
  | [], _ => by
    rw [emitBranches]
    exact .ok _
  | tree :: more, covers => by
    have here := covers tree mem_cons_self
    have behind : ∀ inTag breaks, Blames reason (emitBranches target inlineTag inTag breaks depth inline more) :=
      fun _ _ => emitBranches_blames tags more (forall_mem_cons.1 covers).2
    rw [emitBranches]
    split
    · exact behind _ _
    · split
      · dsimp only
        split
        · exact .bind (behind _ _) fun _ _ => .ok _
        · exact .bind (emitChildren_blames tags tree here) fun _ _ => .bind (behind _ _) fun _ _ => .ok _
      · exact .error (here _ (.misfit rfl))

end

lemma inlineTagWithin_blames (bound) : BlamesTags (inlineTagWithin target bound) := by
  induction bound with
  | zero => exact fun _ _ _ _ _ => .ok _
  | succ bound ih =>
    intro reason snippet place inside invalid
    unfold inlineTagWithin
    split
    · rename_i inner failed
      exact .error (invalid inner failed)
    · rename_i doc parsed
      exact emitChildren_blames ih doc.tree (inside doc parsed)

lemma emit_blames (target tree) : Blames tree.Blamed (emit target tree) :=
  emitChildren_blames (fun reason snippet => inlineTagWithin_blames (snippet.length + 1) reason snippet) tree
    fun _ => id

end Emission

lemma Document.generate_blamed (doc : Document) (filters : Filters) (options : EmissionOptions) :
    Emission.Blames doc.tree.Blamed (doc.generate filters options) :=
  .bind (Emission.emit_blames _ _) fun _ _ => .ok _

end PugTemplate
