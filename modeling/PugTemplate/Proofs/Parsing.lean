import PugTemplate.Proofs.Creation

/-!
# What tokens do to a builder

A token adds a node to the document, closes an element, or only moves the builder. The nodes that a
builder keeps track of are nodes of its document, and those that get children are no attributes. Every
token keeps this, so the document of any template is well-formed.
-/

namespace PugTemplate

variable {owner id : Nat} {doc : Document}

namespace Document

/-- A node that may get children. -/
structure Holds (doc : Document) (id : Nat) : Prop where
  inside : id < doc.size
  kind : (doc.kind id).isAttribute = false

lemma WellFormed.root_holds (wf : doc.WellFormed) : doc.Holds root := ⟨wf.inside_root, by rw [wf.root_kind]; rfl⟩

lemma WellFormed.parent_holds (wf : doc.WellFormed)
    (holds : doc.Holds id) (parent : doc.parent id = some owner) : doc.Holds owner := by
  have before := wf.ordered parent
  have inside := holds.inside
  exact ⟨by omega, wf.parent_no_attribute parent holds.kind⟩

/-- Going from a node to its parent a number of times leads to another. -/
def Climbs (doc : Document) : Nat → Nat → Nat → Prop
  | 0, id, target => id = target
  | levels + 1, id, target => ∃ parent, doc.parent id = some parent ∧ Climbs doc levels parent target

lemma Climbs.holds (wf : doc.WellFormed) (holds : doc.Holds id)
    (climbs : doc.Climbs levels id target) : doc.Holds target := by
  induction levels generalizing id with
  | zero => exact climbs ▸ holds
  | succ levels ih =>
    obtain ⟨parent, found, further⟩ := climbs
    exact ih (wf.parent_holds holds found) further

lemma node_modify_kind (doc : Document) (id) (kind : NodeKind) (other : Nat) :
    (doc.modify id fun node => { node with kind := kind }).node other =
      { doc.node other with
        kind := if other = id ∧ id < doc.size then kind else doc.kind other } := by
  rw [node_modify]
  by_cases both : other = id ∧ id < doc.size
  · rw [if_pos both, if_pos both, both.1]
  · rw [if_neg both, if_neg both]
    rfl

def close (doc : Document) (id : Nat) (tag : String) : Document :=
  doc.modify id fun node => { node with kind := .element tag true }

lemma kind_close (isElement : doc.kind id = .element tag closed) (other : Nat) :
    (doc.close id tag).kind other = doc.kind other ∨
      doc.kind other = .element tag closed ∧ (doc.close id tag).kind other = .element tag true := by
  rw [kind, close, node_modify_kind]
  by_cases both : other = id ∧ id < doc.size
  · right
    rw [if_pos both, both.1]
    exact ⟨isElement, rfl⟩
  · left
    rw [if_neg both]

lemma kind_close_test {tag closed}
    (isElement : doc.kind id = .element tag closed) {α : Type} (view : NodeKind → α)
    (blind : view (.element tag closed) = view (.element tag true)) (other) :
    view ((doc.close id tag).kind other) = view (doc.kind other) := by
  rcases kind_close isElement other with same | ⟨old, new⟩
  · rw [same]
  · rw [old, new, blind]

lemma WellFormed.close (wf : doc.WellFormed)
    (isElement : doc.kind id = .element tag closed) : (doc.close id tag).WellFormed := by
  have same := doc.node_modify_kind id (.element tag true)
  have test := fun (view : NodeKind → Bool) blind => kind_close_test isElement view blind
  refine wf.transfer (doc.modify_same_index id _) ?_ ?_ ?_ ?_
    (test _ rfl) (test _ rfl) (test _ rfl) (test _ rfl) (test _ rfl)
  · intro other
    rw [parent, Document.close, same]
    rfl
  · intro other
    rw [children, Document.close, same]
    rfl
  · intro other
    rw [attributes, Document.close, same]
    rfl
  · rcases kind_close isElement root with equal | ⟨old, -⟩
    · rw [equal]
      exact wf.root_kind
    · rw [wf.root_kind] at old
      cases old

end Document

namespace Builder

open Document

structure Sound (builder : Builder) : Prop where
  document : builder.document.WellFormed
  current : builder.document.Holds builder.current
  lineNode : ∀ id, builder.lineNode = some id → builder.document.Holds id
  last : ∀ id, builder.last = some id → builder.document.Holds id
  listOwner : ∀ id, builder.listOwner = some id → id < builder.document.size
  awaiting : ∀ id, builder.awaiting = some id → id < builder.document.size

lemma start_sound : start.Sound := by
  have wf := empty_well_formed
  refine ⟨wf, wf.root_holds, ?_, ?_, ?_, ?_⟩ <;> simp [start]

/-- A node is added below the given one. -/
def Extends (builder after : Builder) (owner? : Option Nat) (made : NodeKind) (position : Position) : Prop :=
  ∃ owner outer doc, owner? = some owner ∧
    Gains builder.document doc owner made position outer ∧ after = { builder with document := doc }

/-- A node begins a line, or a part of it behind a colon. Behind a colon it names the node above as its
outer node. -/
def Opens (builder after : Builder) (made : NodeKind) (position : Position) : Prop :=
  ∃ doc, Gains builder.document doc (builder.lineNode.getD builder.current) made position
      (if builder.expansions > 0 && builder.lineNode.isNone then
        some (builder.lineNode.getD builder.current) else none) ∧
    after = { builder with
      document := doc
      lineNode := some builder.document.size
      last := some builder.document.size }

/-- What a token does to a builder. -/
def Takes (builder after : Builder) (indentFollows : Bool) (position : Position) : TokenKind → Prop
  | .indent => ∃ target, builder.last = some target ∧ (builder.document.kind target).acceptsChildren = true ∧
      after = { builder with
        current := target, expansions := 0, frames := (1 + builder.expansions) :: builder.frames }
  | .outdent => ∃ climb frames node, builder.frames = climb :: frames ∧
      builder.document.Climbs climb builder.current node ∧
      after = { builder with current := node, frames := frames }
  | .newLine => ∃ node,
      builder.document.Climbs (if indentFollows then 0 else builder.expansions) builder.current node ∧
      after = { builder with
        current := node, lineNode := none, listOwner := none, awaiting := none
        expansions := if indentFollows then builder.expansions else 0 }
  | .classShorthand name =>
    builder.Extends after builder.lineNode (.attr ⟨some "class", some name, true, true⟩) position
  | .idShorthand name =>
    builder.Extends after builder.lineNode (.attr ⟨some "id", some name, true, true⟩) position
  | .attributeStart => ∃ owner, (builder.awaiting <|> builder.lineNode) = some owner ∧
      after = { builder with listOwner := some owner, awaiting := none }
  | .attr entry => builder.Extends after builder.listOwner (.attr entry) position
  | .attributeEnd => after = { builder with listOwner := none }
  | .assignment name => ∃ next, builder.Extends next builder.lineNode (.assignment name) position ∧
      after = { next with awaiting := some builder.document.size }
  | .selfClosing => ∃ target tag closed, builder.lineNode = some target ∧
      builder.document.kind target = .element tag closed ∧
      after = { builder with document := builder.document.close target tag }
  | .expansion => ∃ head, builder.lineNode = some head ∧ after = { builder with
        current := head, expansions := builder.expansions + 1, lineNode := none }
  | .text value => builder.lineNode = none ∧ builder.Opens after (.text value false) position ∨
      builder.Extends after builder.lineNode (.text value false) position
  | .expression echo => builder.lineNode = none ∧ builder.Opens after (.expression echo) position ∨
      builder.Extends after builder.lineNode (.expression echo) position
  | .tag name => builder.Opens after (.element name false) position
  | .statement line => builder.Opens after (.statement line) position

variable {builder after : Builder} {made : NodeKind} {pos : Position} {indentFollows : Bool}

lemma Sound.opener (sound : builder.Sound) : builder.document.Holds (builder.lineNode.getD builder.current) := by
  cases line : builder.lineNode with
  | none => exact sound.current
  | some id => exact sound.lineNode id line

lemma openLine_takes (sound : builder.Sound) (newKind : made.isAttribute = false) (pos) :
    builder.Opens (builder.openLine made pos) made pos := by
  have gains := append_gains sound.opener.inside sound.opener.kind newKind pos
  unfold openLine Opens
  split
  · exact ⟨_, gains.modify_outer _, rfl⟩
  · exact ⟨_, gains, rfl⟩

lemma addInline_takes (sound : builder.Sound) (newKind : made.isAttribute = false) (pos) :
    builder.lineNode = none ∧ builder.Opens (builder.addInline made pos) made pos ∨
      builder.Extends (builder.addInline made pos) builder.lineNode made pos := by
  unfold addInline
  cases line : builder.lineNode with
  | none => exact .inl ⟨rfl, openLine_takes sound newKind pos⟩
  | some owner =>
    have holds := sound.lineNode owner line
    exact .inr ⟨owner, _, _, rfl, append_gains holds.inside holds.kind newKind pos, by rw [line]⟩

lemma addAttribute_takes {owner? : Option Nat} (isOwner : owner? = some owner)
    (inside : owner < builder.document.size) (newKind : made.isAttribute) (pos) :
    builder.Extends { builder with document := (builder.document.appendAttribute owner made pos).1 } owner? made pos :=
  ⟨owner, _, _, isOwner, append_attribute_gains inside newKind pos, rfl⟩

lemma attributeOwner_some (found : builder.attributeOwner? candidate = some owner) : candidate = some owner :=
  (Option.filter_eq_some_iff.1 found).1

lemma addShorthand_takes (sound : builder.Sound) (ok : builder.addShorthand name value pos = .ok after) :
    builder.Extends after builder.lineNode (.attr ⟨some name, some value, true, true⟩) pos := by
  unfold addShorthand at ok
  split at ok
  · cases ok
  · rename_i owner found
    cases ok
    have isLine := attributeOwner_some found
    exact addAttribute_takes isLine (sound.lineNode owner isLine).inside rfl pos

lemma ascend_takes (ok : builder.ascend levels pos = .ok after) :
    ∃ node, builder.document.Climbs levels builder.current node ∧ after = { builder with current := node } := by
  induction levels generalizing builder with
  | zero =>
    cases ok
    exact ⟨_, rfl, rfl⟩
  | succ levels ih =>
    simp only [ascend] at ok
    split at ok
    · cases ok
    · rename_i above parent
      obtain ⟨node, climbs, same⟩ := ih ok
      exact ⟨node, ⟨above, parent, climbs⟩, same⟩

lemma step_takes (sound : builder.Sound) (ok : builder.step token indentFollows = .ok after) :
    builder.Takes after indentFollows token.position token.kind := by
  obtain ⟨kind, pos⟩ := token
  cases kind with
  | indent =>
    simp only [step, descend] at ok
    split at ok
    · cases ok
    · rename_i target isLast
      split at ok
      · rename_i accepts
        exact ⟨target, isLast, accepts, (Except.ok.inj ok).symm⟩
      · cases ok
  | outdent =>
    simp only [step] at ok
    split at ok
    · cases ok
    · rename_i climb frames opened
      obtain ⟨node, climbs, same⟩ := ascend_takes ok
      exact ⟨climb, frames, node, opened, climbs, same⟩
  | newLine =>
    simp only [step, endLine] at ok
    split at ok
    · rename_i follows
      refine ⟨builder.current, by simp [follows, Climbs], ?_⟩
      rw [← Except.ok.inj ok, if_pos follows]
    · rename_i level
      obtain ⟨node, climbs, same⟩ := ascend_takes ok
      refine ⟨node, by rw [if_neg level]; exact climbs, ?_⟩
      rw [same, if_neg level]
  | classShorthand | idShorthand => exact addShorthand_takes sound ok
  | attributeStart =>
    simp only [step] at ok
    split at ok
    · cases ok
    · rename_i owner found
      exact ⟨owner, attributeOwner_some found, (Except.ok.inj ok).symm⟩
  | attr entry =>
    simp only [step] at ok
    split at ok
    · cases ok
    · rename_i owner found
      cases ok
      exact addAttribute_takes found (sound.listOwner owner found) rfl pos
  | attributeEnd =>
    simp only [step] at ok
    split at ok
    · cases ok
    · exact (Except.ok.inj ok).symm
  | assignment name =>
    simp only [step] at ok
    split at ok
    · cases ok
    · rename_i owner found
      cases ok
      have isLine := (Option.filter_eq_some_iff.1 found).1
      exact ⟨_, addAttribute_takes isLine (sound.lineNode owner isLine).inside rfl pos, rfl⟩
  | selfClosing =>
    simp only [step, selfClose] at ok
    split at ok
    · cases ok
    · rename_i target isLine
      split at ok
      · rename_i tag closed isElement
        exact ⟨target, tag, closed, isLine, isElement, (Except.ok.inj ok).symm⟩
      · cases ok
  | expansion =>
    simp only [step] at ok
    split at ok
    · cases ok
    · rename_i head isLine
      exact ⟨head, isLine, (Except.ok.inj ok).symm⟩
  | text | expression =>
    cases ok
    exact addInline_takes sound rfl pos
  | tag | statement =>
    cases ok
    exact openLine_takes sound rfl pos

lemma Sound.grow (sound : builder.Sound) (wf : doc.WellFormed)
    (kept : ∀ id, builder.document.Holds id → doc.Holds id)
    (size : builder.document.size ≤ doc.size) : Sound { builder with document := doc } where
  document := wf
  current := kept _ sound.current
  lineNode := fun id found => kept id (sound.lineNode id found)
  last := fun id found => kept id (sound.last id found)
  listOwner := fun id found => Nat.lt_of_lt_of_le (sound.listOwner id found) size
  awaiting := fun id found => Nat.lt_of_lt_of_le (sound.awaiting id found) size

lemma Sound.gain (sound : builder.Sound)
    (gains : Gains builder.document doc owner made pos outer) : Sound { builder with document := doc } := by
  refine sound.grow (gains.wellFormed sound.document) (fun id holds => ⟨?_, ?_⟩) ?_
  · rw [gains.size]
    exact Nat.lt_succ_of_lt holds.inside
  · rw [gains.kind, if_neg (Nat.ne_of_lt holds.inside)]
    exact holds.kind
  · rw [gains.size]
    exact Nat.le_succ _

lemma Extends.sound {owner? : Option Nat} (extended : builder.Extends after owner? made pos)
    (sound : builder.Sound) : after.Sound := by
  obtain ⟨owner, outer, doc, -, gains, rfl⟩ := extended
  exact sound.gain gains

lemma Opens.sound (opens : builder.Opens after made pos) (newKind : made.isAttribute = false)
    (sound : builder.Sound) : after.Sound := by
  obtain ⟨doc, gains, rfl⟩ := opens
  have grown := sound.gain gains
  have new : doc.Holds builder.document.size := by
    refine ⟨?_, ?_⟩
    · rw [gains.size]
      exact Nat.lt_succ_self _
    · rw [gains.kind, if_pos rfl]
      exact newKind
  have newest : ∀ id, some builder.document.size = some id → doc.Holds id := by
    rintro id ⟨⟩
    exact new
  exact ⟨grown.document, grown.current, newest, newest, grown.listOwner, grown.awaiting⟩

lemma Takes.sound {kind} (takes : builder.Takes after indentFollows pos kind)
    (sound : builder.Sound) : after.Sound := by
  cases kind with
  | indent =>
    obtain ⟨target, isLast, -, rfl⟩ := takes
    exact ⟨sound.document, sound.last target isLast, sound.lineNode, sound.last, sound.listOwner, sound.awaiting⟩
  | outdent =>
    obtain ⟨climb, frames, node, -, climbs, rfl⟩ := takes
    exact ⟨sound.document, climbs.holds sound.document sound.current, sound.lineNode, sound.last,
      sound.listOwner, sound.awaiting⟩
  | newLine =>
    obtain ⟨node, climbs, rfl⟩ := takes
    exact ⟨sound.document, climbs.holds sound.document sound.current, nofun, sound.last, nofun, nofun⟩
  | attributeStart =>
    obtain ⟨owner, isOwner, rfl⟩ := takes
    refine ⟨sound.document, sound.current, sound.lineNode, sound.last, ?_, nofun⟩
    rintro id ⟨⟩
    cases awaiting : builder.awaiting with
    | none =>
      rw [awaiting] at isOwner
      exact (sound.lineNode owner isOwner).inside
    | some id =>
      rw [awaiting] at isOwner
      cases isOwner
      exact sound.awaiting owner awaiting
  | attributeEnd =>
    cases takes
    exact ⟨sound.document, sound.current, sound.lineNode, sound.last, nofun, sound.awaiting⟩
  | assignment name =>
    obtain ⟨next, extended, rfl⟩ := takes
    have grown := extended.sound sound
    obtain ⟨owner, outer, doc, -, gains, rfl⟩ := extended
    refine ⟨grown.document, grown.current, grown.lineNode, grown.last, grown.listOwner, ?_⟩
    rintro id ⟨⟩
    rw [gains.size]
    exact Nat.lt_succ_self _
  | selfClosing =>
    obtain ⟨target, tag, closed, -, isElement, rfl⟩ := takes
    refine sound.grow (sound.document.close isElement) (fun id holds => ⟨?_, ?_⟩)
      (Nat.le_of_eq (size_modify _ _ _).symm)
    · rw [close, size_modify]
      exact holds.inside
    · rw [kind_close_test isElement NodeKind.isAttribute rfl]
      exact holds.kind
  | expansion =>
    obtain ⟨head, isLine, rfl⟩ := takes
    exact ⟨sound.document, sound.lineNode head isLine, nofun, sound.last, sound.listOwner, sound.awaiting⟩
  | text value | expression echo =>
    exact takes.elim (fun opened => opened.2.sound rfl sound) fun extended => extended.sound sound
  | tag name | statement line => exact Opens.sound takes rfl sound
  | classShorthand name | idShorthand name | attr entry => exact Extends.sound takes sound

lemma step_sound (sound : builder.Sound) {token}
    (ok : builder.step token indentFollows = .ok after) : after.Sound :=
  (step_takes sound ok).sound sound

lemma endLine_sound (sound : builder.Sound)
    (ok : builder.endLine indentFollows pos = .ok after) : after.Sound :=
  @step_sound builder after indentFollows sound ⟨.newLine, pos⟩ ok

lemma run_cons (ok : builder.run (token :: more) = .ok after) :
    ∃ next, builder.step token (more.head?.any isIndent) = .ok next ∧ next.run more = .ok after := by
  simp only [run] at ok
  split at ok
  · cases ok
  · rename_i next taken
    exact ⟨next, taken, ok⟩

lemma run_sound (sound : builder.Sound) (ok : builder.run tokens = .ok after) : after.Sound := by
  induction tokens generalizing builder with
  | nil =>
    cases ok
    exact sound
  | cons token more ih =>
    obtain ⟨next, taken, further⟩ := run_cons ok
    exact ih (step_sound sound taken) further

end Builder

namespace Document

lemma ofStream_well_formed (ok : ofStream stream = .ok doc) : doc.WellFormed := by
  unfold ofStream at ok
  split at ok
  · cases ok
  · rename_i builder built
    split at ok
    · cases ok
    · cases ok
      exact (Builder.run_sound Builder.start_sound built).document

lemma parse_well_formed (ok : parse source = .ok doc) : doc.WellFormed := ofStream_well_formed ok

end Document

end PugTemplate
