import PugTemplate.Proofs.Levelling
import PugTemplate.Proofs.Spots

/-!
# Documents in reading order

A parser makes the nodes of a document in the order in which they are read. Each new node goes
below the node before it or below one of its ancestors, and behind everything its owner has. Then
the store lists the nodes in preorder: a node, its attributes, its children.
-/

namespace PugTemplate

open List

variable {id : Nat}

namespace Document

/-- The nodes were made in reading order. -/
structure InOrder (doc : Document) : Prop where
  levelled : doc.Levelled
  next : ∀ id, 0 < id → id < doc.size → ∃ owner, doc.parent id = some owner ∧ owner ∈ doc.lineage (id - 1)
  sorted : ∀ owner, (doc.node owner).owned.Pairwise (· < ·)

variable {above : Nat}

namespace WellFormed

variable {doc : Document} (wf : doc.WellFormed)

include wf

/-- What lies below a node is an interval of the store. -/
theorem lineage_convex (inOrder : doc.InOrder) {below} (mem : above ∈ doc.lineage below)
    (inside : below < doc.size) (least : above ≤ between)
    (most : between ≤ below) : above ∈ doc.lineage between := by
  induction below with
  | zero =>
    rw [Nat.le_zero.1 most]
    exact mem
  | succ below ih =>
    rcases Nat.lt_or_eq_of_le most with earlier | same
    · obtain ⟨owner, parent, last⟩ := inOrder.next (below + 1) (Nat.succ_pos _) inside
      have notSelf : above ≠ below + 1 := by omega
      have higher := ((wf.mem_lineage_iff parent).1 mem).resolve_left notSelf
      exact ih (wf.lineage_trans higher last) (Nat.lt_of_succ_lt inside) (Nat.le_of_lt_succ earlier)
    · rw [same]
      exact mem

lemma root_above (inOrder : doc.InOrder) (inside : id < doc.size) : root ∈ doc.lineage id := by
  induction id with
  | zero => exact doc.self_lineage root
  | succ id ih =>
    obtain ⟨owner, parent, last⟩ := inOrder.next (id + 1) (Nat.succ_pos _) inside
    have above : root ∈ doc.lineage owner := wf.lineage_convex inOrder (ih (Nat.lt_of_succ_lt inside))
        (Nat.lt_of_succ_lt inside) (Nat.zero_le _) (Nat.le_of_lt_succ (wf.ordered parent))
    exact (wf.mem_lineage_iff parent).2 (.inr above)

lemma preorder_sorted (inOrder : doc.InOrder) (id) : (doc.preorder id).Pairwise (· < ·) := by
  induction id using wf.owned_induction with
  | step id ih =>
    rw [wf.preorder_eq]
    constructor
    · intro below mem
      obtain ⟨middle, owned, further⟩ := mem_flatMap.1 mem
      exact Nat.lt_of_lt_of_le (wf.ordered (wf.owned_iff.1 owned)) (wf.preorder_ge further)
    · refine pairwise_flatMap.2 ⟨?_, ?_⟩
      · intro middle owned
        exact ih middle owned
      · refine (inOrder.sorted id).imp_of_mem ?_
        intro first second firstOwned secondOwned before below inFirst other inSecond
        have firstInside := wf.owned_inside firstOwned
        have ge := wf.preorder_ge inSecond
        apply Nat.lt_of_lt_of_le _ ge
        apply Nat.lt_of_not_le
        -- otherwise the second would lie between the first and a node below the first
        intro beyond
        have above := wf.mem_preorder_iff.1 inFirst
        have between := wf.lineage_convex inOrder above
          (wf.preorder_inside firstInside inFirst) (Nat.le_of_lt before) beyond
        have same := wf.siblings_disjoint firstOwned secondOwned
          (wf.mem_preorder_iff.2 between) wf.self_preorder
        exact Nat.ne_of_lt before same

lemma preorder_eq_range (inOrder : doc.InOrder) : doc.preorder root = range doc.size := by
  refine List.Perm.eq_of_pairwise ?_ (wf.preorder_sorted inOrder root) pairwise_lt_range ?_
  · intro first second _ _ less more
    exact absurd less (Nat.lt_asymm more)
  · rw [perm_ext_iff_of_nodup wf.preorder_distinct nodup_range]
    intro id
    rw [mem_range]
    constructor
    · exact wf.preorder_inside wf.root_inside
    · intro inside
      rw [wf.mem_preorder_iff]
      exact wf.root_above inOrder inside

end WellFormed

namespace Gains

variable {owner : Nat} {before after : Document} {made : NodeKind} {pos : Position} {outer : Option Nat}
  (gains : Gains before after owner made pos outer) (wf : before.WellFormed)

include gains wf

lemma lineage_old (inside : id < before.size) : after.lineage id = before.lineage id := by
  rw [lineage]
  congr 1
  refine ancestors_congr wf (gains.wellFormed wf) ?_ inside
  intro other otherInside
  rw [gains.parent, if_neg (Nat.ne_of_lt otherInside)]

lemma mem_lineage_new : above ∈ after.lineage before.size ↔ above = before.size ∨ above ∈ before.lineage owner := by
  have parent : after.parent before.size = some owner := by
    rw [gains.parent, if_pos rfl]
  rw [(gains.wellFormed wf).mem_lineage_iff parent, gains.lineage_old wf gains.inside]

lemma mem_lineage_last :
    above ∈ after.lineage (after.size - 1) ↔ above = before.size ∨ above ∈ before.lineage owner := by
  rw [gains.size, Nat.add_sub_cancel, gains.mem_lineage_new wf]

lemma inOrder (inOrder : before.InOrder) (last : owner ∈ before.lineage (before.size - 1))
    (childless : made.isAttribute → before.children owner = []) : after.InOrder where
  levelled := gains_levelled wf inOrder.levelled gains
  next := by
    intro id positive idInside
    rw [gains.size] at idInside
    have previous : id - 1 < before.size := by omega
    rw [gains.lineage_old wf previous, gains.parent]
    by_cases isNew : id = before.size
    · rw [if_pos isNew, isNew]
      exact ⟨owner, rfl, last⟩
    · rw [if_neg isNew]
      exact inOrder.next id positive (by omega)
  sorted := by
    intro other
    rw [gains.owned childless, pairwise_append]
    refine ⟨inOrder.sorted other, by split <;> simp, ?_⟩
    intro id isOwned new isNew
    split at isNew
    · rw [mem_singleton.1 isNew]
      exact wf.owned_inside isOwned
    · cases isNew

end Gains

section Close

variable {doc : Document} {tag : String} {closed : Bool} (wf : doc.WellFormed)
  (isElement : doc.kind id = .element tag closed)

include wf isElement

lemma lineage_close (inside : other < doc.size) : (doc.close id tag).lineage other = doc.lineage other := by
  rw [lineage, lineage, ancestors_congr wf (wf.close isElement) ?_ inside]
  intro below _
  rw [parent, close, node_modify_kind]
  rfl

lemma InOrder.close (inOrder : doc.InOrder) : (doc.close id tag).InOrder := by
  have same := doc.node_modify_kind id (.element tag true)
  have owned : ∀ other, ((doc.close id tag).node other).owned = (doc.node other).owned := by
    intro other
    rw [Document.close, same]
    rfl
  refine ⟨?_, ?_, ?_⟩
  · intro owner other isOwned
    rw [owned] at isOwned
    rw [level, level, Document.close, same, same]
    exact inOrder.levelled owner other isOwned
  · intro other positive inside
    rw [Document.close, size_modify] at inside
    rw [lineage_close wf isElement (by omega), parent, Document.close, same]
    exact inOrder.next other positive inside
  · intro owner
    rw [owned]
    exact inOrder.sorted owner

end Close

end Document

namespace Builder

open Document Token

/-- A node at or below the node of a line that may get attributes: nothing was read since that does
not belong to it, and it has no children. -/
structure Receives (doc : Document) (line id : Nat) : Prop where
  below : line ∈ doc.lineage id
  latest : id ∈ doc.lineage (doc.size - 1)
  childless : doc.children id = []

/-- What a builder knows at each place of a line. -/
def Stands (builder : Builder) : Spot → Prop
  | .edge _ => builder.lineNode = none ∧ builder.awaiting = none
  | .head _ => ∃ line, builder.lineNode = some line ∧ builder.awaiting = none ∧ Receives builder.document line line
  | .assigned _ => ∃ line id, builder.lineNode = some line ∧ builder.awaiting = some id ∧
      Receives builder.document line line ∧ Receives builder.document line id
  | .list _ => ∃ line owner, builder.lineNode = some line ∧ builder.awaiting = none ∧
      builder.listOwner = some owner ∧ Receives builder.document line line ∧
      Receives builder.document line owner
  | .filled _ => ∃ line, builder.lineNode = some line ∧ builder.awaiting = none

/-- The nodes so far are in reading order, and those that may get further nodes lie above the
latest. -/
structure Ordered (spot : Spot) (builder : Builder) : Prop where
  sound : builder.Sound
  order : builder.document.InOrder
  current : builder.current ∈ builder.document.lineage (builder.document.size - 1)
  last : ∀ id, builder.last = some id → id ∈ builder.document.lineage (builder.document.size - 1)
  line : ∀ id, builder.lineNode = some id →
    builder.last = some id ∧ builder.document.parent id = some builder.current
  stands : builder.Stands spot

lemma start_ordered (sealed) : Ordered (.edge sealed) start where
  sound := start_sound
  order := by
    have owned : ∀ id, (empty.node id).owned = [] := by
      intro id
      rw [empty_node]
      rfl
    refine ⟨?_, ?_, ?_⟩
    · intro owner id isOwned
      rw [start, owned] at isOwned
      cases isOwned
    · intro id positive inside
      exact absurd inside (Nat.not_lt_of_le positive)
    · intro owner
      rw [start, owned]
      exact .nil
  current := self_lineage _ _
  last := nofun
  line := nofun
  stands := ⟨rfl, rfl⟩

variable {builder after : Builder} {sealed : Bool} {head : TokenKind} {next spot : Spot}
  {pos : Position} {made : NodeKind}

lemma Ordered.openLine (ordered : Ordered (.edge sealed) builder) (opens : builder.Opens after made pos)
    (sound : after.Sound) (newKind : made.isAttribute = false) (behind : next.Behind head) :
    Ordered next after := by
  have wf := ordered.sound.document
  obtain ⟨noLine, noAwaiting⟩ := ordered.stands
  obtain ⟨doc, rfl, gains⟩ := opens.fresh noLine
  have latest : ∀ id, id = builder.document.size ∨ id ∈ builder.document.lineage builder.current →
      id ∈ doc.lineage (doc.size - 1) := fun id either =>
    (gains.mem_lineage_last wf).2 either
  refine ⟨sound, gains.inOrder wf ordered.order ordered.current (by simp [newKind]), ?_, ?_, ?_, ?_⟩
  · exact latest _ (.inr (self_lineage _ _))
  · rintro id ⟨⟩
    exact latest _ (.inl rfl)
  · rintro id ⟨⟩
    exact ⟨rfl, by rw [gains.parent, if_pos rfl]⟩
  · cases behind with
    | filled => exact ⟨_, rfl, noAwaiting⟩
    | head =>
      refine ⟨_, rfl, noAwaiting, self_lineage _ _, latest _ (.inl rfl), ?_⟩
      rw [gains.children_other (Nat.ne_of_gt gains.inside), children, node_beyond _ (Nat.le_refl _)]
      rfl

section Parts

variable {line owner : Nat} {doc : Document} {outer : Option Nat} (ordered : Ordered spot builder)
  (isLine : builder.lineNode = some line) (receives : Receives builder.document line owner)
  (gains : Gains builder.document doc owner made pos outer)

include ordered gains

lemma Receives.kept (newKind : made.isAttribute) (here : Receives builder.document line id)
    (above : id ∈ builder.document.lineage owner) : Receives doc line id := by
  have wf := ordered.sound.document
  have inside := Nat.lt_of_le_of_lt (wf.lineage_le above) gains.inside
  refine ⟨?_, (gains.mem_lineage_last wf).2 (.inr above), ?_⟩
  · rw [gains.lineage_old wf inside]
    exact here.below
  · rw [(gains.links id).2, here.childless, newKind]
    simp

include receives isLine

lemma Ordered.gain {awaiting} (sound : Sound { builder with document := doc, awaiting := awaiting })
    (stands : Stands { builder with document := doc, awaiting := awaiting } next) :
    Ordered next { builder with document := doc, awaiting := awaiting } := by
  have wf := ordered.sound.document
  obtain ⟨isLast, parent⟩ := ordered.line line isLine
  have above := wf.lineage_parent (self_lineage _ _) parent
  refine ⟨sound, gains.inOrder wf ordered.order receives.latest fun _ => receives.childless, ?_, ?_, ?_, stands⟩
  · exact (gains.mem_lineage_last wf).2 (.inr (wf.lineage_trans above receives.below))
  · intro id found
    rw [isLast] at found
    cases found
    exact (gains.mem_lineage_last wf).2 (.inr receives.below)
  · intro id found
    rw [isLine] at found
    cases found
    refine ⟨isLast, ?_⟩
    rw [gains.parent, if_neg (Nat.ne_of_lt (ordered.sound.lineNode line isLine).inside)]
    exact parent

end Parts

lemma Ordered.addInline (ordered : Ordered (.head head) builder)
    (extended : builder.Extends after builder.lineNode made pos) (sound : after.Sound) :
    Ordered (.filled head) after := by
  obtain ⟨line, isLine, noAwaiting, receives⟩ := ordered.stands
  obtain ⟨owner, outer, doc, isOwner, gains, rfl⟩ := extended
  cases isLine.symm.trans isOwner
  exact ordered.gain isLine receives gains sound ⟨_, isLine, noAwaiting⟩

lemma Ordered.addShorthand (ordered : Ordered (.head head) builder)
    (extended : builder.Extends after builder.lineNode made pos) (sound : after.Sound)
    (newKind : made.isAttribute) : Ordered (.head head) after := by
  obtain ⟨line, isLine, noAwaiting, receives⟩ := ordered.stands
  obtain ⟨owner, outer, doc, isOwner, gains, rfl⟩ := extended
  cases isLine.symm.trans isOwner
  have kept := receives.kept ordered gains newKind (self_lineage _ _)
  exact ordered.gain isLine receives gains sound ⟨_, isLine, noAwaiting, kept⟩

lemma Ordered.addEntry (ordered : Ordered (.list head) builder)
    (extended : builder.Extends after builder.listOwner made pos) (sound : after.Sound)
    (newKind : made.isAttribute) : Ordered (.list head) after := by
  obtain ⟨line, found, isLine, noAwaiting, isFound, lineReceives, receives⟩ := ordered.stands
  obtain ⟨owner, outer, doc, isOwner, gains, rfl⟩ := extended
  cases isFound.symm.trans isOwner
  have lineKept := lineReceives.kept ordered gains newKind receives.below
  have ownerKept := receives.kept ordered gains newKind (self_lineage _ _)
  exact ordered.gain isLine receives gains sound ⟨line, _, isLine, noAwaiting, isOwner, lineKept, ownerKept⟩

lemma Ordered.assign (ordered : Ordered (.head head) builder)
    (extended : builder.Extends after builder.lineNode made pos) (newKind : made.isAttribute)
    (sound : Sound { after with awaiting := some builder.document.size }) :
    Ordered (.assigned head) { after with awaiting := some builder.document.size } := by
  have wf := ordered.sound.document
  obtain ⟨line, isLine, noAwaiting, receives⟩ := ordered.stands
  obtain ⟨owner, outer, doc, isOwner, gains, rfl⟩ := extended
  cases isLine.symm.trans isOwner
  have kept := receives.kept ordered gains newKind (self_lineage _ _)
  refine ordered.gain isLine receives gains sound ⟨line, _, isLine, rfl, kept, ?_, ?_, ?_⟩
  · exact (gains.mem_lineage_new wf).2 (.inr (self_lineage _ _))
  · exact (gains.mem_lineage_last wf).2 (.inl rfl)
  · rw [gains.children_other (Nat.ne_of_gt gains.inside), children, node_beyond _ (Nat.le_refl _)]
    rfl

lemma Ordered.openList (ordered : Ordered spot builder) (either : spot = .head head ∨ spot = .assigned head)
    (found : (builder.awaiting <|> builder.lineNode) = some owner)
    (sound : Sound { builder with listOwner := some owner, awaiting := none }) :
    Ordered (.list head) { builder with listOwner := some owner, awaiting := none } := by
  have stands := ordered.stands
  refine ⟨sound, ordered.order, ordered.current, ordered.last, ordered.line, ?_⟩
  rcases either with rfl | rfl
  · obtain ⟨line, isLine, noAwaiting, receives⟩ := stands
    rw [noAwaiting, isLine] at found
    cases found
    exact ⟨_, _, isLine, rfl, rfl, receives, receives⟩
  · obtain ⟨line, id, isLine, awaiting, lineReceives, receives⟩ := stands
    rw [awaiting] at found
    cases found
    exact ⟨line, _, isLine, rfl, rfl, lineReceives, receives⟩

lemma Ordered.close (ordered : Ordered (.head head) builder)
    (isElement : builder.document.kind target = .element tag closed)
    (sound : Sound { builder with document := builder.document.close target tag }) :
    Ordered (.filled head) { builder with document := builder.document.close target tag } := by
  have wf := ordered.sound.document
  obtain ⟨line, isLine, noAwaiting, _⟩ := ordered.stands
  have size : (builder.document.close target tag).size = builder.document.size := size_modify _ _ _
  have latest := lineage_close wf isElement (Nat.sub_lt wf.inside_root Nat.one_pos)
  refine ⟨sound, ordered.order.close wf isElement, ?_, ?_, ?_, ⟨line, isLine, noAwaiting⟩⟩
  · rw [size, latest]
    exact ordered.current
  · rw [size, latest]
    exact ordered.last
  · intro id found
    rw [(Keeps.of_closing isElement).parent id (ordered.sound.lineNode id found).inside]
    exact ordered.line id found

lemma Ordered.segment (ordered : Ordered spot builder) (behind : spot.Behind head) :
    (∃ line, builder.lineNode = some line) ∧ builder.awaiting = none := by
  cases behind with
  | head =>
    obtain ⟨line, isLine, noAwaiting, -⟩ := ordered.stands
    exact ⟨⟨line, isLine⟩, noAwaiting⟩
  | filled =>
    obtain ⟨line, isLine, noAwaiting⟩ := ordered.stands
    exact ⟨⟨line, isLine⟩, noAwaiting⟩

lemma climbs_lineage {doc : Document} (wf : doc.WellFormed) {levels place target}
    (mem : id ∈ doc.lineage place) (climbs : doc.Climbs levels id target) : target ∈ doc.lineage place := by
  induction levels generalizing id with
  | zero => exact climbs ▸ mem
  | succ levels ih =>
    obtain ⟨parent, found, further⟩ := climbs
    exact ih (wf.lineage_parent mem found) further

lemma Ordered.step (ordered : Ordered spot builder) {token}
    (leads : Leads spot token.kind next) {indentFollows}
    (ok : builder.step token indentFollows = .ok after) : Ordered next after := by
  have takes := step_takes ordered.sound ok
  have sound := takes.sound ordered.sound
  obtain ⟨kind, pos⟩ := token
  have ended : ∀ sealed, builder.Takes after indentFollows pos .newLine → Ordered (.edge sealed) after := by
    rintro sealed ⟨node, climbs, rfl⟩
    exact ⟨sound, ordered.order, climbs_lineage ordered.sound.document ordered.current climbs, ordered.last,
      nofun, rfl, rfl⟩
  cases leads with
  | indent =>
    obtain ⟨target, isLast, -, rfl⟩ := takes
    refine ⟨sound, ordered.order, ordered.last target isLast, ordered.last, ?_, ordered.stands⟩
    intro id isLine
    cases ordered.stands.1.symm.trans isLine
  | outdent =>
    obtain ⟨climb, frames, node, -, climbs, rfl⟩ := takes
    refine ⟨sound, ordered.order, climbs_lineage ordered.sound.document ordered.current climbs, ordered.last,
      ?_, ordered.stands⟩
    intro id isLine
    cases ordered.stands.1.symm.trans isLine
  | emptySegment => exact ended _ takes
  | head isHead =>
    cases kind with
    | tag name | statement line => exact ordered.openLine takes sound rfl .head
    | _ => cases isHead
  | inline isInline =>
    obtain ⟨made, -, newKind, opened | ⟨owner, _, _, isLine, _⟩⟩ := takes.inline isInline
    · exact ordered.openLine opened.2 sound newKind .filled
    · cases ordered.stands.1.symm.trans isLine
  | shorthand isShorthand =>
    cases kind with
    | classShorthand name | idShorthand name => exact ordered.addShorthand takes sound rfl
    | _ => cases isShorthand
  | assignment name =>
    obtain ⟨next, extended, rfl⟩ := takes
    exact ordered.assign extended rfl sound
  | list | assignedList =>
    obtain ⟨owner, found, rfl⟩ := takes
    exact ordered.openList (by simp) found sound
  | entry entry => exact ordered.addEntry takes sound rfl
  | listEnd =>
    cases takes
    obtain ⟨line, _, isLine, noAwaiting, _, receives, _⟩ := ordered.stands
    exact ⟨sound, ordered.order, ordered.current, ordered.last, ordered.line, ⟨line, isLine, noAwaiting, receives⟩⟩
  | selfClosing =>
    obtain ⟨target, tag, closed, -, isElement, rfl⟩ := takes
    exact ordered.close isElement sound
  | content isInline held =>
    obtain ⟨line, isLine, -⟩ := ordered.stands
    obtain ⟨made, -, -, opened | extended⟩ := takes.inline isInline
    · cases opened.1.symm.trans isLine
    · exact ordered.addInline extended sound
  | colon behind expands =>
    obtain ⟨line, isLine, rfl⟩ := takes
    refine ⟨sound, ordered.order, ordered.last line (ordered.line line isLine).1, ordered.last, nofun, rfl, ?_⟩
    exact (ordered.segment behind).2
  | lineEnd behind => exact ended _ takes

lemma Ordered.run (ordered : Ordered spot builder) (course : Course spot tokens final)
    (ok : builder.run tokens = .ok after) : Ordered final after := by
  induction course generalizing builder with
  | nil =>
    cases ok
    exact ordered
  | cons leads rest ih =>
    obtain ⟨next, taken, further⟩ := run_cons ok
    exact ih (ordered.step leads taken) further

end Builder

lemma Document.parse_inOrder (parsed : parse source = .ok doc) : doc.InOrder := by
  obtain ⟨builder, built, rfl, _⟩ := parse_eq_ok parsed
  obtain ⟨_, course⟩ := Token.stream_course source
  exact ((Builder.start_ordered false).run course built).order

end PugTemplate
