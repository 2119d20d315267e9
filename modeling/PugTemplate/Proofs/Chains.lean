import Mathlib.Data.List.Chain
import PugTemplate.Proofs.Building
import PugTemplate.Proofs.Grammar

/-!
# The chain of nodes that a line makes

A segment of a line makes one node below the current one and everything else inside that node. A colon
makes that node the current one. So a line makes a chain of nodes, and climbing up as many nodes as it
has colons leads back to where it started. The only fault on the way is a call that closes itself.
-/

namespace PugTemplate

open List TokenKind

namespace NodeKind

def isTag : NodeKind → Bool
  | element _ _ | statement (.call _) => true
  | _ => false

lemma isTag_unclosed (kind : NodeKind) : kind.unclosed.isTag = kind.isTag := by
  cases kind with
  | _ => rfl

end NodeKind

def TokenKind.isInner : TokenKind → Bool
  | indent | outdent | newLine | expansion => false
  | _ => true

variable {tokens : List Token} {tagged : Bool}

namespace Token

def Inner (tokens : List Token) : Prop :=
  ∀ token ∈ tokens, token.kind.isInner = true

lemma Inner.append (left : Inner first) (right : Inner second) : Inner (first ++ second) := by
  intro token mem
  rcases mem_append.1 mem with early | late
  · exact left token early
  · exact right token late

lemma Inner.no_new_line (inner : Inner tokens) : ∀ token ∈ tokens, token.kind ≠ .newLine := by
  intro token mem isNewLine
  have isInner := inner token mem
  rw [isNewLine] at isInner
  cases isInner

lemma IsList.inner (isList : IsList tokens) : Inner tokens := by
  obtain ⟨opening, entries, closing, rfl, written⟩ := isList.parts
  intro token mem
  simp only [cons_append, mem_cons, mem_append, not_mem_nil, or_false] at mem
  rcases mem with isOpening | isEntry | isClosing
  · rw [isOpening]
    rfl
  · obtain ⟨value, isAttribute⟩ := written token isEntry
    rw [isAttribute]
    rfl
  · rw [isClosing]
    rfl

lemma Part.inner (part : Part tagged tokens) : Inner tokens := by
  cases part with
  | classShorthand | idShorthand => simp [Inner, isInner]
  | list isList => exact isList.inner
  | assignment isTagged name pos isList =>
    intro token mem
    rcases mem_cons.1 mem with isFirst | isLater
    · rw [isFirst]
      rfl
    · exact isList.inner token isLater

lemma Parts.inner (parts : Parts tagged tokens) : Inner tokens := by
  induction parts with
  | nil => simp [Inner]
  | cons part more ih => exact part.inner.append ih

lemma isInline_inner {kind : TokenKind} (isInline : kind.isInline) : kind.isInner := by
  cases kind <;> first | rfl | cases isInline

lemma Content.inner {head} (content : Content head tokens) : Inner tokens := by
  cases content with
  | nothing => simp [Inner]
  | selfClosing isTagged pos => simp [Inner, isInner]
  | inline isInline held => simpa [Inner] using isInline_inner isInline

lemma Segmented.inner (segmented : Segmented tokens) : Inner tokens := by
  cases segmented with
  | bare => simp [Inner]
  | inline isInline => simpa [Inner] using isInline_inner isInline
  | @headed head parts content isHead hasParts listed hasContent =>
    have headInner : Inner [head] := by
      have isInner : head.kind.isInner := by
        revert isHead
        cases head.kind <;> simp [isHead, isInner]
      simpa [Inner] using isInner
    exact (headInner.append hasParts.inner).append hasContent.inner

/-- The nodes that head the segments of a line, if `next` is the next node of the store. The flag
says that a segment begins. -/
def lineNodes (next : Nat) (opening : Bool) : List Token → List Nat
  | [] => []
  | token :: more =>
    match token.kind.node? with
    | some _ =>
      if opening then next :: lineNodes (next + 1) false more else lineNodes (next + 1) false more
    | none => lineNodes next (opening || token.kind == .expansion) more

lemma Inner.line_nodes (inner : Inner tokens) (next more) :
    lineNodes next false (tokens ++ more) = lineNodes (next + created tokens) false more := by
  induction tokens generalizing next with
  | nil => rfl
  | cons token rest ih =>
    have later : Inner rest := fun other mem => inner other (by simp [mem])
    have isInner := inner token (by simp)
    have notExpansion : (token.kind == .expansion) = false := by
      rw [beq_eq_false_iff_ne]
      intro isExpansion
      rw [isExpansion] at isInner
      cases isInner
    rw [cons_append, lineNodes]
    cases makes : token.kind.node? with
    | none =>
      have none : created (token :: rest) = created rest := by
        simp [created, makes]
      simp [notExpansion, ih later, none]
    | some kind =>
      have one : created (token :: rest) = created rest + 1 := by
        simp [created, makes]
      simp only [Bool.false_eq_true, if_false]
      rw [ih later, one, Nat.add_assoc, Nat.add_comm 1]

lemma Segmented.head (segmented : Segmented tokens) (written : tokens ≠ []) :
    ∃ head more, tokens = head :: more ∧ head.kind.node?.isSome := by
  cases segmented with
  | bare => exact absurd rfl written
  | @inline token isInline =>
    refine ⟨token, [], rfl, ?_⟩
    revert isInline
    cases token.kind <;> simp [isInline, node?]
  | @headed head parts content isHead hasParts listed hasContent =>
    refine ⟨head, parts ++ content, rfl, ?_⟩
    revert isHead
    cases head.kind <;> simp [isHead, node?]

lemma Segmented.line_nodes (segmented : Segmented tokens) (written : tokens ≠ [])
    (next more) : lineNodes next true (tokens ++ more) = next :: lineNodes (next + created tokens) false more := by
  obtain ⟨head, rest, rfl, makes⟩ := segmented.head written
  have inner : Inner rest := fun other mem => segmented.inner other (by simp [mem])
  obtain ⟨kind, made⟩ := Option.isSome_iff_exists.1 makes
  have one : created (head :: rest) = created rest + 1 := by
    simp [created, made]
  rw [cons_append, lineNodes, made]
  simp only [if_true]
  rw [inner.line_nodes, one, Nat.add_assoc, Nat.add_comm 1]

end Token

namespace Document

lemma Climbs.trans (early : Climbs doc first start middle)
    (late : Climbs doc second middle target) : Climbs doc (first + second) start target := by
  induction first generalizing start with
  | zero =>
    cases early
    rw [Nat.zero_add]
    exact late
  | succ levels ih =>
    obtain ⟨parent, found, further⟩ := early
    rw [Nat.succ_add]
    exact ⟨parent, found, ih further⟩

lemma Climbs.keep {after} (wf : before.WellFormed) (keeps : Keeps before after)
    {id} (inside : id < before.size)
    (climbs : Climbs before levels id target) : Climbs after levels id target := by
  induction levels generalizing id with
  | zero => exact climbs
  | succ levels ih =>
    obtain ⟨parent, found, further⟩ := climbs
    refine ⟨parent, ?_, ih (Nat.lt_trans (wf.ordered found) inside) further⟩
    rw [keeps.parent id inside, found]

/-- A node is nested in another one behind a colon. -/
structure Encloses (doc : Document) (above below : Nat) : Prop where
  parent : doc.parent below = some above
  outer : (doc.node below).outer = some above

end Document

namespace Builder

open Document Token

/-- The faults that a builder finds in what the lexer reads. -/
inductive Fault (tokens : List Token) : Diagnostic → Prop
  | indentWithoutParent (position : Position) : Fault tokens (Cause.indentWithoutParent.diagnose position)
  | indentUnderLeaf (position : Position) : Fault tokens (Cause.indentUnderLeaf.diagnose position)
  | selfClosingCall {name place position parts}
      (hasParts : Parts true parts)
      (written : ⟨.statement (.call name), place⟩ :: parts ++ [⟨.selfClosing, position⟩]
        <:+: tokens) :
      Fault tokens (Cause.selfClosingNonElement.diagnose position)

lemma Fault.widen (fault : Fault tokens diag) (within : tokens <:+: more) : Fault more diag := by
  cases fault with
  | indentWithoutParent pos => exact .indentWithoutParent pos
  | indentUnderLeaf pos => exact .indentUnderLeaf pos
  | selfClosingCall hasParts written => exact .selfClosingCall hasParts (written.trans within)

/-- A result with a property, or one of the faults. -/
def Yields (tokens : List Token) (result : Except Diagnostic Builder)
    (property : Builder → Prop) : Prop :=
  match result with
  | .ok builder => property builder
  | .error diagnostic => Fault tokens diagnostic

namespace Yields

variable {result : Except Diagnostic Builder} {prop : Builder → Prop}
  (yields : Yields tokens result prop)

include yields

lemma imp {other}
    (implies : ∀ builder, result = .ok builder → prop builder → other builder) :
    Yields tokens result other := by
  cases result with
  | error diag => exact yields
  | ok builder => exact implies builder rfl yields

lemma widen (within : tokens <:+: more) : Yields more result prop := by
  cases result with
  | error diag => exact Fault.widen yields within
  | ok builder => exact yields

lemma bind {next other} (continues : ∀ builder, result = .ok builder → prop builder →
      Yields tokens (next builder) other) : Yields tokens (result.bind next) other := by
  cases result with
  | error diag => exact yields
  | ok builder => exact continues builder rfl yields

end Yields

/-- A builder at the start of a line or behind a colon. -/
structure Fresh (builder : Builder) : Prop where
  sound : builder.Sound
  lineNode : builder.lineNode = none
  listOwner : builder.listOwner = none
  awaiting : builder.awaiting = none

/-- A builder inside the segment that began at another builder, whose next node holds it. -/
structure Holding (before : Builder) (kind : NodeKind) (builder : Builder) : Prop where
  sound : builder.Sound
  current : builder.current = before.current
  expansions : builder.expansions = before.expansions
  frames : builder.frames = before.frames
  listOwner : builder.listOwner = none
  awaiting : builder.awaiting = none
  lineNode : builder.lineNode = some before.document.size
  last : builder.last = some before.document.size
  kind : (builder.document.kind before.document.size).unclosed = kind
  parent : builder.document.parent before.document.size = some before.current
  outer : (builder.document.node before.document.size).outer =
    if before.expansions > 0 then some before.current else none

variable {kind : NodeKind} {before builder : Builder}

lemma openLine_holding (fresh : builder.Fresh) (content : kind.isAttribute = false)
    (unclosed : kind.unclosed = kind) (pos) : Holding builder kind (builder.openLine kind pos) := by
  have opens := openLine_takes fresh.sound content pos
  have sound := opens.sound content fresh.sound
  obtain ⟨doc, opened, gains⟩ := opens.fresh fresh.lineNode
  rw [opened] at sound ⊢
  refine ⟨sound, rfl, rfl, rfl, fresh.listOwner, fresh.awaiting, rfl, rfl, ?_, ?_, ?_⟩
  · rw [gains.kind, if_pos rfl, unclosed]
  · rw [gains.parent, if_pos rfl]
  · rw [gains.outer_eq, if_pos rfl]

namespace Holding

lemma inside (holding : Holding before kind builder) : before.document.size < builder.document.size :=
  (holding.sound.lineNode _ holding.lineNode).inside

lemma grow (holding : Holding before kind builder)
    (result : builder.run tokens = .ok { builder with document := doc }) :
    Holding before kind { builder with document := doc } := by
  have keeps := (run_made holding.sound result).keeps
  have inside := holding.inside
  refine ⟨run_sound holding.sound result, holding.current, holding.expansions, holding.frames,
    holding.listOwner, holding.awaiting, holding.lineNode, holding.last, ?_, ?_, ?_⟩
  · rw [keeps.kind _ inside]
    exact holding.kind
  · rw [keeps.parent _ inside]
    exact holding.parent
  · rw [keeps.outer _ inside]
    exact holding.outer

end Holding

lemma entries_run {owner} (opened : builder.listOwner = some owner)
    {entries} (written : ∀ entry ∈ entries, ∃ value, entry.kind = .attr value) :
    ∃ doc, builder.run entries = .ok { builder with document := doc } := by
  induction entries generalizing builder with
  | nil => exact ⟨builder.document, rfl⟩
  | cons entry more ih =>
    obtain ⟨kind, pos⟩ := entry
    obtain ⟨value, isAttribute⟩ := written ⟨kind, pos⟩ (by simp)
    subst isAttribute
    have later : ∀ entry ∈ more, ∃ value, entry.kind = .attr value := by
      intro other mem
      exact written other (by simp [mem])
    have taken : builder.step ⟨.attr value, pos⟩ (more.head?.any isIndent) = .ok { builder with
          document := (builder.document.appendAttribute owner (.attr value) pos).1 } := by
      simp only [step, opened]
    simp only [run, taken]
    exact @ih { builder with
      document := (builder.document.appendAttribute owner (.attr value) pos).1 } opened later

lemma list_run {owner}
    (owned : builder.attributeOwner? (builder.awaiting <|> builder.lineNode) = some owner)
    {tokens} (isList : IsList tokens) : ∃ doc, builder.run tokens =
      .ok { builder with document := doc, listOwner := none, awaiting := none } := by
  obtain ⟨opening, entries, closing, rfl, written⟩ := isList.parts
  have inside : ∀ token ∈ entries, token.kind ≠ .newLine := by
    intro token mem
    exact isList.inner.no_new_line token (by simp [mem])
  have started : ∀ follows, builder.step ⟨.attributeStart, opening⟩ follows =
      .ok { builder with listOwner := some owner, awaiting := none } := by
    intro follows
    simp only [step, owned]
  obtain ⟨doc, ran⟩ := @entries_run
    { builder with listOwner := some owner, awaiting := none } owner rfl entries written
  refine ⟨doc, ?_⟩
  rw [cons_append, run, started]
  dsimp only
  rw [run_append _ _ inside, ran]
  rfl

/-- A kind of node that may own the parts of a head. -/
structure Owns (kind : NodeKind) (tagged : Bool) : Prop where
  accepts : kind.acceptsAttributes = true
  tag : tagged = true → kind.isTag

namespace Holding

variable (holding : Holding before kind builder)

include holding

lemma attribute_owner (accepts : kind.acceptsAttributes) :
    builder.attributeOwner? builder.lineNode = some before.document.size := by
  have lineAccepts : (builder.document.kind before.document.size).acceptsAttributes := by
    rw [← NodeKind.acceptsAttributes_unclosed, holding.kind]
    exact accepts
  rw [attributeOwner?, holding.lineNode, Option.filter_some, if_pos lineAccepts]

lemma assignment_owner (isTag : kind.isTag) : builder.assignmentOwner? = some before.document.size := by
  have lineTag : (builder.document.kind before.document.size).isTag := by
    rw [← NodeKind.isTag_unclosed, holding.kind]
    exact isTag
  rw [assignmentOwner?, holding.lineNode, Option.filter_some, if_pos]
  exact lineTag

lemma list (accepts : kind.acceptsAttributes)
    (isList : IsList tokens) : ∃ doc, builder.run tokens = .ok { builder with document := doc } := by
  have owned : builder.attributeOwner? (builder.awaiting <|> builder.lineNode) = some before.document.size := by
    rw [holding.awaiting]
    exact holding.attribute_owner accepts
  obtain ⟨doc, ran⟩ := list_run owned isList
  refine ⟨doc, ?_⟩
  rw [ran]
  simp [holding.listOwner, holding.awaiting]

lemma shorthand (accepts : kind.acceptsAttributes) (name value pos) :
    ∃ doc, builder.addShorthand name value pos = .ok { builder with document := doc } := by
  simp only [addShorthand, holding.attribute_owner accepts]
  exact ⟨_, rfl⟩

lemma assigned_list (isTag : kind.isTag) (name pos) (isList : IsList tokens) :
    ∃ doc, builder.run (⟨.assignment name, pos⟩ :: tokens) = .ok { builder with document := doc } := by
  have gains := append_attribute_gains holding.inside (show (NodeKind.assignment name).isAttribute = true from rfl)
    pos
  have taken : ∀ follows, builder.step ⟨.assignment name, pos⟩ follows = .ok { builder with
        document := (builder.document.appendAttribute before.document.size (.assignment name) pos).1
        awaiting := some builder.document.size } := by
    intro follows
    simp only [step, holding.assignment_owner isTag]
    rfl
  simp only [run, taken]
  generalize (builder.document.appendAttribute before.document.size (.assignment name)
    pos).1 = grown at gains ⊢
  have owned : attributeOwner? { builder with document := grown, awaiting := some builder.document.size }
      (some builder.document.size <|> builder.lineNode) = some builder.document.size := by
    have accepts : (grown.kind builder.document.size).acceptsAttributes := by
      rw [gains.kind, if_pos rfl]
      rfl
    simp [attributeOwner?, accepts]
  obtain ⟨doc, ran⟩ := @list_run
    { builder with document := grown, awaiting := some builder.document.size } _ owned _ isList
  refine ⟨doc, ?_⟩
  rw [ran]
  simp [holding.listOwner, holding.awaiting]

lemma part (owns : Owns kind tagged) (part : Part tagged tokens) :
    ∃ doc, builder.run tokens = .ok { builder with document := doc } := by
  cases part with
  | classShorthand isTagged name pos =>
    obtain ⟨doc, added⟩ := holding.shorthand owns.accepts "class" name pos
    exact ⟨doc, by simp [run, step, added]⟩
  | idShorthand isTagged name pos =>
    obtain ⟨doc, added⟩ := holding.shorthand owns.accepts "id" name pos
    exact ⟨doc, by simp [run, step, added]⟩
  | list isList => exact holding.list owns.accepts isList
  | assignment isTagged name pos isList =>
    exact holding.assigned_list (owns.tag isTagged) name pos isList

lemma parts (owns : Owns kind tagged)
    (hasParts : Parts tagged tokens) : ∃ doc, builder.run tokens = .ok { builder with document := doc } := by
  induction hasParts generalizing builder with
  | nil => exact ⟨builder.document, rfl⟩
  | @cons first rest part more ih =>
    obtain ⟨grown, ran⟩ := holding.part owns part
    obtain ⟨doc, further⟩ := ih (holding.grow ran)
    refine ⟨doc, ?_⟩
    rw [run_append builder rest part.inner.no_new_line, ran]
    exact further

end Holding

lemma inline_step (builder : Builder) (isInline : token.kind.isInline) :
    ∃ kind : NodeKind, kind.isAttribute = false ∧ kind.unclosed = kind ∧
      ∀ follows, builder.step token follows = .ok (builder.addInline kind token.position) := by
  obtain ⟨kind, pos⟩ := token
  cases kind with
  | text value => exact ⟨.text value false, rfl, rfl, fun _ => rfl⟩
  | expression echo => exact ⟨.expression echo, rfl, rfl, fun _ => rfl⟩
  | _ => cases isInline

lemma Takes.inline {after kind indentFollows pos}
    (takes : builder.Takes after indentFollows pos kind) (isInline : kind.isInline) :
    ∃ made : NodeKind, kind.node? = some made ∧ made.isAttribute = false ∧
      (builder.lineNode = none ∧ builder.Opens after made pos ∨
        builder.Extends after builder.lineNode made pos) := by
  cases kind with
  | text value | expression echo => exact ⟨_, rfl, rfl, takes⟩
  | _ => cases isInline

lemma head_step (builder : Builder) {head} (isHead : head.kind.isHead) :
    ∃ kind : NodeKind, kind.isAttribute = false ∧ kind.unclosed = kind ∧
      (∀ follows, builder.step head follows = .ok (builder.openLine kind head.position)) ∧
      (head.kind.takesList → Owns kind head.kind.isTag) ∧
      (head.kind.isTag → (∃ tag, kind = .element tag false) ∨ ∃ name, head.kind = .statement (.call name)) := by
  obtain ⟨kind, pos⟩ := head
  cases kind with
  | tag name =>
    refine ⟨.element name false, rfl, rfl, fun _ => rfl, ?_, ?_⟩
    · exact fun _ => ⟨rfl, fun _ => rfl⟩
    · exact fun _ => Or.inl ⟨name, rfl⟩
  | statement line =>
    refine ⟨.statement line, rfl, rfl, fun _ => rfl, ?_, ?_⟩
    · intro takesList
      cases line <;> first | exact ⟨rfl, fun isTag => isTag⟩ | cases takesList
    · intro isTag
      cases line <;> first | exact Or.inr ⟨_, rfl⟩ | cases isTag
  | _ => cases isHead

lemma Holding.selfClose (holding : Holding before kind builder) (pos) :
    (∀ tag, kind = .element tag false → ∃ doc, builder.selfClose pos = .ok { builder with document := doc }) ∧
    ((∃ doc, builder.selfClose pos = .ok { builder with document := doc }) ∨
      builder.selfClose pos = .error (Cause.selfClosingNonElement.diagnose pos)) := by
  have lineKind := holding.kind
  simp only [Builder.selfClose, holding.lineNode]
  cases found : builder.document.kind before.document.size with
  | element tag closed => exact ⟨fun _ _ => ⟨_, rfl⟩, Or.inl ⟨_, rfl⟩⟩
  | _ =>
    rw [found] at lineKind
    refine ⟨?_, Or.inr rfl⟩
    intro tag isElement
    rw [isElement] at lineKind
    cases lineKind

lemma Holding.content (holding : Holding before kind builder) {head parts content}
    (hasParts : Parts head.kind.isTag parts) (hasContent : Content head.kind content)
    (closes : head.kind.isTag → (∃ tag, kind = .element tag false) ∨ ∃ name, head.kind = .statement (.call name)) :
    Yields (head :: parts ++ content) (builder.run content) fun next =>
      ∃ doc, next = { builder with document := doc } := by
  cases hasContent with
  | nothing => exact ⟨builder.document, rfl⟩
  | selfClosing isTagged pos =>
    obtain ⟨element, either⟩ := holding.selfClose pos
    have ran : builder.run [⟨.selfClosing, pos⟩] = builder.selfClose pos := by
      simp only [run, step]
      cases builder.selfClose pos <;> rfl
    rw [ran]
    rcases closes isTagged with ⟨tag, isElement⟩ | ⟨name, isCall⟩
    · obtain ⟨doc, closed⟩ := element tag isElement
      rw [closed]
      exact ⟨doc, rfl⟩
    · rcases either with ⟨doc, closed⟩ | failed
      · rw [closed]
        exact ⟨doc, rfl⟩
      · rw [failed]
        obtain ⟨headKind, place⟩ := head
        subst isCall
        exact .selfClosingCall hasParts (infix_refl _)
  | inline isInline held =>
    obtain ⟨inlineKind, _, _, taken⟩ := builder.inline_step isInline
    simp only [run, taken, addInline, holding.lineNode]
    exact ⟨_, rfl⟩

lemma segment_yields (fresh : builder.Fresh) (segmented : Segmented tokens) (written : tokens ≠ []) :
    Yields tokens (builder.run tokens) fun next => ∃ kind, Holding builder kind next := by
  cases segmented with
  | bare => exact absurd rfl written
  | @inline token isInline =>
    obtain ⟨kind, content, unclosed, taken⟩ := builder.inline_step isInline
    simp only [run, taken, addInline, fresh.lineNode]
    exact ⟨kind, openLine_holding fresh content unclosed token.position⟩
  | @headed head parts content isHead hasParts listed hasContent =>
    obtain ⟨kind, isContent, unclosed, taken, owns, closes⟩ := builder.head_step isHead
    have opened := openLine_holding fresh isContent unclosed head.position
    have behind : ∃ doc, (builder.openLine kind head.position).run parts =
        .ok { builder.openLine kind head.position with document := doc } := by
      by_cases none : parts = []
      · rw [none]
        exact ⟨_, rfl⟩
      · exact opened.parts (owns (listed none)) hasParts
    obtain ⟨doc, ran⟩ := behind
    have held := opened.grow ran
    rw [cons_append, run, taken]
    dsimp only
    rw [run_append _ content hasParts.inner.no_new_line, ran]
    apply (held.content hasParts hasContent closes).imp
    intro next last same
    obtain ⟨closed, rfl⟩ := same
    exact ⟨kind, held.grow last⟩

/-- What a line that began at another builder has made so far: its nodes are a chain, and the
expansions count the way back up. A line that is not sealed ends in the last node of the chain. -/
structure Linked (before : Builder) (sealed : Bool) (nodes : List Nat) (builder : Builder) :
    Prop where
  sound : builder.Sound
  frames : builder.frames = before.frames
  climbs : ∃ count, builder.expansions = before.expansions + count ∧
    Climbs builder.document count builder.current before.current
  last : sealed = false → ∃ node, nodes.getLast? = some node ∧ builder.last = some node ∧
    builder.document.parent node = some builder.current
  chain : nodes.IsChain (Encloses builder.document)
  first : ∀ node ∈ nodes.head?, builder.document.parent node = some before.current ∧
    (0 < before.expansions → (builder.document.node node).outer = some before.current)

lemma Holding.expand (holding : Holding before kind builder) {pos follows} :
    ∃ next, builder.step ⟨.expansion, pos⟩ follows = .ok next ∧ next.Fresh ∧
      next.document = builder.document ∧ next.current = before.document.size ∧
      next.expansions = before.expansions + 1 ∧ next.frames = before.frames := by
  have taken : builder.step ⟨.expansion, pos⟩ follows = .ok { builder with
      current := before.document.size
      expansions := builder.expansions + 1
      lineNode := none } := by
    simp only [step, holding.lineNode]
  refine ⟨_, taken, ⟨step_sound holding.sound taken, rfl, holding.listOwner, holding.awaiting⟩, rfl,
    rfl, ?_, holding.frames⟩
  rw [holding.expansions]

lemma Holding.linked (holding : Holding before kind builder) (sealed) :
    Linked before sealed [before.document.size] builder where
  sound := holding.sound
  frames := holding.frames
  climbs := ⟨0, holding.expansions, holding.current⟩
  last := by
    intro _
    refine ⟨before.document.size, rfl, holding.last, ?_⟩
    rw [holding.parent, holding.current]
  chain := by simp
  first := by
    intro node isFirst
    cases isFirst
    refine ⟨holding.parent, fun behind => ?_⟩
    rw [holding.outer, if_pos behind]

lemma Fresh.linked (fresh : builder.Fresh) : Linked builder true [] builder where
  sound := fresh.sound
  frames := rfl
  climbs := ⟨0, rfl, rfl⟩
  last := by simp
  chain := by simp
  first := by simp

lemma Linked.expand {middle next sealed nodes} (holding : Holding before kind middle)
    (doc : next.document = middle.document) (current : next.current = before.document.size)
    (expansions : next.expansions = before.expansions + 1) (frames : next.frames = before.frames)
    (keeps : Keeps next.document builder.document) (linked : Linked next sealed nodes builder) :
    Linked before sealed (before.document.size :: nodes) builder := by
  have inside : before.document.size < next.document.size := by
    rw [doc]
    exact holding.inside
  have parent : builder.document.parent before.document.size = some before.current := by
    rw [keeps.parent _ inside, doc]
    exact holding.parent
  refine ⟨linked.sound, linked.frames.trans frames, ?_, ?_, ?_, ?_⟩
  · obtain ⟨count, total, climbs⟩ := linked.climbs
    refine ⟨count + 1, by omega, ?_⟩
    rw [current] at climbs
    exact climbs.trans ⟨_, parent, rfl⟩
  · intro isWritten
    obtain ⟨node, isLast, rest⟩ := linked.last isWritten
    refine ⟨node, ?_, rest⟩
    rw [getLast?_cons, isLast]
    rfl
  · apply linked.chain.cons
    intro node isFirst
    obtain ⟨firstParent, firstOuter⟩ := linked.first node isFirst
    rw [current] at firstParent firstOuter
    exact ⟨firstParent, firstOuter (by omega)⟩
  · intro node isFirst
    cases isFirst
    refine ⟨parent, fun behind => ?_⟩
    rw [keeps.outer _ inside, doc, holding.outer, if_pos behind]

lemma content_yields (fresh : builder.Fresh) (joined : Joined tokens sealed) : Yields tokens (builder.run tokens)
      (Linked builder sealed (lineNodes builder.document.size true tokens)) := by
  -- what stands behind a colon is a line of its own, begun one node further down
  induction joined generalizing builder with
  | @last tokens segmented =>
    by_cases nothing : tokens = []
    · rw [nothing]
      exact fresh.linked
    · have nodes := segmented.line_nodes nothing builder.document.size []
      rw [append_nil] at nodes
      rw [nodes]
      apply (segment_yields fresh segmented nothing).imp
      intro next _ held
      obtain ⟨kind, holding⟩ := held
      exact holding.linked _
  | @expand tokens more sealed segmented expands pos rest ih =>
    have written := written_of_expandable expands
    have within : tokens <:+: tokens ++ ⟨.expansion, pos⟩ :: more := (prefix_append _ _).isInfix
    have behind : more <:+: tokens ++ ⟨.expansion, pos⟩ :: more :=
      ((suffix_cons _ _).trans (suffix_append _ _)).isInfix
    have nodes := segmented.line_nodes written builder.document.size (⟨.expansion, pos⟩ :: more)
    rw [run_append builder _ segmented.inner.no_new_line]
    apply ((segment_yields fresh segmented written).widen within).bind
    intro middle ran held
    obtain ⟨kind, holding⟩ := held
    obtain ⟨next, taken, nextFresh, doc, current, expansions, frames⟩ :=
      @Holding.expand kind builder middle holding pos (more.head?.any isIndent)
    rw [run, taken]
    apply ((ih nextFresh).widen behind).imp
    intro after further linked
    have size : next.document.size = builder.document.size + created tokens := by
      rw [doc, (run_made fresh.sound ran).size]
    rw [size] at linked
    rw [nodes]
    exact linked.expand holding doc current expansions frames (run_made nextFresh.sound further).keeps

end Builder

end PugTemplate
