import PugTemplate.Proofs.Coherence

/-!
# Where nodes are put

A node is only put below a node whose kind takes it: nothing is below a text or a comment, and only
text is below a filter. The builder keeps to this because of the grammar of lines, where a colon
only follows what takes any node and no line is deeper than a filter, and the passes keep it.
-/

namespace PugTemplate

open NodeKind TokenKind

variable {kind : NodeKind} {doc : Document} {spot : Token.Spot}

namespace NodeKind

def isFilter : NodeKind → Bool
  | statement (.filter _) => true
  | _ => false

/-- Whether any node may be below a node of this kind. -/
def isOpen (kind : NodeKind) : Bool :=
  kind.acceptsChildren && !kind.isFilter

/-- Whether a node of one kind may be below a node of another. -/
def takes (owner child : NodeKind) : Bool :=
  owner.isOpen || owner.isFilter && child.isText

lemma takes_unclosed (owner child : NodeKind) : owner.unclosed.takes child.unclosed = owner.takes child := by
  cases owner with
  | element tag closed => rfl
  | _ =>
    cases child with
    | _ => rfl

lemma isOpen_unclosed : kind.unclosed.isOpen = kind.isOpen := by
  cases kind with
  | _ => rfl

lemma isFilter_unclosed : kind.unclosed.isFilter = kind.isFilter := by
  cases kind with
  | _ => rfl

lemma isAttribute_unclosed : kind.unclosed.isAttribute = kind.isAttribute := by
  cases kind with
  | _ => rfl

variable {owner child : NodeKind}

lemma takes_of_open (isOpen : owner.isOpen) (child) : owner.takes child := by
  simp [takes, isOpen]

lemma open_of_takes (takes : owner.takes child) (noText : child.isText = false) : owner.isOpen := by
  simpa [NodeKind.takes, noText] using takes

lemma accepts_of_takes (takes : owner.takes child) : owner.acceptsChildren := by
  cases isFilter : owner.isFilter with
  | true =>
    unfold NodeKind.isFilter at isFilter
    split at isFilter
    · rfl
    · cases isFilter
  | false => simpa [NodeKind.takes, isOpen, isFilter] using takes

lemma text_of_takes (takes : owner.takes child) (isFilter : owner.isFilter) : child.isText := by
  simpa [NodeKind.takes, isOpen, isFilter] using takes

lemma open_no_text (isOpen : kind.isOpen) : kind.isText = false ∧ kind.isAttribute = false := by
  cases kind with
  | text | attr | assignment => cases isOpen
  | _ => exact ⟨rfl, rfl⟩

lemma block_open (isBlock : kind.isBlock) : kind.isOpen := by
  unfold NodeKind.isBlock at isBlock
  split at isBlock
  · rfl
  · cases isBlock

lemma placeholder_no_text (placeholder : kind.isPlaceholder) : kind.isText = false := by
  cases kind with
  | text value verbatim => cases placeholder
  | _ => rfl

end NodeKind

namespace Document

/-- Every node is below one that takes it. -/
def Furnished (doc : Document) : Prop :=
  ∀ id owner, doc.parent id = some owner → (doc.kind id).isAttribute = false →
    (doc.kind owner).takes (doc.kind id) = true

lemma Furnished.grow {before after} (wf : before.WellFormed)
    (furnished : before.Furnished) (keeps : Keeps before after)
    (new : ∀ id owner, before.size ≤ id → after.parent id = some owner →
      (after.kind id).isAttribute = false → (after.kind owner).takes (after.kind id)) :
    after.Furnished := by
  intro id owner parent noAttribute
  by_cases old : id < before.size
  · rw [keeps.parent id old] at parent
    have ownerOld := Nat.lt_trans (wf.ordered parent) old
    rw [← isAttribute_unclosed, keeps.kind id old, isAttribute_unclosed] at noAttribute
    rw [← takes_unclosed, keeps.kind id old, keeps.kind owner ownerOld, takes_unclosed]
    exact furnished id owner parent noAttribute
  · exact new id owner (Nat.le_of_not_lt old) parent noAttribute

lemma Furnished.adds {before after pos}
    (wf : before.WellFormed) (furnished : before.Furnished) (adds : Adds before after kind pos)
    (fits : ∀ owner, after.parent before.size = some owner → kind.isAttribute = false →
      (after.kind owner).takes kind) : after.Furnished := by
  refine furnished.grow wf adds.keeps ?_
  intro id owner beyond parent noAttribute
  have isNew : id = before.size := by
    have inside := parent_inside parent
    have size := adds.size
    omega
  rw [isNew] at parent noAttribute ⊢
  rw [adds.kind] at noAttribute ⊢
  exact fits owner parent noAttribute

lemma Furnished.relinks {children} (furnished : before.Furnished)
    (relinks : Relinks before after owner children)
    (isOpen : (before.kind owner).isOpen) : after.Furnished := by
  intro id other parent noAttribute
  rw [relinks.parent] at parent
  rw [relinks.kind] at noAttribute
  rw [relinks.kind, relinks.kind]
  split at parent
  · cases parent
    exact takes_of_open isOpen _
  · split at parent
    · cases parent
    · exact furnished id other parent noAttribute

lemma graft_furnished {source : Document} (wf : doc.WellFormed)
    (furnished : doc.Furnished) (sourceWf : source.WellFormed)
    (sourceFurnished : source.Furnished) {id} : (doc.graft (source.subtree id)).1.Furnished := by
  have grows := @graft_grows doc source id
  have kindNew := fun {old : Nat} => @WellFormed.graft_kind_new doc source id sourceWf old
  intro new owner parent noAttribute
  by_cases old : new < doc.size
  · rw [grows.parent old] at parent
    rw [(grows.content old).kind] at noAttribute ⊢
    rw [(grows.content (Nat.lt_trans (wf.ordered parent) old)).kind]
    exact furnished new owner parent noAttribute
  · obtain ⟨copied, copiedOwner, mem, ownerMember, copiedParent, rfl, rfl⟩ :=
      sourceWf.graft_parent_some (Nat.le_of_not_lt old) parent
    rw [kindNew mem] at noAttribute ⊢
    rw [kindNew ownerMember]
    exact sourceFurnished copied copiedOwner copiedParent noAttribute

lemma furnished_lasting : Lasting Furnished where
  create := by
    intro doc wf furnished kind pos id owner parent noAttribute
    rw [(create_links kind pos id).1] at parent
    have inside := parent_inside parent
    have ownerInside := Nat.lt_trans (wf.ordered parent) inside
    rw [create_kind, if_neg (Nat.ne_of_lt inside)] at noAttribute
    rw [create_kind, create_kind, if_neg (Nat.ne_of_lt inside), if_neg (Nat.ne_of_lt ownerInside)]
    exact furnished id owner parent noAttribute
  graft := fun wf furnished sourceWf sourceFurnished _ =>
    graft_furnished wf furnished sourceWf sourceFurnished
  refill := fun wf furnished _ _ inside isBlock newInside _ =>
    furnished.relinks (setChildren_relinks inside (fun _ mem => wf.child_inside mem)
      newInside) (block_open isBlock)
  insert := by
    intro doc wf furnished index ids distinct orphan inside positive
    refine furnished.relinks (insertChildren_relinks wf index wf.inside_root inside) ?_
    rw [wf.root_kind]
    rfl
  replace := by
    intro doc wf furnished owner id ids parent placeholder inside orphan distinct later
    have noAttribute := placeholder_no_attribute placeholder
    have taken := furnished id owner parent noAttribute
    refine furnished.relinks (replace_relinks wf parent noAttribute inside ?_)
      (open_of_takes taken (placeholder_no_text placeholder))
    intro mem
    rw [orphan id mem] at parent
    cases parent

end Document

namespace Token

/-- The first token of the segment that goes on here. -/
def Spot.head? : Spot → Option TokenKind
  | edge _ => none
  | head kind | assigned kind | list kind | filled kind => some kind

lemma Spot.Behind.head_eq {kind} (behind : spot.Behind kind) : spot.head? = some kind := by
  cases behind <;> rfl

end Token

namespace TokenKind

lemma expands_open {head : TokenKind} (expands : head.expands) (made : head.node? = some kind) : kind.isOpen := by
  cases head with
  | tag name =>
    cases made
    rfl
  | statement line =>
    cases made
    cases line with
    | call | branch => rfl
    | _ => cases expands
  | _ => cases expands

lemma holds_takes {head content : TokenKind} {inner} (held : head.holds content)
    (made : head.node? = some kind) (makes : content.node? = some inner) : kind.takes inner := by
  cases head with
  | tag name =>
    cases made
    rfl
  | statement line =>
    cases made
    cases line with
    | call name => rfl
    | filter name =>
      cases content with
      | text value =>
        cases makes
        rfl
      | _ => cases held
    | _ => cases held
  | _ => cases held

/-- Shorthands, the tokens of attribute lists, and a slash. -/
def isPart : TokenKind → Bool
  | classShorthand _ | idShorthand _ | attributeStart | attr _ | attributeEnd | assignment _
  | selfClosing => true
  | _ => false

lemma part_attribute {part : TokenKind} (isPart : part.isPart) (made : part.node? = some kind) :
    kind.isAttribute := by
  cases part with
  | classShorthand | idShorthand | attr | assignment =>
    cases made
    rfl
  | attributeStart | attributeEnd | selfClosing => cases made
  | _ => cases isPart

lemma no_filter {head : TokenKind} (noFilter : head.isFilter = false) (made : head.node? = some kind) :
    kind.isFilter = false := by
  cases head with
  | statement line =>
    cases made
    cases line with
    | filter name => cases noFilter
    | _ => rfl
  | _ => cases made <;> rfl

end TokenKind

namespace Builder

open Document Token

/-- What the builder has put into the document is in its place, and so will be what comes next. -/
structure Furnishes (spot : Spot) (builder : Builder) : Prop where
  ordered : Ordered spot builder
  furnished : builder.document.Furnished
  current : (builder.document.kind builder.current).isOpen = true
  last : spot = .edge false → ∀ id, builder.last = some id → (builder.document.kind id).isFilter = false
  line : ∀ head, spot.head? = some head → ∀ id, builder.lineNode = some id →
    head.node? = some (builder.document.kind id).unclosed

variable {builder after : Builder} {indentFollows : Bool} {next : Spot} {pos : Position}
  {head : TokenKind}

lemma Furnishes.edge (ordered : Ordered (.edge sealed) builder) (furnished : builder.document.Furnished)
    (current : (builder.document.kind builder.current).isOpen)
    (last : sealed = false → ∀ id, builder.last = some id →
      (builder.document.kind id).isFilter = false) : Furnishes (.edge sealed) builder where
  ordered := ordered
  furnished := furnished
  current := current
  last := by
    intro isEdge
    cases isEdge
    exact last rfl
  line := by
    intro head isHead
    cases isHead

lemma start_furnishes : Furnishes (.edge false) start := by
  refine .edge (start_ordered false) ?_ rfl ?_
  · intro id owner parent
    have orphan : empty.parent id = none := by
      rw [Document.parent, empty_node]
      rfl
    cases orphan.symm.trans parent
  · intro _ id isLast
    cases isLast

lemma Furnishes.within (furnishes : Furnishes spot builder)
    (here : spot.head? = some head) (there : next.head? = some head) (ordered : Ordered next after)
    (keeps : Keeps builder.document after.document) (furnished : after.document.Furnished)
    (current : after.current = builder.current) (lineNode : after.lineNode = builder.lineNode) :
    Furnishes next after where
  ordered := ordered
  furnished := furnished
  current := by
    rw [current, ← isOpen_unclosed, keeps.kind _ furnishes.ordered.sound.current.inside, isOpen_unclosed]
    exact furnishes.current
  last := by
    intro isEdge
    rw [isEdge] at there
    cases there
  line := by
    intro other isHead id isLine
    rw [there] at isHead
    cases isHead
    rw [lineNode] at isLine
    rw [keeps.kind id (furnishes.ordered.sound.lineNode id isLine).inside]
    exact furnishes.line head here id isLine

lemma Takes.place {kind} (isPart : kind.isPart)
    (takes : builder.Takes after indentFollows pos kind) :
    after.current = builder.current ∧ after.lineNode = builder.lineNode := by
  cases kind with
  | classShorthand name | idShorthand name | attr entry =>
    obtain ⟨_, _, _, -, -, rfl⟩ := takes
    exact ⟨rfl, rfl⟩
  | attributeStart =>
    obtain ⟨_, -, rfl⟩ := takes
    exact ⟨rfl, rfl⟩
  | attributeEnd =>
    cases takes
    exact ⟨rfl, rfl⟩
  | assignment name =>
    obtain ⟨_, ⟨_, _, _, -, -, rfl⟩, rfl⟩ := takes
    exact ⟨rfl, rfl⟩
  | selfClosing =>
    obtain ⟨_, _, _, -, -, rfl⟩ := takes
    exact ⟨rfl, rfl⟩
  | _ => cases isPart

lemma Furnishes.part (furnishes : Furnishes spot builder)
    (here : spot.head? = some head) (there : next.head? = some head) (ordered : Ordered next after)
    {token : Token} (isPart : token.kind.isPart)
    (takes : builder.Takes after indentFollows token.position token.kind) : Furnishes next after := by
  have sound := furnishes.ordered.sound
  have grows := takes.grows
  obtain ⟨current, lineNode⟩ := takes.place isPart
  refine furnishes.within here there ordered grows.keeps ?_ current lineNode
  unfold Grows at grows
  split at grows
  · refine furnishes.furnished.grow sound.document grows.1 ?_
    intro id owner beyond parent
    have inside := parent_inside parent
    omega
  · rename_i kind makes
    refine furnishes.furnished.adds sound.document grows fun owner _ noAttribute => ?_
    rw [part_attribute isPart makes] at noAttribute
    cases noAttribute

lemma Furnishes.openLine (furnishes : Furnishes (.edge sealed) builder)
    (ordered : Ordered next after) (opens : builder.Opens after kind pos)
    (makes : head.node? = some kind) (behind : next.Behind head) : Furnishes next after := by
  have sound := furnishes.ordered.sound
  obtain ⟨doc, rfl, gains⟩ := opens.fresh furnishes.ordered.stands.1
  have currentOpen : (doc.kind builder.current).isOpen := by
    rw [gains.kind, if_neg (Nat.ne_of_lt gains.inside)]
    exact furnishes.current
  refine ⟨ordered, ?_, currentOpen, ?_, ?_⟩
  · refine furnishes.furnished.adds sound.document gains.adds fun owner parent _ => ?_
    rw [gains.parent, if_pos rfl] at parent
    cases parent
    exact takes_of_open currentOpen _
  · intro isEdge
    rw [isEdge] at behind
    cases behind
  · intro other isHead id isLine
    rw [behind.head_eq] at isHead
    cases isHead
    cases isLine
    rw [gains.kind, if_pos rfl, node?_unclosed makes]
    exact makes

lemma Furnishes.addInline (furnishes : Furnishes (.head head) builder)
    (ordered : Ordered (.filled head) after)
    (extended : builder.Extends after builder.lineNode kind pos) (makes : content.node? = some kind)
    (held : head.holds content) : Furnishes (.filled head) after := by
  obtain ⟨line, outer, doc, isLine, gains, rfl⟩ := extended
  have bears := furnishes.line head rfl line isLine
  refine furnishes.within rfl rfl ordered gains.adds.keeps ?_ rfl rfl
  refine furnishes.furnished.adds furnishes.ordered.sound.document gains.adds fun owner parent _ => ?_
  rw [gains.parent, if_pos rfl] at parent
  cases parent
  rw [gains.kind, if_neg (Nat.ne_of_lt gains.inside), ← takes_unclosed, node?_unclosed makes]
  exact holds_takes held bears makes

lemma open_parent (furnished : doc.Furnished) {id} (isOpen : (doc.kind id).isOpen)
    (parent : doc.parent id = some owner) : (doc.kind owner).isOpen := by
  obtain ⟨noText, noAttribute⟩ := open_no_text isOpen
  exact open_of_takes (furnished id owner parent noAttribute) noText

lemma climbs_open (furnished : doc.Furnished) {id} (isOpen : (doc.kind id).isOpen)
    (climbs : doc.Climbs levels id target) : (doc.kind target).isOpen := by
  induction levels generalizing id with
  | zero => exact climbs ▸ isOpen
  | succ levels ih =>
    obtain ⟨parent, found, further⟩ := climbs
    exact ih (open_parent furnished isOpen found) further

lemma Furnishes.endLine (furnishes : Furnishes spot builder) (ordered : Ordered (.edge sealed) after)
    (lastKind : sealed = false → ∀ id, builder.last = some id → (builder.document.kind id).isFilter = false)
    (takes : builder.Takes after indentFollows pos .newLine) : Furnishes (.edge sealed) after := by
  obtain ⟨node, climbs, rfl⟩ := takes
  exact .edge ordered furnishes.furnished (climbs_open furnishes.furnished furnishes.current climbs) lastKind

lemma Furnishes.step (furnishes : Furnishes spot builder) (leads : Leads spot token.kind next)
    (ok : builder.step token indentFollows = .ok after) : Furnishes next after := by
  have ordered := furnishes.ordered.step leads ok
  have takes := step_takes furnishes.ordered.sound ok
  have part : ∀ {head}, spot.head? = some head → next.head? = some head → token.kind.isPart = true →
      Furnishes next after := fun here there isPart => furnishes.part here there ordered isPart takes
  obtain ⟨kind, pos⟩ := token
  cases leads with
  | indent =>
    obtain ⟨target, isLast, accepts, rfl⟩ := takes
    refine .edge ordered furnishes.furnished ?_ (by simp)
    have noFilter := furnishes.last rfl target isLast
    simp only [isOpen, noFilter, Bool.not_false, Bool.and_true]
    exact accepts
  | outdent =>
    obtain ⟨climb, frames, node, -, climbs, rfl⟩ := takes
    exact .edge ordered furnishes.furnished (climbs_open furnishes.furnished furnishes.current climbs) (by simp)
  | emptySegment => exact furnishes.endLine ordered (by simp) takes
  | head isHead =>
    cases kind with
    | tag name | statement line => exact furnishes.openLine ordered takes rfl .head
    | _ => cases isHead
  | inline isInline =>
    obtain ⟨made, makes, -, opened | ⟨_, _, _, isLine, _⟩⟩ := takes.inline isInline
    · exact furnishes.openLine ordered opened.2 makes .filled
    · cases furnishes.ordered.stands.1.symm.trans isLine
  | shorthand isShorthand =>
    refine part rfl rfl ?_
    cases kind with
    | classShorthand name | idShorthand name => rfl
    | _ => cases isShorthand
  | assignment | list | assignedList | entry | listEnd | selfClosing => exact part rfl rfl rfl
  | content isInline held =>
    obtain ⟨line, isLine, -⟩ := furnishes.ordered.stands
    obtain ⟨made, makes, -, opened | extended⟩ := takes.inline isInline
    · cases opened.1.symm.trans isLine
    · exact furnishes.addInline ordered extended makes held
  | colon behind expands =>
    obtain ⟨line, isLine, rfl⟩ := takes
    have bears := furnishes.line _ behind.head_eq line isLine
    refine .edge ordered furnishes.furnished ?_ (by simp)
    rw [← isOpen_unclosed]
    exact expands_open expands bears
  | @lineEnd head spot behind =>
    refine furnishes.endLine ordered ?_ takes
    intro noFilter id isLast
    obtain ⟨line, isLine⟩ := (furnishes.ordered.segment behind).1
    rw [(furnishes.ordered.line line isLine).1] at isLast
    cases isLast
    rw [← isFilter_unclosed]
    exact no_filter noFilter (furnishes.line head behind.head_eq id isLine)

lemma Furnishes.run (furnishes : Furnishes spot builder) (course : Course spot tokens final)
    (ok : builder.run tokens = .ok after) : Furnishes final after := by
  induction course generalizing builder with
  | nil =>
    cases ok
    exact furnishes
  | cons leads rest ih =>
    obtain ⟨next, taken, further⟩ := run_cons ok
    exact ih (furnishes.step leads taken) further

end Builder

lemma Document.parse_furnished (parsed : parse source = .ok doc) : doc.Furnished := by
  obtain ⟨builder, built, rfl, _⟩ := parse_eq_ok parsed
  obtain ⟨_, course⟩ := Token.stream_course source
  exact (Builder.start_furnishes.run course built).furnished

end PugTemplate
