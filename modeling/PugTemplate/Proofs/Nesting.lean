import PugTemplate.Proofs.Chains
import PugTemplate.Proofs.Lines

/-!
# Indentation and nesting

A line of a template goes below the innermost node of the nearest line above it that is less indented.
Between two lines the frames of a builder count the ways up from the node of the innermost level to
those of the levels around it. A line that is followed by a deeper one leaves its colons for the indent
to count.
-/

namespace PugTemplate

open List

variable {sealed : Bool} {levels after : List Nat}

namespace Token

/-- A line as the tree shows it: how far it is indented, and the nodes that head its segments. -/
structure Row where
  width : Nat
  nodes : List Nat
  deriving DecidableEq, Repr

variable {width : Nat}

namespace Row

/-- The node that a line of a width goes under, if `earlier` are the lines above it, the nearest
one first. -/
def owner? (earlier : List Row) (width : Nat) : Option Nat :=
  match earlier.find? fun row => row.width < width with
  | some row => row.nodes.getLast?
  | none => some Document.root

lemma owner_zero (earlier) : owner? earlier 0 = some Document.root := by
  have none : earlier.find? (fun row => decide (row.width < 0)) = none := by
    simp
  rw [owner?, none]

lemma owner_shallow (shallow : row.width < width) (earlier) :
    owner? (row :: earlier) width = row.nodes.getLast? := by
  rw [owner?, find?_cons_of_pos (by simpa using shallow)]

lemma owner_deep (deep : width ≤ row.width) (earlier) : owner? (row :: earlier) width = owner? earlier width := by
  rw [owner?, find?_cons_of_neg (by simpa using deep), owner?]

end Row

/-- The groups of tokens that end in a new line, if `line` has been read of the first one. -/
def logicalLines (line : List Token) : List Token → List (List Token)
  | [] => []
  | token :: more =>
    if token.kind == .newLine then
      (line ++ [token]) :: logicalLines [] more
    else
      logicalLines (line ++ [token]) more

def rows (text : List Char) (next : Nat) : List (List Token) → List Row
  | [] => []
  | line :: more =>
    ⟨(line.head?.map fun token => physicalWidth text token.position.line).getD 0,
      lineNodes next true line⟩ :: rows text (next + created line) more

def layout (source : String) : List Row :=
  rows source.toList Document.empty.size (logicalLines [] (stream source).tokens)

lemma Moves.kinds {kinds}
    (moves : Moves levels width kinds after) : ∀ kind ∈ kinds, kind = .indent ∨ kind = .outdent := by
  intro kind mem
  cases moves with
  | opens deeper => exact Or.inl (mem_singleton.1 mem)
  | closes split deeper reached => exact Or.inr (eq_of_mem_replicate mem)

lemma Moves.deeper {kinds}
    (moves : Moves levels width kinds after) (indents : (kinds.head? == some .indent)) :
    levels.headD 0 < width := by
  cases moves with
  | opens deeper => exact deeper
  | @closes closed _ split deeper reached => cases closed <;> cases indents

lemma Joined.kinds (joined : Joined tokens sealed) :
    ∀ token ∈ tokens, token.kind.isInner ∨ token.kind = .expansion := by
  induction joined with
  | last segmented => exact fun token mem => Or.inl (segmented.inner token mem)
  | expand segmented written pos rest ih =>
    intro token mem
    simp only [mem_append, mem_cons] at mem
    rcases mem with early | isColon | late
    · exact Or.inl (segmented.inner token early)
    · rw [isColon]
      exact Or.inr rfl
    · exact ih token late

lemma Moves.line_nodes {kinds} (moves : Moves levels width kinds after) (pos next more) :
    lineNodes next true (kinds.map (⟨·, pos⟩) ++ more) = lineNodes next true more ∧
      created (kinds.map (⟨·, pos⟩)) = 0 := by
  have each := moves.kinds
  clear moves
  induction kinds with
  | nil => exact ⟨rfl, rfl⟩
  | cons kind rest ih =>
    have later := ih fun other mem => each other (by simp [mem])
    have none : kind.node? = none := by
      rcases each kind (by simp) with isIndent | isOutdent
      · rw [isIndent]
        rfl
      · rw [isOutdent]
        rfl
    constructor
    · rw [map_cons, cons_append, lineNodes, none]
      exact later.1
    · rw [map_cons, created_cons, later.2]
      simp [created, none]

lemma lineNodes_new_line (next opening) :
    lineNodes next opening (tokens ++ [⟨.newLine, pos⟩]) = lineNodes next opening tokens := by
  induction tokens generalizing next opening with
  | nil => rfl
  | cons token more ih => simp only [cons_append, lineNodes, ih]

namespace Line

variable {line : Line}

lemma head_indent (joined : Joined line.content line.sealed) (more) :
    (line.tokens ++ more).head?.any Builder.isIndent = (line.moves.head? == some .indent) := by
  rw [tokens]
  cases moves : line.moves with
  | cons kind rest => rfl
  | nil =>
    cases content : line.content with
    | nil => rfl
    | cons token rest =>
      have kinds := joined.kinds token (by simp [content])
      change (token.kind == .indent) = false
      rw [beq_eq_false_iff_ne]
      intro isIndent
      rw [isIndent] at kinds
      rcases kinds with isInner | isColon
      · cases isInner
      · cases isColon

variable (moves : Moves levels line.width line.moves after)

include moves

lemma line_nodes (next) : lineNodes next true line.tokens = lineNodes next true line.content := by
  rw [tokens, append_assoc, (moves.line_nodes line.start next _).1, lineNodes_new_line]

lemma created_tokens : created line.tokens = created line.content := by
  rw [tokens, created_append, created_append, (moves.line_nodes line.start 0 []).2, Nat.zero_add]
  rfl

lemma no_new_line (joined : Joined line.content line.sealed) :
    ∀ token ∈ line.moves.map (⟨·, line.start⟩) ++ line.content, token.kind ≠ .newLine := by
  intro token mem isNewLine
  rcases mem_append.1 mem with moving | inside
  · obtain ⟨kind, isMove, rfl⟩ := mem_map.1 moving
    rcases moves.kinds kind isMove with isIndent | isOutdent
    · exact absurd (isIndent.symm.trans isNewLine) (by simp)
    · exact absurd (isOutdent.symm.trans isNewLine) (by simp)
  · rcases joined.kinds token inside with isInner | isColon
    · rw [isNewLine] at isInner
      cases isInner
    · exact absurd (isColon.symm.trans isNewLine) (by simp)

lemma Placed.row {text} (placed : line.Placed text) (next more) :
    rows text next (line.tokens :: more) = ⟨after.headD 0, lineNodes next true line.content⟩ ::
        rows text (next + created line.content) more := by
  have written : line.tokens ≠ [] := by simp [tokens]
  obtain ⟨token, rest, split⟩ := exists_cons_of_ne_nil written
  have head : line.tokens.head? = some token := by rw [split]; rfl
  have width : (line.tokens.head?.map fun token =>
      physicalWidth text token.position.line).getD 0 = after.headD 0 := by
    rw [moves.current, head, ← placed.width, ← placed.head token head]
    rfl
  rw [rows, width, line_nodes moves, created_tokens moves]

end Line

lemma Outlined.written (outlined : Outlined levels sealed lines final)
    (indents : (lines.flatMap Line.tokens).head?.any Builder.isIndent) : sealed = false := by
  cases outlined with
  | nil => cases indents
  | cons moves shallow joined rest =>
    rw [flatMap_cons, Line.head_indent joined] at indents
    rw [Bool.eq_false_iff]
    intro isSealed
    exact absurd (shallow isSealed) (Nat.not_le_of_lt (moves.deeper indents))

end Token

variable {earlier : List Token.Row}

namespace Document

open Token

/-- A row of nodes is nested as its indentation says. -/
structure Nested (doc : Document) (earlier : List Row) (row : Row) : Prop where
  first : ∀ node ∈ row.nodes.head?, ∃ owner, Row.owner? earlier row.width = some owner ∧
    doc.parent node = some owner
  chain : row.nodes.IsChain (Encloses doc)

lemma Nested.keep {after} (keeps : Keeps before after)
    (nested : Nested before earlier row) : Nested after earlier row where
  first := by
    intro node isFirst
    obtain ⟨owner, found, parent⟩ := nested.first node isFirst
    refine ⟨owner, found, ?_⟩
    rw [keeps.parent node (parent_inside parent), parent]
  chain := by
    apply nested.chain.imp
    intro above below encloses
    have inside := parent_inside encloses.parent
    constructor
    · rw [keeps.parent below inside, encloses.parent]
    · rw [keeps.outer below inside, encloses.outer]

def AllNested (doc : Document) : List Row → List Row → Prop
  | _, [] => True
  | earlier, row :: more => Nested doc earlier row ∧ AllNested doc (row :: earlier) more

lemma AllNested.keep {after} (keeps : Keeps before after)
    (nested : AllNested before earlier more) : AllNested after earlier more := by
  induction more generalizing earlier with
  | nil => trivial
  | cons row rest ih => exact ⟨nested.1.keep keeps, ih nested.2⟩

lemma AllNested.at {after} (nested : AllNested doc earlier (before ++ row :: after)) :
    Nested doc (before.reverse ++ earlier) row := by
  induction before generalizing earlier with
  | nil => exact nested.1
  | cons first more ih =>
    have later := ih nested.2
    simpa using later

/-- The frames of a builder at open levels lead from the node that holds the lines of the
innermost level up to the root. -/
inductive Framed (doc : Document) (earlier : List Row) : List Nat → List Nat → Nat → Prop
  | root : Framed doc earlier [] [] root
  | indent {level climb anchor below levels frames}
      (deeper : levels.headD 0 < level) (owner : Row.owner? earlier level = some anchor)
      (inside : anchor < doc.size) (climbs : Climbs doc climb anchor below)
      (rest : Framed doc earlier levels frames below) :
      Framed doc earlier (level :: levels) (climb :: frames) anchor

namespace Framed

variable {doc : Document} {frames : List Nat} {anchor : Nat}

variable (framed : Framed doc earlier levels frames anchor)

include framed

lemma owner : Row.owner? earlier (levels.headD 0) = some anchor := by
  cases framed with
  | root => exact Row.owner_zero earlier
  | indent deeper owner inside climbs rest => exact owner

lemma keep {after} (wf : doc.WellFormed) (keeps : Keeps doc after) : Framed after earlier levels frames anchor := by
  induction framed with
  | root => exact .root
  | indent deeper owner inside climbs rest ih =>
    exact .indent deeper owner (Nat.lt_of_lt_of_le inside keeps.size_le) (climbs.keep wf keeps inside) ih

lemma record (deep : levels.headD 0 ≤ row.width) : Framed doc (row :: earlier) levels frames anchor := by
  induction framed with
  | root => exact .root
  | @indent level _ _ _ _ _ deeper owner inside climbs rest ih =>
    have deepRow : level ≤ row.width := deep
    apply indent deeper _ inside climbs
    · apply ih
      exact Nat.le_trans (Nat.le_of_lt deeper) deepRow
    · rw [Row.owner_deep deepRow]
      exact owner

end Framed

end Document

namespace Builder

open Document Token

/-- A builder between two lines. If a deeper line follows, it goes below the innermost node of the
line before, from where the way up is counted. -/
structure Boundary (earlier : List Row) (levels : List Nat) (follows : Bool) (anchor : Nat)
    (builder : Builder) : Prop where
  fresh : builder.Fresh
  framed : Framed builder.document earlier levels builder.frames anchor
  settled : follows = false → builder.current = anchor ∧ builder.expansions = 0
  hanging : follows = true → ∀ target, builder.last = some target →
    Climbs builder.document (1 + builder.expansions) target anchor ∧
      ∀ width, levels.headD 0 < width → Row.owner? earlier width = some target

variable {builder : Builder} {anchor : Nat}

lemma ascend_climbs {levels target} (climbs : Climbs builder.document levels builder.current target) :
    builder.ascend levels pos = .ok { builder with current := target } := by
  induction levels generalizing builder with
  | zero =>
    cases climbs
    rfl
  | succ levels ih =>
    obtain ⟨parent, found, further⟩ := climbs
    simp only [ascend, found]
    exact @ih { builder with current := parent } further

lemma Boundary.outdents (boundary : Boundary earlier (closed ++ after) false anchor builder)
    (pos) : ∃ next reached, builder.run (replicate closed.length ⟨.outdent, pos⟩) = .ok next ∧
      Boundary earlier after false reached next := by
  induction closed generalizing builder anchor with
  | nil => exact ⟨builder, anchor, rfl, boundary⟩
  | cons level more ih =>
    obtain ⟨fresh, framed, settled, _⟩ := boundary
    obtain ⟨current, expansions⟩ := settled rfl
    generalize found : builder.frames = frames at framed
    cases framed with
    | @indent _ climb _ below _ frames deeper owner inside climbs rest =>
      have taken : ∀ follows, builder.step ⟨.outdent, pos⟩ follows =
          .ok { builder with frames := frames, current := below } := by
        intro follows
        simp only [step, found]
        apply ascend_climbs
        rw [current]
        exact climbs
      have sound := step_sound fresh.sound (taken false)
      have next : Boundary earlier (more ++ after) false below
          { builder with frames := frames, current := below } :=
        ⟨⟨sound, fresh.lineNode, fresh.listOwner, fresh.awaiting⟩, rest, fun _ => ⟨rfl, expansions⟩, by simp⟩
      rw [length_cons, replicate_succ, run, taken]
      exact ih next

lemma Boundary.indent {earlier width}
    (boundary : Boundary earlier levels true anchor builder) (deeper : levels.headD 0 < width)
    (pos tokens) : Yields tokens (builder.run [⟨.indent, pos⟩]) fun next =>
      ∃ reached, Boundary earlier (width :: levels) false reached next := by
  cases last : builder.last with
  | none =>
    have failed : builder.run [⟨.indent, pos⟩] = .error (Cause.indentWithoutParent.diagnose pos) := by
      simp [run, step, descend, last]
    rw [failed]
    exact .indentWithoutParent pos
  | some target =>
    cases accepts : (builder.document.kind target).acceptsChildren with
    | false =>
      have failed : builder.run [⟨.indent, pos⟩] = .error (Cause.indentUnderLeaf.diagnose pos) := by
        simp [run, step, descend, last, accepts]
      rw [failed]
      exact .indentUnderLeaf pos
    | true =>
      have ran : builder.run [⟨.indent, pos⟩] = .ok { builder with
          current := target
          expansions := 0
          frames := (1 + builder.expansions) :: builder.frames } := by
        simp [run, step, descend, last, accepts]
      obtain ⟨climbs, owner⟩ := boundary.hanging rfl target last
      have inside := (boundary.fresh.sound.last target last).inside
      have sound := run_sound boundary.fresh.sound ran
      rw [ran]
      refine ⟨target, ⟨sound, boundary.fresh.lineNode, boundary.fresh.listOwner,
        boundary.fresh.awaiting⟩, ?_, fun _ => ⟨rfl, rfl⟩, by simp⟩
      exact .indent deeper (owner width deeper) inside climbs boundary.framed

lemma Boundary.moves (boundary : Boundary earlier levels follows anchor builder)
    (moves : Moves levels width kinds after) (agrees : follows = (kinds.head? == some .indent))
    (pos tokens) : Yields tokens (builder.run (kinds.map (⟨·, pos⟩))) fun next =>
      ∃ reached, Boundary earlier after false reached next := by
  cases moves with
  | opens deeper =>
    have isIndent : follows = true := agrees
    subst isIndent
    exact boundary.indent deeper pos tokens
  | @closes closed _ split deeper reached =>
    have noIndent : follows = false := by
      rw [agrees]
      cases closed <;> rfl
    subst noIndent
    subst split
    obtain ⟨next, reached, ran, further⟩ := boundary.outdents pos
    rw [map_replicate, ran]
    exact ⟨reached, further⟩

section

variable {nodes : List Nat} {start : Builder} (boundary : Boundary earlier levels false anchor start)
  (linked : Linked start sealed nodes builder)

include boundary linked

lemma Boundary.endLine (keeps : Keeps start.document builder.document)
    (written : follows = true → sealed = false) (pos) :
    ∃ next, builder.endLine follows pos = .ok next ∧ next.document = builder.document ∧
      Boundary (⟨levels.headD 0, nodes⟩ :: earlier) levels follows anchor next := by
  obtain ⟨current, expansions⟩ := boundary.settled rfl
  obtain ⟨count, total, climbs⟩ := linked.climbs
  rw [current] at climbs
  rw [expansions, Nat.zero_add] at total
  have framed : Framed builder.document (⟨levels.headD 0, nodes⟩ :: earlier) levels
      builder.frames anchor := by
    rw [linked.frames]
    refine Framed.record ?_ (Nat.le_refl _)
    exact boundary.framed.keep boundary.fresh.sound.document keeps
  cases follows with
  | true =>
    -- the colons are left for the indent, which counts one level more
    have ended : builder.endLine true pos =
        .ok { builder with lineNode := none, listOwner := none, awaiting := none } := rfl
    have sound := endLine_sound linked.sound ended
    refine ⟨_, ended, rfl, ⟨sound, rfl, rfl, rfl⟩, framed, by simp, ?_⟩
    intro _ target isLast
    obtain ⟨node, lastNode, last, parent⟩ := linked.last (written rfl)
    have same : node = target := Option.some.inj (last.symm.trans isLast)
    subst same
    constructor
    · rw [total, Nat.add_comm]
      exact ⟨builder.current, parent, climbs⟩
    · intro width deeper
      rw [Row.owner_shallow deeper]
      exact lastNode
  | false =>
    have ended : builder.endLine false pos = .ok { builder with
        current := anchor
        lineNode := none
        expansions := 0
        listOwner := none
        awaiting := none } := by
      apply ascend_climbs
      rw [total]
      exact climbs
    have sound := endLine_sound linked.sound ended
    exact ⟨_, ended, rfl, ⟨sound, rfl, rfl, rfl⟩, framed, fun _ => ⟨rfl, rfl⟩, by simp⟩

/-- The nodes of a line are nested as its indentation says. -/
theorem Boundary.nested : Nested builder.document earlier ⟨levels.headD 0, nodes⟩ where
  first := by
    intro node isFirst
    refine ⟨anchor, boundary.framed.owner, ?_⟩
    rw [(linked.first node isFirst).1, (boundary.settled rfl).1]
  chain := linked.chain

end

/-- Takes a line. The flag says that an indent follows. -/
def takeLine (builder : Builder) (line : Line) (follows : Bool) : Except Diagnostic Builder :=
  (builder.run (line.moves.map (⟨·, line.start⟩) ++ line.content)).bind fun next =>
    next.endLine follows line.finish

lemma run_line (builder : Builder) {line : Line} (moves : Moves levels line.width line.moves after)
    (joined : Joined line.content line.sealed) (more : List Token) : builder.run (line.tokens ++ more) =
      (builder.takeLine line (more.head?.any isIndent)).bind fun next => next.run more := by
  rw [Line.tokens, append_assoc, run_append builder _ (Line.no_new_line moves joined), takeLine]
  cases builder.run (line.moves.map (⟨·, line.start⟩) ++ line.content) with
  | error diag => rfl
  | ok next =>
    simp only [Except.bind, singleton_append, run, step]
    cases next.endLine (more.head?.any isIndent) line.finish <;> rfl

/-- What a line does to a builder that stands before it. -/
structure Taken (earlier : List Row) (after : List Nat) (follows : Bool) (line : Line)
    (builder next : Builder) : Prop where
  sound : next.Sound
  size : next.document.size = builder.document.size + created line.content
  nested : Nested next.document earlier
    ⟨after.headD 0, lineNodes builder.document.size true line.content⟩
  boundary : ∃ anchor, Boundary
    (⟨after.headD 0, lineNodes builder.document.size true line.content⟩ :: earlier) after follows
    anchor next

lemma Boundary.takeLine {line : Line} (moves : Moves levels line.width line.moves after)
    (joined : Joined line.content line.sealed)
    (boundary : Boundary earlier levels (line.moves.head? == some .indent) anchor builder)
    {follows} (written : follows = true → line.sealed = false) :
    Yields line.tokens (builder.takeLine line follows) (Taken earlier after follows line builder) := by
  have moving : ∀ token : Token, token ∈ line.moves.map (⟨·, line.start⟩) → token.kind ≠ .newLine := by
    intro token mem
    exact Line.no_new_line moves joined token (mem_append_left _ mem)
  have within : line.content <:+: line.tokens := ⟨_, _, rfl⟩
  have read : Yields line.tokens
      ((builder.run (line.moves.map (⟨·, line.start⟩))).bind fun start => start.run line.content)
      fun middle => ∃ start reached, Boundary earlier after false reached start ∧
        start.document.size = builder.document.size ∧ start.run line.content = .ok middle ∧
        Linked start line.sealed (lineNodes start.document.size true line.content) middle := by
    apply (boundary.moves moves rfl line.start line.tokens).bind
    intro start moved reached
    obtain ⟨anchor, settled⟩ := reached
    have size := (run_made boundary.fresh.sound moved).size
    rw [(moves.line_nodes line.start 0 []).2] at size
    apply ((content_yields settled.fresh joined).widen within).imp
    intro middle ran linked
    exact ⟨start, anchor, settled, size, ran, linked⟩
  rw [Builder.takeLine, run_append builder _ moving]
  apply read.bind
  intro middle _ reached
  obtain ⟨start, anchor, settled, size, ran, linked⟩ := reached
  have made := run_made settled.fresh.sound ran
  obtain ⟨next, ended, doc, further⟩ := settled.endLine linked made.keeps written line.finish
  have nested := settled.nested linked
  rw [ended]
  rw [size] at nested further
  refine ⟨further.fresh.sound, ?_, ?_, ⟨anchor, further⟩⟩
  · rw [doc, made.size, size]
  · rw [doc]
    exact nested

/-- Lines that may follow at open levels are taken with no fault but those named, and nest as
their indentation says. -/
theorem lines_yield {text final lines}
    (outlined : Outlined levels sealed lines final) (placed : ∀ line ∈ lines, line.Placed text)
    (boundary : Boundary earlier levels ((lines.flatMap Line.tokens).head?.any isIndent) anchor builder) :
    Yields (lines.flatMap Line.tokens) (builder.run (lines.flatMap Line.tokens)) fun after =>
      (∃ passed reached, Boundary passed final false reached after) ∧ AllNested after.document earlier
          (rows text builder.document.size (lines.map Line.tokens)) := by
  -- the invariant is asked for the indent that may follow, so each line is given what comes next
  induction outlined generalizing earlier anchor builder with
  | nil => exact ⟨⟨earlier, anchor, boundary⟩, trivial⟩
  | @cons levels after final sealed line lines moves shallow joined rest ih =>
    have follows : (lines.flatMap Line.tokens).head?.any isIndent = true → line.sealed = false := by
      intro indents
      exact rest.written indents
    rw [flatMap_cons, Line.head_indent joined] at boundary
    have first : line.tokens <:+: line.tokens ++ lines.flatMap Line.tokens := (prefix_append _ _).isInfix
    have later : lines.flatMap Line.tokens <:+: line.tokens ++ lines.flatMap Line.tokens :=
      (suffix_append _ _).isInfix
    rw [flatMap_cons, map_cons, (placed line (by simp)).row moves, run_line builder moves joined]
    apply ((boundary.takeLine moves joined follows).widen first).bind
    intro next _ taken
    obtain ⟨reached, further⟩ := taken.boundary
    have placedLater : ∀ other ∈ lines, other.Placed text := fun other mem =>
      placed other (by simp [mem])
    apply ((ih placedLater further).widen later).imp
    intro last ran ended
    have keeps := (run_made taken.sound ran).keeps
    rw [taken.size] at ended
    exact ⟨ended.1, taken.nested.keep keeps, ended.2⟩

end Builder

end PugTemplate
