import PugTemplate.Proofs.Outlines

/-!
# Tokens in the place of an import

A builder takes the tokens of a page with an import, and another one those of a file in its place. Up
to the import the builders are in step. The tokens of the file do below their node what they do on
their own below the root. Behind them the builders are in step again, since nothing looks back at the
import.
-/

namespace PugTemplate

open List

variable {next : Token.Spot}

namespace Token

lemma Course.first (course : Course spot (token :: more) final) :
    ∃ next, Leads spot token.kind next ∧ Course next more final := by
  cases course with
  | cons leads rest => exact ⟨_, leads, rest⟩

lemma Leads.before_indent (leads : Leads spot .indent next) : spot = .edge false := by
  cases leads with
  | indent => rfl
  | head other | inline other | shorthand other | content other => cases other

lemma Leads.behind_outdent (leads : Leads spot .outdent next) : next = .edge true := by
  cases leads with
  | outdent => rfl
  | head other | inline other | shorthand other | content other => cases other

lemma Course.split {first} (course : Course spot (first ++ second) final) :
    ∃ middle, Course spot first middle ∧ Course middle second final := by
  induction first generalizing spot with
  | nil => exact ⟨spot, .nil, course⟩
  | cons token more ih =>
    obtain ⟨next, leads, rest⟩ := course.first
    obtain ⟨middle, early, late⟩ := ih rest
    exact ⟨middle, .cons leads early, late⟩

end Token

/-- In the outline of a page an entry gives way to those of another document. -/
structure Document.Pastes (page inner pasted : Document) (made : NodeKind) (front new back : List OutlineEntry)
    (depth : Nat) : Prop where
  page : page.entries = front ++ (depth + 1, false, made) :: back
  inner : inner.entries = empty.entries ++ new
  pasted : pasted.entries = front ++ (new.map (.lower depth) ++ back)
  behind : ∀ entry ∈ back.head?, entry.1 ≤ depth + 1
  begins : ∀ entry ∈ new.head?, entry.2.1 = false

namespace Builder

open Document Token

variable {builder after : Builder} {rest tokens : List Token} {indentFollows : Bool} {line : Statement}

lemma run_at (sound : builder.Sound) (ok : builder.run (front ++ token :: rest) = .ok after) :
    ∃ middle next : Builder, middle.Sound ∧
      middle.step token (rest.head?.any isIndent) = .ok next ∧ next.run rest = .ok after := by
  induction front generalizing builder with
  | nil =>
    obtain ⟨next, taken, further⟩ := run_cons ok
    exact ⟨builder, next, sound, taken, further⟩
  | cons first more ih =>
    obtain ⟨next, taken, further⟩ := run_cons ok
    exact ih (step_sound sound taken) further

/-- Between two lines. An indent that follows still has to count the colons of the line before. -/
structure Between (indentFollows : Bool) (builder : Builder) : Prop where
  lineNode : builder.lineNode = none
  listOwner : builder.listOwner = none
  awaiting : builder.awaiting = none
  expansions : indentFollows = false → builder.expansions = 0

lemma start_between : Between false start := ⟨rfl, rfl, rfl, fun _ => rfl⟩

lemma Takes.between (taken : builder.Takes after indentFollows pos .newLine) : Between indentFollows after := by
  obtain ⟨node, -, rfl⟩ := taken
  refine ⟨rfl, rfl, rfl, ?_⟩
  rintro rfl
  rfl

lemma Between.moves {moves}
    (between : Between (moves.head?.any isIndent) builder) (sound : builder.Sound)
    (moving : ∀ token ∈ moves, token.kind = .indent ∨ token.kind = .outdent)
    (ok : builder.run moves = .ok after) : Between false after := by
  induction moves generalizing builder with
  | nil =>
    cases ok
    exact between
  | cons token more ih =>
    obtain ⟨next, taken, further⟩ := run_cons ok
    refine ih ?_ (step_sound sound taken) (forall_mem_cons.1 moving).2 further
    have moved := step_takes sound taken
    rcases moving token mem_cons_self with isIndent | isOutdent
    · rw [isIndent] at moved
      obtain ⟨target, -, -, rfl⟩ := moved
      exact ⟨between.lineNode, between.listOwner, between.awaiting, fun _ => rfl⟩
    · rw [isOutdent] at moved
      obtain ⟨climb, frames, node, -, -, rfl⟩ := moved
      have level : (token :: more).head?.any isIndent = false := by
        simp [isIndent, isOutdent]
      exact ⟨between.lineNode, between.listOwner, between.awaiting, fun _ => between.expansions level⟩

lemma run_between (sound : builder.Sound) (between : Between false builder)
    (closed : ∀ token ∈ front.getLast?, token.kind = .newLine)
    (moving : ∀ token ∈ moves, token.kind = .indent ∨ token.kind = .outdent)
    (ok : builder.run (front ++ moves) = .ok after) : Between false after := by
  rcases eq_nil_or_concat front with rfl | ⟨lines, last, rfl⟩
  · have here : Between (moves.head?.any isIndent) builder :=
      ⟨between.lineNode, between.listOwner, between.awaiting, fun _ => between.expansions rfl⟩
    exact here.moves sound moving ok
  · rw [concat_eq_append, append_assoc] at ok
    obtain ⟨middle, next, middleSound, taken, further⟩ := run_at sound ok
    have ended := step_takes middleSound taken
    rw [closed last (by simp)] at ended
    exact ended.between.moves (step_sound middleSound taken) moving further

lemma Between.matched {origin' frames} (between : Between false left)
    (inStep : InStep origin origin' levels frames left right) : Between false right := by
  have none : ∀ {first second : Nat} {id : Option Nat}, Matched first second none id → id = none := by
    rintro _ _ _ ⟨⟩
    rfl
  exact ⟨none (between.lineNode ▸ inStep.lineNode), none (between.listOwner ▸ inStep.listOwner),
    none (between.awaiting ▸ inStep.awaiting), fun _ => inStep.expansions.trans (between.expansions rfl)⟩

/-- Builders between lines may go on in step, if the first of them stands under nothing new. -/
theorem Between.inStep (between : Between false left) (between' : Between false right) (levels)
    (depths : right.document.depth right.current = left.document.depth left.current + levels)
    (leaf : ∀ id ∈ left.last, (left.document.kind id).acceptsChildren = false) {frames}
    (isFrames : right.frames = left.frames ++ frames) :
    InStep left.document right.document levels frames left right where
  document := .start _ _ levels
  current := depths
  lineNode := by rw [between.lineNode, between'.lineNode]; exact .none
  listOwner := by rw [between.listOwner, between'.listOwner]; exact .none
  awaiting := by rw [between.awaiting, between'.awaiting]; exact .none
  last := .inl leaf
  expansions := (between'.expansions rfl).trans (between.expansions rfl).symm
  frames := isFrames

lemma start_leaf : ∀ id ∈ start.last, (start.document.kind id).acceptsChildren = false := by
  simp [start]

lemma start_inStep : InStep start.document start.document 0 [] start start :=
  start_between.inStep start_between 0 rfl start_leaf rfl

lemma run_keeps (sound : builder.Sound) (ok : builder.run tokens = .ok after) {id}
    (inside : id < builder.document.size) : after.document.depth id = builder.document.depth id ∧
      (after.document.kind id).isAttribute = (builder.document.kind id).isAttribute := by
  have keeps := (run_made sound ok).keeps
  refine ⟨depth_congr sound.document (run_sound sound ok).document keeps.parent inside, ?_⟩
  have unclosed : ∀ kind : NodeKind, kind.unclosed.isAttribute = kind.isAttribute := by
    rintro (_ | _ | _ | _ | _ | _ | _) <;> rfl
  rw [← unclosed, keeps.kind id inside, unclosed]

section

variable (between : Between false builder) (sound : builder.Sound)
  (leaf : ∀ id ∈ builder.last, (builder.document.kind id).acceptsChildren = false)
  (ok : builder.run tokens = .ok after)

include between sound leaf ok

/-- The next node behind a line that nothing is nested under is one of a line, and not deeper than the
lines of this level. -/
theorem Between.next_node (more : builder.document.size < after.document.size) :
    after.document.depth builder.document.size ≤ builder.document.depth builder.current + 1 ∧
      (after.document.kind builder.document.size).isAttribute = false := by
  induction tokens generalizing builder with
  | nil =>
    cases ok
    exact absurd more (Nat.lt_irrefl _)
  | cons token rest ih =>
    obtain ⟨next, stepped, further⟩ := run_cons ok
    have nextSound := step_sound sound stepped
    have taken := step_takes sound stepped
    obtain ⟨noLine, noList, noAwaiting, expansions⟩ := id between
    have unlinked : ∀ {owner? : Option Nat} {made : NodeKind} {other : Builder} {pos : Position},
        owner? = none → ¬ builder.Extends other owner? made pos := by
      rintro _ _ _ _ none ⟨owner, _, _, isOwner, -⟩
      rw [none] at isOwner
      cases isOwner
    have opened : ∀ {made : NodeKind} {pos : Position}, made.isAttribute = false → builder.Opens next made pos →
        after.document.depth builder.document.size ≤ builder.document.depth builder.current + 1 ∧
          (after.document.kind builder.document.size).isAttribute = false := by
      rintro made pos newKind ⟨doc, gains, rfl⟩
      rw [noLine] at gains
      obtain ⟨depth, kind⟩ := run_keeps nextSound further (by rw [gains.size]; exact Nat.lt_succ_self _)
      have new := gains.entry_new sound.document
      rw [depth, kind, gains.kind, if_pos rfl]
      exact ⟨Nat.le_of_eq (congrArg Prod.fst new), newKind⟩
    generalize token.kind = kind at taken
    cases kind with
    | indent =>
      obtain ⟨target, isLast, accepts, -⟩ := taken
      rw [leaf target isLast] at accepts
      cases accepts
    | outdent =>
      obtain ⟨climb, frames, node, -, climbs, rfl⟩ := taken
      have depths := sound.document.depth_climbs climbs
      have later := @ih { builder with current := node, frames := frames }
        ⟨noLine, noList, noAwaiting, expansions⟩ nextSound leaf further more
      exact ⟨Nat.le_trans later.1 (by dsimp only; omega), later.2⟩
    | newLine =>
      obtain ⟨node, climbs, rfl⟩ := taken
      have depths := sound.document.depth_climbs climbs
      have later := ih ⟨rfl, rfl, rfl, fun _ => by simp [expansions]⟩ nextSound leaf further more
      exact ⟨Nat.le_trans later.1 (by dsimp only; omega), later.2⟩
    | attributeStart =>
      obtain ⟨owner, isOwner, -⟩ := taken
      rw [noAwaiting, noLine] at isOwner
      cases isOwner
    | attributeEnd =>
      cases taken
      exact @ih { builder with listOwner := none } ⟨noLine, rfl, noAwaiting, expansions⟩ nextSound leaf
        further more
    | classShorthand | idShorthand => exact absurd taken (unlinked noLine)
    | attr entry => exact absurd taken (unlinked noList)
    | assignment name =>
      obtain ⟨_, extended, -⟩ := taken
      exact absurd extended (unlinked noLine)
    | selfClosing =>
      obtain ⟨_, _, _, isLine, -⟩ := taken
      rw [noLine] at isLine
      cases isLine
    | expansion =>
      obtain ⟨_, isLine, -⟩ := taken
      rw [noLine] at isLine
      cases isLine
    | text | expression => exact opened rfl (taken.resolve_right (unlinked noLine)).2
    | tag | statement => exact opened rfl taken

lemma Between.next_entry (outline : after.document.entries = builder.document.entries ++ new) :
    ∀ entry ∈ new.head?, entry.1 ≤ builder.document.depth builder.current + 1 ∧ entry.2.1 = false := by
  intro entry isFirst
  have found : after.document.entries[builder.document.size]? = some entry := by
    rw [outline, getElem?_append_right (by simp [entries_length])]
    simpa [entries_length, head?_eq_getElem?] using isFirst
  obtain ⟨inside, rfl⟩ := entry_of_getElem found
  exact between.next_node sound leaf ok inside

end

lemma import_not_nested (sound : builder.Sound) (leaf : (NodeKind.statement line).acceptsChildren = false)
    (ok : builder.run (front ++ ⟨.statement line, pos⟩ :: ⟨.newLine, lineEnd⟩ :: rest) =
      .ok after) : rest.head?.any isIndent = false := by
  obtain ⟨middle, opened, middleSound, isOpened, further⟩ := run_at sound ok
  obtain ⟨doc, gains, rfl⟩ := step_takes middleSound isOpened
  obtain ⟨ended, isEnded, more⟩ := run_cons further
  have openedSound := step_sound middleSound isOpened
  obtain ⟨node, -, rfl⟩ := step_takes openedSound isEnded
  rw [Bool.eq_false_iff]
  intro nested
  cases rest with
  | nil => cases nested
  | cons token rest =>
    obtain ⟨deeper, isDeeper, -⟩ := run_cons more
    have taken := step_takes (step_sound openedSound isEnded) isDeeper
    have isIndent : token.kind = .indent := by simpa [isIndent] using nested
    rw [isIndent] at taken
    obtain ⟨target, isLast, accepts, -⟩ := taken
    cases isLast
    rw [gains.kind, if_pos rfl, leaf] at accepts
    cases accepts

/-- A builder behind an import, to which nothing leads back. -/
structure Imported (builder imported : Builder) (line : Statement) : Prop where
  sound : imported.Sound
  between : Between false imported
  outline : imported.document.entries = builder.document.entries ++
    [(builder.document.depth builder.current + 1, false, .statement line)]
  leaf : ∀ id ∈ imported.last, (imported.document.kind id).acceptsChildren = false
  depth : imported.document.depth imported.current = builder.document.depth builder.current
  frames : imported.frames = builder.frames

lemma run_import (sound : builder.Sound) (between : Between false builder)
    (leaf : (NodeKind.statement line).acceptsChildren = false) (level : rest.head?.any isIndent = false)
    (ok : builder.run (⟨.statement line, pos⟩ :: ⟨.newLine, lineEnd⟩ :: rest) = .ok after) :
    ∃ imported, Imported builder imported line ∧ imported.run rest = .ok after := by
  obtain ⟨opened, isOpened, further⟩ := run_cons ok
  have openedSound := step_sound sound isOpened
  obtain ⟨doc, gains, rfl⟩ := step_takes sound isOpened
  rw [between.lineNode] at gains
  obtain ⟨ended, isEnded, more⟩ := run_cons further
  rw [level] at isEnded
  have endedSound := step_sound openedSound isEnded
  have taken := step_takes openedSound isEnded
  have endedBetween := taken.between
  obtain ⟨node, climbs, rfl⟩ := taken
  have depths := openedSound.document.depth_climbs climbs
  refine ⟨_, ⟨endedSound, endedBetween, gains.outline sound.document, ?_, ?_, rfl⟩, more⟩
  · rintro _ ⟨⟩
    rw [gains.kind, if_pos rfl]
    exact leaf
  · rw [← gains.depth_old sound.document sound.current.inside, ← depths]
    simp [between.expansions rfl]

lemma pasted_outline {middle page inner pasted content content' back back'}
    (inStep : InStep start.document start.document 0 [] left right) (sound : left.Sound) (sound' : right.Sound)
    (between : Between false left) (leaf : (NodeKind.statement line).acceptsChildren = false)
    (level : back.head?.any isIndent = false)
    (pageBuilt : left.run (⟨.statement line, pos⟩ :: ⟨.newLine, lineEnd⟩ :: back) = .ok page)
    (innerBuilt : start.run content = .ok inner) (isFrames : inner.frames = []) (atRoot : inner.current = root)
    (ended : Between false inner) (contentBuilt : right.run content' = .ok middle)
    (pastedBuilt : middle.run back' = .ok pasted) (sameContent : content'.map Token.kind = content.map Token.kind)
    (sameBack : back'.map Token.kind = back.map Token.kind) :
    ∃ front new back depth, Pastes page.document inner.document pasted.document (.statement line) front new back
      depth := by
  obtain ⟨imported, isImported, further⟩ := run_import sound between leaf level pageBuilt
  have rootDepth : ∀ {doc : Document}, doc.WellFormed → doc.depth root = 0 := by
    intro doc wf
    rw [depth, ancestors_none wf.root_parent]
    rfl
  have innerStep := (start_between.inStep (between.matched inStep) (right.document.depth right.current)
    (by rw [start, rootDepth empty_well_formed, Nat.zero_add]) start_leaf rfl).run start_sound sound' sameContent
    innerBuilt contentBuilt
  have depths : middle.document.depth middle.current = imported.document.depth imported.current + 0 := by
    rw [innerStep.current, atRoot, rootDepth (run_sound start_sound innerBuilt).document, inStep.current,
      isImported.depth, Nat.zero_add]
  have frames : middle.frames = imported.frames ++ [] := by
    rw [innerStep.frames, isFrames, isImported.frames]
    exact inStep.frames
  have finalStep := (isImported.between.inStep (ended.matched innerStep) 0 depths isImported.leaf frames).run
    isImported.sound (run_sound sound' contentBuilt) sameBack further pastedBuilt
  obtain ⟨first, leftOutline, rightOutline⟩ := inStep.document.outline
  obtain ⟨new, innerOutline, middleOutline⟩ := innerStep.document.outline
  obtain ⟨last, pageOutline, pastedOutline⟩ := finalStep.document.outline
  rw [OutlineEntry.lower_zero, map_id] at rightOutline pastedOutline
  refine ⟨left.document.entries, new, last, left.document.depth left.current, ?_, innerOutline, ?_, ?_, ?_⟩
  · rw [pageOutline, isImported.outline, append_assoc]
    rfl
  · rw [pastedOutline, middleOutline, rightOutline, ← leftOutline, inStep.current, append_assoc]
    rfl
  · intro entry isFirst
    rw [← isImported.depth]
    exact (isImported.between.next_entry isImported.sound isImported.leaf further pageOutline entry isFirst).1
  · exact fun entry isFirst =>
      (start_between.next_entry start_sound start_leaf innerBuilt innerOutline entry isFirst).2

/-- Where a deeper line may follow, it goes below a child of the current node. -/
theorem Ordered.hanging (ordered : Ordered spot builder) (leads : Leads spot .newLine (.edge false)) :
    ∃ line, builder.last = some line ∧
      builder.document.depth line = builder.document.depth builder.current + 1 := by
  obtain ⟨line, isLine⟩ : ∃ line, builder.lineNode = some line := by
    generalize isEdge : Spot.edge false = next at leads
    cases leads with
    | emptySegment => cases isEdge
    | head other | inline other | shorthand other | content other => cases other
    | lineEnd behind => exact (ordered.segment behind).1
  obtain ⟨isLast, parent⟩ := ordered.line line isLine
  exact ⟨line, isLast, ordered.sound.document.depth_parent parent⟩

/-- Where the line of an import is the only one of its level and nothing is put in its place, the
level is not opened. -/
theorem skipped_outline {page pasted back back' lineEnd' opening finish closing}
    (inStep : InStep start.document start.document 0 [] left right)
    (sound : left.Sound) (sound' : right.Sound) (leaf : (NodeKind.statement line).acceptsChildren = false)
    (hanging : ∃ target, left.last = some target ∧
      left.document.depth target = left.document.depth left.current + 1)
    (level : back.head?.any isIndent = false)
    (pageBuilt : left.run (⟨.newLine, lineEnd⟩ :: ⟨.indent, opening⟩ :: ⟨.statement line, pos⟩ ::
      ⟨.newLine, finish⟩ :: ⟨.outdent, closing⟩ :: back) = .ok page)
    (pastedBuilt : right.run (⟨.newLine, lineEnd'⟩ :: back') = .ok pasted)
    (sameBack : back'.map Token.kind = back.map Token.kind) :
    ∃ front new back depth, Pastes page.document Document.empty pasted.document (.statement line) front new back
      depth := by
  obtain ⟨target, isTarget, deeper⟩ := hanging
  -- the line before ends, and the indent leads below its node
  obtain ⟨ended, isEnded, opened⟩ := run_cons pageBuilt
  have endedSound := step_sound sound isEnded
  obtain ⟨node, climbs, rfl⟩ := step_takes sound isEnded
  have depths := sound.document.depth_climbs climbs
  obtain ⟨nested, isNested, further⟩ := run_cons opened
  have nestedSound := step_sound endedSound isNested
  obtain ⟨last, isLast, -, rfl⟩ := step_takes endedSound isNested
  cases isLast.symm.trans isTarget
  obtain ⟨imported, isImported, closing⟩ := run_import nestedSound ⟨rfl, rfl, rfl, fun _ => rfl⟩ leaf rfl further
  -- the way up leads past the node of the line before, to where that line ends without an indent
  obtain ⟨closed, isClosed, rest⟩ := run_cons closing
  have closedSound := step_sound isImported.sound isClosed
  obtain ⟨climb, frames, above, open', closing, rfl⟩ := step_takes isImported.sound isClosed
  have outdented := isImported.sound.document.depth_climbs closing
  obtain ⟨rfl, rfl⟩ := cons_eq_cons.1 (open'.symm.trans isImported.frames)
  obtain ⟨ended', isEnded', rest'⟩ := run_cons pastedBuilt
  have endedSound' := step_sound sound' isEnded'
  obtain ⟨node', climbs', rfl⟩ := step_takes sound' isEnded'
  have depths' := sound'.document.depth_climbs climbs'
  rw [head_indent sameBack, level] at depths' rest' endedSound'
  have reached : right.document.depth node' = imported.document.depth above := by
    have importDepth := isImported.depth
    have same := inStep.current
    have colons := inStep.expansions
    dsimp only [head?_cons, Option.any_some, Builder.isIndent] at depths outdented importDepth depths'
    simp at depths outdented depths'
    omega
  have between : Between false { imported with current := above, frames := left.frames } :=
    ⟨isImported.between.lineNode, isImported.between.listOwner, isImported.between.awaiting,
      isImported.between.expansions⟩
  have finalStep := (between.inStep (⟨rfl, rfl, rfl, fun _ => rfl⟩ : Between false { right with
      current := node', lineNode := none, listOwner := none, awaiting := none, expansions := 0 }) 0 reached
    isImported.leaf (by rw [inStep.frames])).run closedSound endedSound' sameBack rest rest'
  obtain ⟨first, leftOutline, rightOutline⟩ := inStep.document.outline
  obtain ⟨behind, pageOutline, pastedOutline⟩ := finalStep.document.outline
  rw [OutlineEntry.lower_zero, map_id] at rightOutline pastedOutline
  refine ⟨left.document.entries, [], behind, left.document.depth target, ?_, (append_nil _).symm, ?_, ?_, ?_⟩
  · rw [pageOutline, isImported.outline, append_assoc]
    rfl
  · rw [pastedOutline, rightOutline, ← leftOutline]
    rfl
  · intro entry isFirst
    have shallow := (between.next_entry closedSound isImported.leaf rest pageOutline entry isFirst).1
    have importDepth := isImported.depth
    dsimp only at shallow importDepth
    omega
  · rintro _ ⟨⟩

end Builder

end PugTemplate
