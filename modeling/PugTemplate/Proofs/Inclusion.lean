import PugTemplate.Proofs.Imports
import PugTemplate.Proofs.Pasting
import PugTemplate.Proofs.Spelling

/-!
# Included files

Including a template comes to the same as pasting it.
-/

namespace PugTemplate

open List

variable {line : Statement} {position : Position} {source content : String}
  {included page : Document} {hole id : Nat}

namespace Builder

open Document Token

variable {front back : List Token} {after : Builder}

lemma run_first_row {rows} (spells : Spells [] rows (tokens.map Token.kind))
    (built : start.run tokens = .ok after) : ∀ first ∈ rows.head?, first.width = 0 := by
  generalize spelled : tokens.map Token.kind = kinds at spells
  cases spells with
  | done => simp
  | row moves later =>
    intro first isFirst
    cases isFirst
    cases moves with
    | opens deeper =>
      obtain ⟨token, more, rfl, isIndent, -⟩ := map_eq_cons_iff.1 spelled
      obtain ⟨kind, position⟩ := token
      cases isIndent
      obtain ⟨next, taken, -⟩ := run_cons built
      cases taken
    | closes split deeper reached =>
      obtain ⟨-, rfl⟩ := append_eq_nil_iff.1 split.symm
      exact reached.symm

lemma run_first_level (built : start.run tokens = .ok after) : tokens.head?.any isIndent = false := by
  cases tokens with
  | nil => rfl
  | cons token more =>
    rw [Bool.eq_false_iff]
    intro indents
    obtain ⟨kind, position⟩ := token
    have isIndent : kind = .indent := by simpa [isIndent] using indents
    cases isIndent
    obtain ⟨next, taken, -⟩ := run_cons built
    cases taken

lemma run_next_row (spells : Spells [] (before ++ row :: behind) (tokens.map Token.kind))
    (isImport : row.kinds = [.statement line])
    (leaf : (NodeKind.statement line).acceptsChildren = false)
    (built : start.run tokens = .ok after) : ∀ first ∈ behind.head?, first.width ≤ row.width := by
  obtain ⟨front, reached, later, split, -, rest, -⟩ := spells.append
  obtain ⟨early, late, rfl, -, isLate⟩ := map_eq_append_iff.1 split
  cases rest with
  | @row _ levels _ _ opened back moves rest =>
    rw [isImport, append_assoc] at isLate
    obtain ⟨moving, lines, rfl, -, isLines⟩ := map_eq_append_iff.1 isLate
    obtain ⟨⟨_, position⟩, lines, rfl, isStatement, isLines⟩ := map_eq_cons_iff.1 isLines
    obtain ⟨⟨_, lineEnd⟩, lines, rfl, isEnd, isBack⟩ := map_eq_cons_iff.1 isLines
    cases isStatement
    cases isEnd
    rw [← append_assoc] at built
    have notNested := import_not_nested start_sound leaf built
    intro first isFirst
    rw [← Nat.not_lt]
    intro deep
    cases rest with
    | done => cases isFirst
    | row movesFirst laterRows =>
      cases isFirst
      rw [← moves.current] at deep
      obtain ⟨rfl, -⟩ := movesFirst.unique (.opens deep)
      obtain ⟨token, more, rfl, isIndent, -⟩ := map_eq_cons_iff.1 isBack
      simp [Builder.isIndent, isIndent] at notNested

lemma run_ended {rows} (spells : Spells [] rows (tokens.map kind))
    (built : start.run tokens = .ok after) : Between false after := by
  rw [← append_nil rows] at spells
  obtain ⟨front, reached, back, split, closed, rest, -⟩ := spells.append
  obtain ⟨lines, closing, rfl, rfl, isBack⟩ := map_eq_append_iff.1 split
  refine run_between start_sound start_between ?_ ?_ built
  · intro token isLast
    apply closed token.kind
    rw [getLast?_map, Option.mem_def.1 isLast]
    rfl
  · intro token mem
    right
    cases rest with
    | done =>
      apply eq_of_mem_replicate
      rw [← isBack]
      exact mem_map_of_mem mem

lemma run_cut (level : back.head?.any isIndent = false) {builder : Builder}
    (ok : builder.run (front ++ back) = .ok after) :
    ∃ middle, builder.run front = .ok middle ∧ middle.run back = .ok after := by
  rw [run_append_level builder front level] at ok
  exact ok_of_bind ok

section

variable (leaf : (NodeKind.statement line).acceptsChildren = false)
  {front front' back back' : List Token} (sameFront : front'.map Token.kind = front.map Token.kind)
  (sameBack : back'.map Token.kind = back.map Token.kind)

include leaf sameFront sameBack

lemma run_pasted {moving moving' content' content lineEnd page inner pasted}
    (closed : ∀ token ∈ front.getLast?, token.kind = .newLine)
    (moves : ∀ token ∈ moving, token.kind = .indent ∨ token.kind = .outdent)
    (pageBuilt : start.run (front ++ (moving ++
      ⟨.statement line, position⟩ :: ⟨.newLine, lineEnd⟩ :: back)) = .ok page)
    (innerBuilt : start.run content = .ok inner) (frames : inner.frames = [])
    (atRoot : inner.current = root) (ended : Between false inner)
    (pastedBuilt : start.run (front' ++ (moving' ++ (content' ++ back'))) = .ok pasted)
    (sameMoving : moving'.map Token.kind = moving.map Token.kind)
    (sameContent : content'.map Token.kind = content.map Token.kind) :
    ∃ front new back depth, Pastes page.document inner.document pasted.document (.statement line) front new
      back depth := by
  rw [← append_assoc] at pageBuilt pastedBuilt
  have notNested := import_not_nested start_sound leaf pageBuilt
  have notNested' : back'.head?.any isIndent = false := (head_indent sameBack).trans notNested
  have level' : (content' ++ back').head?.any isIndent = false := by
    cases content' with
    | nil => exact notNested'
    | cons token more =>
      exact (head_indent sameContent).trans (run_first_level innerBuilt)
  obtain ⟨left, ranLeft, pageRest⟩ := run_cut rfl pageBuilt
  obtain ⟨right, ranRight, pastedRest⟩ := run_cut level' pastedBuilt
  obtain ⟨middle, ranContent, ranBack⟩ := run_cut notNested' pastedRest
  have sameStart : (front' ++ moving').map Token.kind = (front ++ moving).map Token.kind := by
    rw [map_append, map_append, sameFront, sameMoving]
  exact pasted_outline (start_inStep.run start_sound start_sound sameStart ranLeft ranRight)
    (run_sound start_sound ranLeft) (run_sound start_sound ranRight)
    (run_between start_sound start_between closed moves ranLeft) leaf notNested pageRest innerBuilt frames atRoot
    ended ranContent ranBack sameContent sameBack

lemma run_skipped {lineEnd opening finish closing lineEnd' final page pasted}
    (course : Course (.edge false) (front ++ ⟨.newLine, lineEnd⟩ :: ⟨.indent, opening⟩ ::
      ⟨.statement line, position⟩ :: ⟨.newLine, finish⟩ :: ⟨.outdent, closing⟩ :: back) final)
    (pageBuilt : start.run (front ++ ⟨.newLine, lineEnd⟩ :: ⟨.indent, opening⟩ ::
      ⟨.statement line, position⟩ :: ⟨.newLine, finish⟩ :: ⟨.outdent, closing⟩ :: back) = .ok page)
    (pastedBuilt : start.run (front' ++ ⟨.newLine, lineEnd'⟩ :: back') = .ok pasted) :
    ∃ front new back depth, Pastes page.document empty pasted.document (.statement line) front new
      back depth := by
  obtain ⟨left, ranLeft, pageRest⟩ := run_cut rfl pageBuilt
  obtain ⟨right, ranRight, pastedRest⟩ := run_cut rfl pastedBuilt
  obtain ⟨spot, early, late⟩ := course.split
  have ordered := (start_ordered false).run early ranLeft
  -- a deeper line follows the line before, and none follows the outdent
  obtain ⟨next, ends, behindLine⟩ := late.first
  obtain ⟨_, indents, behindIndent⟩ := behindLine.first
  obtain ⟨_, -, behindImport⟩ := behindIndent.first
  obtain ⟨_, -, behindEnd⟩ := behindImport.first
  obtain ⟨outside, outdents, behindOutdent⟩ := behindEnd.first
  have isEdge : next = .edge false := indents.before_indent
  subst isEdge
  have level : back.head?.any isIndent = false := by
    cases back with
    | nil => rfl
    | cons token more =>
      rw [Bool.eq_false_iff]
      intro isNested
      have isIndent : token.kind = .indent := by simpa [isIndent] using isNested
      obtain ⟨_, leads, -⟩ := behindOutdent.first
      rw [isIndent, outdents.behind_outdent] at leads
      cases leads.before_indent
  exact skipped_outline (start_inStep.run start_sound start_sound sameFront ranLeft ranRight) ordered.sound
    (run_sound start_sound ranRight) leaf (ordered.hanging ends) level pageRest pastedRest sameBack

end

end Builder

namespace Token

/-- The source with the lines of `content` in the place of one of its lines, each behind the
indentation of that line. -/
def pastedAt (source : String) (line : Reading) (content : String) : String :=
  String.ofList ((Cursor.ofText source).upTo line.start ++
    pasted (line.start.rest.takeWhile Text.isSpacing) content.toList line.finish.rest)

lemma stream_readings (success : (stream source).failure = none) :
    ∃ lines, readings (.ofText source) = .ok lines ∧ (∀ line ∈ lines, line.Whole) ∧
      Spells [] (lines.map Reading.row) ((stream source).tokens.map kind) :=
  lexLines_readings success

lemma pastedAt_scan {before after inner line}
    (read : readings (.ofText source) = .ok (before ++ line :: after))
    (whole : ∀ other ∈ before ++ line :: after, other.Whole)
    (innerRead : readings (.ofText content) = .ok inner) (innerWhole : ∀ other ∈ inner, other.Whole)
    (flat : ∀ other ∈ inner, other.flat) (closed : content.toList.getLast? ≠ some '\\')
    (level : ∀ first ∈ (inner.map Reading.row).head?, first.width = 0)
    (narrow : ∀ first ∈ (after.map Reading.row).head?, first.width ≤ line.row.width) :
    Scan (pastedAt source line content).toList (before.map Reading.row ++
      ((inner.map Reading.row).map (LogicalLine.inset line.row.width) ++ after.map Reading.row)) [] := by
  have isWhole := whole line (by simp)
  obtain ⟨front, behind⟩ := readings_scan_to read whole
  have afterWhole : ∀ other ∈ after, other.Whole := fun other mem => whole other (by simp [mem])
  have back := (readings_scan behind afterWhole).congr (nextRow_skipLineEnd _)
  have flatRows : ∀ row ∈ inner.map Reading.row, row.flat := by
    intro row mem
    obtain ⟨other, isOther, rfl⟩ := mem_map.1 mem
    exact flat other isOther
  obtain ⟨earlier, split, scan⟩ := front.pasted isWhole.rowAt back (readings_scan innerRead innerWhole)
    flatRows closed level narrow
  have isEarlier : (Cursor.ofText source).upTo line.start = earlier := by
    change (Cursor.ofText source).rest.take ((Cursor.ofText source).rest.length -
      line.start.rest.length) = earlier
    rw [split, length_append, Nat.add_sub_cancel, take_left]
  rw [pastedAt, String.toList_ofList, isEarlier]
  exact scan

end Token

namespace Document

open Token Builder

/-- The document of a page with an included file pasted into it has the nodes of both, with those of
the file in the place of the import. -/
theorem parse_pastes {page pasted joined}
    (pageParsed : parse page = .ok doc) (contentParsed : parse content = .ok included)
    (pastedParsed : parse pasted = .ok joined) {before inner behind row} (isImport : row.kinds = [.statement line])
    (leaf : (NodeKind.statement line).acceptsChildren = false)
    (outer : Spells [] (before ++ row :: behind) ((stream page).tokens.map Token.kind))
    (inside : Spells [] inner ((stream content).tokens.map Token.kind))
    (spliced : Spells [] (before ++ (inner.map (LogicalLine.inset row.width) ++ behind))
      ((stream pasted).tokens.map Token.kind)) :
    ∃ front new back depth, Pastes doc included joined (.statement line) front new back depth := by
  obtain ⟨pageBuilder, pageBuilt, rfl, -⟩ := parse_eq_ok pageParsed
  obtain ⟨innerBuilder, innerBuilt, rfl, noFailure⟩ := parse_eq_ok contentParsed
  obtain ⟨pastedBuilder, pastedBuilt, rfl, -⟩ := parse_eq_ok pastedParsed
  obtain ⟨final, course⟩ := stream_course page
  have yields := stream_yields content
  rw [innerBuilt] at yields
  obtain ⟨frames, atRoot⟩ := yields.2 noFailure
  have ended := run_ended inside innerBuilt
  obtain ⟨front, opened, back, split, closed, moves, pasting⟩ := outer.pasted inside spliced
    (run_first_row inside innerBuilt) (run_next_row outer isImport leaf pageBuilt)
  rw [isImport] at split
  obtain ⟨lines, later, isPage, rfl, isLater⟩ := map_eq_append_iff.1 split
  obtain ⟨moving, here, rfl, rfl, isHere⟩ := map_eq_append_iff.1 isLater
  obtain ⟨⟨_, position⟩, ending, rfl, isStatement, isEnding⟩ := map_eq_cons_iff.1 isHere
  obtain ⟨⟨_, lineEnd⟩, rest, rfl, isEnd, rfl⟩ := map_eq_cons_iff.1 isEnding
  cases isStatement
  cases isEnd
  rw [isPage] at pageBuilt course
  have lastEnds : ∀ token ∈ lines.getLast?, token.kind = .newLine := by
    intro token isLast
    apply closed
    rw [getLast?_map, Option.mem_def.1 isLast]
    rfl
  rcases pasting with kept | ⟨nothing, isIndent, rest', isRest, skipped⟩
  · obtain ⟨lines', later', isPasted, sameLines, isLater'⟩ := map_eq_append_iff.1 kept
    obtain ⟨moving', here', rfl, sameMoving, isHere'⟩ := map_eq_append_iff.1 isLater'
    obtain ⟨content', rest', rfl, sameContent, sameRest⟩ := map_eq_append_iff.1 isHere'
    rw [isPasted] at pastedBuilt
    exact run_pasted leaf sameLines sameRest lastEnds (fun token mem => moves _ (mem_map_of_mem mem))
      pageBuilt innerBuilt frames atRoot ended pastedBuilt sameMoving sameContent
  · -- the import opens a level, so there is a line before it
    obtain ⟨⟨_, opening⟩, none, rfl, isOpening, isNone⟩ := map_eq_cons_iff.1 isIndent
    cases map_eq_nil_iff.1 isNone
    obtain ⟨⟨_, closing⟩, behindClosing, rfl, isClosing, rfl⟩ := map_eq_cons_iff.1 isRest
    obtain ⟨lines', behind', isPasted, sameLines, sameRest⟩ := map_eq_append_iff.1 skipped
    cases isOpening
    cases isClosing
    rw [map_eq_nil_iff.1 nothing] at innerBuilt
    cases innerBuilt
    rcases eq_nil_or_concat lines with rfl | ⟨early, ⟨kind, lastEnd⟩, rfl⟩
    · cases run_first_level pageBuilt
    · have isEnd : kind = .newLine := lastEnds ⟨kind, lastEnd⟩ (by simp)
      subst isEnd
      rw [concat_eq_append, map_append] at sameLines
      obtain ⟨early', last', rfl, sameEarly, sameLast⟩ := map_eq_append_iff.1 sameLines
      obtain ⟨⟨_, lastEnd'⟩, none', rfl, isEnd', isNone'⟩ := map_eq_cons_iff.1 sameLast
      cases map_eq_nil_iff.1 isNone'
      cases isEnd'
      rw [concat_eq_append, append_assoc] at pageBuilt course
      rw [isPasted, append_assoc] at pastedBuilt
      exact run_skipped leaf sameEarly sameRest course pageBuilt pastedBuilt

end Document

namespace Document

/-- In the place of a node there are others, whose trees are given. -/
structure Replaced (page loaded : Document) (hole : Nat) (nodes : List Nat) (trees : List Tree) :
    Prop where
  wellFormed : loaded.WellFormed
  kind : ∀ id, id < page.size → loaded.kind id = page.kind id
  attributes : ∀ id, id < page.size → loaded.attributes id = page.attributes id
  children : ∀ id, id < page.size → loaded.children id =
    (page.children id).flatMap fun child => if child = hole then nodes else [child]
  trees : nodes.map loaded.treeAt = trees

lemma Supplies.replaced {nodes trees}
    (supplies : Supplies page grafted nodes trees) (wf : page.WellFormed)
    (parent : page.parent hole = some owner) (noAttribute : (page.kind hole).isAttribute = false)
    (kinds : ∀ tree ∈ trees, tree.kind.isAttribute = false) :
    Replaced page (grafted.replace hole nodes) hole nodes trees := by
  have relinks := supplies.replace_relinks parent noAttribute
  have loadedWell := supplies.replace_well_formed wf parent noAttribute kinds
  have ownerInside := Nat.lt_trans (wf.ordered parent) (parent_inside parent)
  refine ⟨loadedWell, ?_, ?_, ?_, ?_⟩
  · exact fun id inside => (relinks.kind id).trans (supplies.grows.content inside).kind
  · exact fun id inside => (relinks.attributes id).trans (supplies.grows.content inside).attributes
  · intro id inside
    rw [relinks.children_eq]
    by_cases isOwner : id = owner
    · rw [if_pos isOwner, isOwner, (supplies.grows.content ownerInside).children]
      exact spliceAt_eq_flatMap hole nodes (wf.children_distinct owner)
    · rw [if_neg isOwner, (supplies.grows.content inside).children]
      have elsewhere : hole ∉ page.children id := by
        intro mem
        exact isOwner (Option.some.inj ((wf.child_parent mem).symm.trans parent))
      rw [flatMap_congr (g := fun child => [child]), flatMap_singleton']
      intro child mem
      exact if_neg fun isHole : child = hole => elsewhere (isHole ▸ mem)
  · exact supplies.trees_relinked relinks loadedWell ownerInside

lemma Replaced.outline {nodes trees}
    (replaced : Replaced page loaded hole nodes trees) (wf : page.WellFormed)
    (noAttribute : (page.kind hole).isAttribute = false) (bare : (page.node hole).owned = [])
    (inside : id < page.size) (notHole : id ≠ hole) :
    (loaded.treeAt id).outline (page.depth id) (page.kind id).isAttribute = (page.preorder id).flatMap fun node =>
        if node = hole then Tree.outlines (page.depth hole) false trees else [page.entry node] := by
  induction id using wf.owned_induction with
  | step id ih =>
    have below : ∀ other ∈ (page.node id).owned, other ≠ hole →
        (loaded.treeAt other).outline (page.depth id + 1) (page.kind other).isAttribute =
          (page.preorder other).flatMap fun node =>
            if node = hole then Tree.outlines (page.depth hole) false trees else [page.entry node] := by
      intro other owned notHole
      rw [← wf.depth_parent (wf.owned_iff.1 owned)]
      exact ih other owned (wf.owned_inside owned) notHole
    rw [replaced.wellFormed.treeAt_eq, Tree.outline, wf.preorder_eq, flatMap_cons, if_neg notHole,
      replaced.kind id inside, replaced.attributes id inside, replaced.children id inside,
      Tree.outlines_eq_flatMap, Tree.outlines_eq_flatMap, flatMap_map, flatMap_map, Node.owned,
      flatMap_append, flatMap_append, flatMap_assoc, flatMap_assoc, flatMap_assoc,
      singleton_append]
    refine cons_eq_cons.2 ⟨rfl, congrArg₂ (· ++ ·) ?_ ?_⟩
    · apply flatMap_congr
      intro other mem
      rw [← wf.attribute_kind mem]
      refine below other (mem_append_left _ mem) ?_
      rintro rfl
      rw [wf.attribute_kind mem] at noAttribute
      cases noAttribute
    · apply flatMap_congr
      intro child mem
      by_cases isHole : child = hole
      · subst isHole
        have deeper := wf.depth_parent (wf.child_parent mem)
        rw [wf.preorder_eq, bare, ← replaced.trees, ← deeper]
        simp [Tree.outlines_eq_flatMap, flatMap_map]
      · have same := below child (mem_append_right _ mem) isHole
        rw [wf.child_kind mem] at same
        rw [if_neg isHole, flatMap_singleton, same]

section Pastes

variable {made : NodeKind} {inner joined : Document} {front new back : List OutlineEntry} {depth : Nat}
  (pastes : Pastes page inner joined made front new back depth)

include pastes

lemma Pastes.place : front.length < page.size ∧ page.kind front.length = made ∧
    page.depth front.length = depth + 1 := by
  have found : page.entries[front.length]? = some (depth + 1, false, made) := by
    rw [pastes.page, getElem?_append_right (Nat.le_refl _), Nat.sub_self]
    rfl
  obtain ⟨inside, entry⟩ := entry_of_getElem found
  exact ⟨inside, congrArg (fun entry => entry.2.2) entry, congrArg Prod.fst entry⟩

lemma Pastes.bare (wf : page.WellFormed) (inOrder : page.InOrder) : (page.node front.length).owned = [] := by
  rw [eq_nil_iff_forall_not_mem]
  intro id owned
  have parent := wf.owned_iff.1 owned
  have later := wf.ordered parent
  have inside := parent_inside parent
  have next : front.length + 1 < page.size := Nat.lt_of_le_of_lt later inside
  have above : front.length ∈ page.lineage (front.length + 1) := wf.lineage_convex inOrder
    (wf.lineage_parent (page.self_lineage id) parent) inside (Nat.le_add_right _ 1) later
  obtain ⟨owner, isOwner, -⟩ := inOrder.next (front.length + 1) (Nat.succ_pos _) next
  have isHole : owner = front.length := by
    refine Nat.le_antisymm (Nat.le_of_lt_succ (wf.ordered isOwner)) (wf.lineage_le ?_)
    exact ((wf.mem_lineage_iff isOwner).1 above).resolve_left (Nat.ne_of_lt (Nat.lt_succ_self _))
  have deeper := wf.depth_parent isOwner
  have found : page.entries[front.length + 1]? = back.head? := by
    rw [pastes.page, getElem?_append_right (Nat.le_add_right _ 1), Nat.add_sub_cancel_left, head?_eq_getElem?]
    rfl
  rw [entries_getElem next] at found
  have shallow := pastes.behind _ found.symm
  rw [isHole, pastes.place.2.2] at deeper
  exact absurd (Nat.le_trans (Nat.le_of_eq deeper.symm) shallow) (by omega)

lemma Pastes.children (wf : inner.WellFormed) (inOrder : inner.InOrder) :
    Tree.outlines 1 false ((inner.children root).map inner.treeAt) = new := by
  have whole := inOrder.outline_tree wf
  rw [tree, wf.treeAt_eq, pastes.inner] at whole
  have parts := (cons_eq_cons.1 whole).2
  cases attrs : inner.attributes root with
  | nil =>
    rw [attrs] at parts
    exact parts
  | cons first more =>
    rw [attrs, map_cons, wf.treeAt_eq first] at parts
    have isNew : new = _ := parts.symm
    have begins := pastes.begins (1, true, inner.kind first) (by rw [isNew]; rfl)
    cases begins

lemma Pastes.tree {nodes} (pageWell : page.WellFormed) (pageOrder : page.InOrder)
    (innerWell : inner.WellFormed) (innerOrder : inner.InOrder) (joinedWell : joined.WellFormed)
    (joinedOrder : joined.InOrder) (noAttribute : made.isAttribute = false)
    (notRoot : front.length ≠ root)
    (replaced : Replaced page loaded front.length nodes ((inner.children root).map inner.treeAt)) :
    loaded.tree.unplaced = joined.tree.unplaced := by
  obtain ⟨inside, isMade, isDepth⟩ := pastes.place
  have outline := replaced.outline pageWell (by rw [isMade, noAttribute]) (pastes.bare pageWell pageOrder)
    pageWell.root_inside notRoot.symm
  rw [pageWell.preorder_eq_range pageOrder, entries_replaced inside, pastes.page, take_left,
    drop_length_add_append, isDepth, Nat.add_comm, Tree.outlines_lower, pastes.children innerWell innerOrder,
    pageWell.root_kind, Document.depth, ancestors_none pageWell.root_parent, drop_one, tail_cons,
    ← pastes.pasted, ← joinedOrder.outline_tree joinedWell] at outline
  have nothing : ∀ entry ∈ ([] : List OutlineEntry).head?, entry.1 ≤ 0 := by simp
  exact (Tree.outline_injective _ _ nothing nothing (congrArg (· ++ []) outline)).1

end Pastes

end Document

namespace Compiler

open Document

variable {compiler : Compiler} {disk : Disk}

lemma parse_attached (parsed : parse source = .ok page) (inside : id < page.size) : page.isAttached id := by
  rw [isAttached, contains_iff_mem]
  exact (parse_well_formed parsed).root_above (parse_inOrder parsed) inside

lemma parse_statement_parent (parsed : parse source = .ok page) (inside : id < page.size)
    (isStatement : page.kind id = .statement line) : id ≠ root ∧ ∃ owner, page.parent id = some owner := by
  have notRoot : id ≠ root := by
    rintro rfl
    rw [(parse_well_formed parsed).root_kind] at isStatement
    cases isStatement
  exact ⟨notRoot, attached_parent (parse_attached parsed inside) notRoot⟩

lemma loadWithin_plain (parsed : parse source = .ok doc) (plain : doc.imports = [])
    (fuel origin) : compiler.loadWithin disk fuel source origin = .ok doc := by
  have assembled : compiler.assemble disk (compiler.loaderWithin disk fuel) source origin = .ok doc := by
    rw [assemble, parsed]
    change doc.imports.foldlM _ doc = _
    rw [plain]
    rfl
  have none : doc.importsOf .extending = [] := by
    rw [importsOf, plain]
    rfl
  rw [loadWithin_eq, assembled]
  change compiler.extendLayout disk _ origin doc = _
  rw [extendLayout, none]

lemma no_layout (pageWell : page.WellFormed) (includedWell : included.WellFormed)
    (only : page.imports = [hole]) (plain : included.imports = []) {filter}
    (isInclude : page.kind hole = .statement (.importing .including name filter))
    (parent : page.parent hole = some owner) :
    ((page.graftChildren included root).1.replace hole (page.graftChildren included root).2).importsOf
      .extending = [] := by
  have noAttribute : (page.kind hole).isAttribute = false := by
    rw [isInclude]
    rfl
  have supplies := pageWell.graftChildren_supplies includedWell root
  have relinks := supplies.replace_relinks parent noAttribute
  have loadedWell := supplies.replace_well_formed pageWell parent noAttribute
    (includedWell.child_trees_kinds root)
  rw [importsOf, filter_eq_nil_iff]
  intro id mem extended
  rw [loadedWell.indexed.imports] at mem
  obtain ⟨inside, isImport⟩ := mem_listed.1 mem
  rw [relinks.kind] at isImport extended
  rw [relinks.size] at inside
  by_cases old : id < page.size
  · rw [(supplies.grows.content old).kind] at isImport extended
    have isHole := pageWell.mem_imports isImport
    rw [only, mem_singleton] at isHole
    rw [isHole, isInclude] at extended
    simp at extended
  · obtain ⟨child, isChild, copied, below, kind⟩ := graftAll_kinds includedWell
      (included.children root) pageWell (Nat.le_of_not_lt old) inside
    have isImportToo : (included.kind copied).isImport := by
      rw [← isImport]
      exact congrArg NodeKind.isImport kind.symm
    have listed := includedWell.mem_imports isImportToo
    rw [plain] at listed
    cases listed

lemma load_include (deep : 0 < compiler.options.maxDepth) (parsed : parse source = .ok page)
    (contentParsed : parse content = .ok included) (only : page.imports = [hole])
    (plain : included.imports = []) {filter}
    (isInclude : page.kind hole = .statement (.importing .including name filter))
    (located : compiler.locate disk origin name position = .ok file)
    (unfiltered : compiler.fileFilter? file filter = none)
    (read : readFile disk file = .ok content) : compiler.load disk source origin = .ok
      ((page.graftChildren included root).1.replace hole (page.graftChildren included root).2) := by
  have pageWell := parse_well_formed parsed
  have includedWell := parse_well_formed contentParsed
  obtain ⟨fuel, depth⟩ : ∃ fuel, compiler.options.maxDepth = fuel + 1 :=
    Nat.exists_eq_succ_of_ne_zero (Nat.ne_of_gt deep)
  have inside : hole < page.size := by
    have mem : hole ∈ page.imports := by rw [only]; exact mem_singleton_self hole
    rw [pageWell.indexed.imports] at mem
    exact (mem_listed.1 mem).1
  have attached := parse_attached parsed inside
  obtain ⟨-, owner, parent⟩ := parse_statement_parent parsed inside isInclude
  have here : compiler.locate disk origin name (page.position hole) = .ok file := by
    unfold locate at located ⊢
    dsimp only at located ⊢
    split at located
    · exact located
    · cases located
  have loads : compiler.loaderWithin disk (fuel + 1) file (page.position hole) = .ok included := by
    simp only [loaderWithin, read, bind, Except.bind]
    rw [loadWithin_plain contentParsed plain]
    rfl
  have placed : compiler.includeFile disk (compiler.loaderWithin disk (fuel + 1)) origin page
      hole = .ok ((page.graftChildren included root).1.replace hole
        (page.graftChildren included root).2) := by
    simp only [includeFile, attached, isInclude, here, unfiltered, loads, bind, Except.bind, pure, Except.pure]
  have assembled : compiler.assemble disk (compiler.loaderWithin disk (fuel + 1)) source origin =
      .ok ((page.graftChildren included root).1.replace hole (page.graftChildren included root).2) := by
    rw [assemble, parsed]
    change page.imports.foldlM _ page = _
    rw [only, foldlM_cons, placed]
    rfl
  rw [load, depth, loadWithin_eq, assembled]
  change compiler.extendLayout disk _ origin _ = _
  rw [extendLayout, no_layout pageWell includedWell only plain isInclude parent]

/-- A page that includes a file is loaded as if the lines of the file were written in the page, each
behind the indentation of the line that includes it. Every line of the file has to stay on one line of
text, but for the body of a block of raw text. -/
theorem including_is_pasting (compiler : Compiler) (disk : Disk) (origin : Option Path)
    (deep : 0 < compiler.options.maxDepth) {source content : String}
    {page included joined : Document} {lines innerLines : List Token.Reading} {line : Token.Reading}
    {name : String} {filter : Option String} {file : Path} {position : Position}
    (parsed : Document.parse source = .ok page) (only : page.imports.length = 1)
    (pageLines : Token.readings (.ofText source) = .ok lines) (member : line ∈ lines)
    (isInclude : line.kinds = [.statement (.importing .including name filter)])
    (located : compiler.locate disk origin name position = .ok file)
    (unfiltered : compiler.fileFilter? file filter = none) (read : readFile disk file = .ok content)
    (contentParsed : Document.parse content = .ok included) (plain : included.imports = [])
    (contentLines : Token.readings (.ofText content) = .ok innerLines)
    (flat : ∀ inner ∈ innerLines, inner.flat = true)
    (closed : content.toList.getLast? ≠ some '\\')
    (pastedParsed : Document.parse (Token.pastedAt source line content) = .ok joined) :
    ∃ loaded, compiler.load disk source origin = .ok loaded ∧
      loaded.tree.unplaced = joined.tree.unplaced := by
  have pageWell := parse_well_formed parsed
  have includedWell := parse_well_formed contentParsed
  have leaf : (NodeKind.statement (.importing .including name filter)).acceptsChildren = false := rfl
  -- the rows of the three texts, and the tokens of these rows
  obtain ⟨_, pageBuilt, -, pageRead⟩ := parse_eq_ok parsed
  obtain ⟨_, found, whole, spells⟩ := Token.stream_readings pageRead
  cases pageLines.symm.trans found
  obtain ⟨_, innerBuilt, -, innerRead⟩ := parse_eq_ok contentParsed
  obtain ⟨_, innerFound, innerWhole, innerSpells⟩ := Token.stream_readings innerRead
  cases contentLines.symm.trans innerFound
  obtain ⟨_, -, -, pastedRead⟩ := parse_eq_ok pastedParsed
  obtain ⟨pastedLines, pastedFound, pastedWhole, pastedSpells⟩ := Token.stream_readings pastedRead
  obtain ⟨before, after, rfl⟩ := List.append_of_mem member
  rw [List.map_append, List.map_cons] at spells
  have scan := Token.pastedAt_scan pageLines whole contentLines innerWhole flat closed
    (Builder.run_first_row innerSpells innerBuilt)
    (Builder.run_next_row spells isInclude leaf pageBuilt)
  rw [scan.unique (Token.readings_scan pastedFound pastedWhole)] at pastedSpells
  obtain ⟨front, new, back, depth, pastes⟩ := parse_pastes parsed contentParsed pastedParsed isInclude leaf spells
    innerSpells pastedSpells
  obtain ⟨inside, isImport, -⟩ := pastes.place
  -- the node of the line is the import of the page
  have isOnly : page.imports = [front.length] := by
    obtain ⟨id, isId⟩ := List.length_eq_one_iff.1 only
    have isMember := pageWell.mem_imports (congrArg NodeKind.isImport isImport)
    rw [isId, List.mem_singleton] at isMember
    rw [isId, isMember]
  refine ⟨_, load_include deep parsed contentParsed isOnly plain isImport located unfiltered read, ?_⟩
  have noAttribute : (page.kind front.length).isAttribute = false := congrArg NodeKind.isAttribute isImport
  obtain ⟨notRoot, owner, parent⟩ := parse_statement_parent parsed inside isImport
  exact pastes.tree pageWell (parse_inOrder parsed) includedWell (parse_inOrder contentParsed)
    (parse_well_formed pastedParsed) (parse_inOrder pastedParsed) rfl notRoot
    ((pageWell.graftChildren_supplies includedWell root).replaced pageWell parent noAttribute
      (includedWell.child_trees_kinds root))

/-- An item of a list: a line with a colon, a blank line, raw text and a nested line. -/
def itemSource : String :=
  "li: a(href=\"#\") one\n\nli.\n  raw\n   text\nif $x\n  li two\n"

def menuDisk : Disk :=
  ⟨[], [(["item.pug"], .text itemSource)]⟩

def menuSource : String :=
  "ul\n  include item\n  li last\np\n"

theorem included_item_is_pasted : ∃ lines line loaded joined,
    Token.readings (.ofText menuSource) = .ok lines ∧ line ∈ lines ∧
      pageCompiler.load menuDisk menuSource none = .ok loaded ∧
      Document.parse (Token.pastedAt menuSource line itemSource) = .ok joined ∧
      loaded.tree.unplaced = joined.tree.unplaced := by
  have located : pageCompiler.locate menuDisk none "item" .start = .ok ⟨"/item.pug"⟩ := by
    decide +kernel
  have unfiltered : pageCompiler.fileFilter? ⟨"/item.pug"⟩ none = none := by
    decide +kernel
  have read : readFile menuDisk ⟨"/item.pug"⟩ = .ok itemSource := by
    decide +kernel
  have closed : itemSource.toList.getLast? ≠ some '\\' := by
    decide +kernel
  obtain ⟨page, parsed, only⟩ : ∃ page, Document.parse menuSource = .ok page ∧
      (page.imports.length == 1) = true :=
    ok_of_any (by decide +kernel)
  obtain ⟨included, itemParsed, plain⟩ : ∃ included, Document.parse itemSource = .ok included ∧
      included.imports.isEmpty = true :=
    ok_of_any (by decide +kernel)
  obtain ⟨itemLines, itemFound, flat⟩ : ∃ itemLines, Token.readings (.ofText itemSource) =
      .ok itemLines ∧ itemLines.all Token.Reading.flat = true :=
    ok_of_any (by decide +kernel)
  obtain ⟨lines, found, including⟩ : ∃ lines, Token.readings (.ofText menuSource) = .ok lines ∧
      (lines.any fun line => line.kinds == [.statement (.importing .including "item" none)] &&
        (Document.parse (Token.pastedAt menuSource line itemSource)).toOption.isSome) = true :=
    ok_of_any (by decide +kernel)
  obtain ⟨line, member, isInclude⟩ := List.any_eq_true.1 including
  obtain ⟨isInclude, parses⟩ := Bool.and_eq_true_iff.1 isInclude
  cases pastedParsed : Document.parse (Token.pastedAt menuSource line itemSource) with
  | error diagnostic =>
    rw [pastedParsed] at parses
    cases parses
  | ok joined =>
    obtain ⟨loaded, loads, same⟩ := including_is_pasting pageCompiler menuDisk none (by decide)
      parsed (beq_iff_eq.1 only) found member (beq_iff_eq.1 isInclude) located unfiltered read
      itemParsed (List.isEmpty_iff.1 plain) itemFound (List.all_eq_true.1 flat) closed pastedParsed
    exact ⟨lines, line, loaded, joined, found, member, loads, pastedParsed, same⟩

/-- A paragraph of raw text whose header takes up two lines of text. -/
def noteSource : String :=
  "p(title=\"a\nb\").\n  text\n"

def noteDisk : Disk :=
  ⟨[], [(["note.pug"], .text noteSource)]⟩

def noteBoardSource : String :=
  "div\n  include note\n"

/-- The first attribute of the first line below the first line of a template. -/
def nestedAttribute? (tree : Tree) : Option NodeKind := do
  let first ← tree.children.head?
  let nested ← first.children.head?
  let entry ← nested.attributes.head?
  return entry.kind

/-- A string in a header may go on over the end of a line of text, also where raw text follows. The
indentation of the line that includes it is then part of the string in the pasted source. -/
theorem broken_header_is_not_pasted : ∃ page included lines line innerLines loaded joined,
    0 < pageCompiler.options.maxDepth ∧ Document.parse noteBoardSource = .ok page ∧
      page.imports.length = 1 ∧ Token.readings (.ofText noteBoardSource) = .ok lines ∧ line ∈ lines ∧
      line.kinds = [.statement (.importing .including "note" none)] ∧
      pageCompiler.locate noteDisk none "note" .start = .ok ⟨"/note.pug"⟩ ∧
      pageCompiler.fileFilter? ⟨"/note.pug"⟩ none = none ∧
      readFile noteDisk ⟨"/note.pug"⟩ = .ok noteSource ∧
      Document.parse noteSource = .ok included ∧ included.imports = [] ∧
      '\\' ∉ noteSource.toList ∧ Token.readings (.ofText noteSource) = .ok innerLines ∧
      (∀ inner ∈ innerLines, inner.flat = true ∨ inner.header.tail.raw?.isSome = true) ∧
      pageCompiler.load noteDisk noteBoardSource none = .ok loaded ∧
      Document.parse (Token.pastedAt noteBoardSource line noteSource) = .ok joined ∧
      loaded.tree.unplaced ≠ joined.tree.unplaced := by
  obtain ⟨page, parsed, only⟩ : ∃ page, Document.parse noteBoardSource = .ok page ∧
      (page.imports.length == 1) = true :=
    ok_of_any (by decide +kernel)
  obtain ⟨included, noteParsed, plain⟩ : ∃ included, Document.parse noteSource = .ok included ∧
      included.imports.isEmpty = true :=
    ok_of_any (by decide +kernel)
  obtain ⟨innerLines, noteFound, headers⟩ : ∃ innerLines, Token.readings (.ofText noteSource) =
      .ok innerLines ∧ (innerLines.all fun inner => inner.flat || inner.header.tail.raw?.isSome) = true :=
    ok_of_any (by decide +kernel)
  obtain ⟨loaded, loads, value⟩ : ∃ loaded, pageCompiler.load noteDisk noteBoardSource none =
      .ok loaded ∧ (nestedAttribute? loaded.tree.unplaced ==
        some (.attr ⟨some "title", some "\"a\nb\"", true, true⟩)) = true :=
    ok_of_any (by decide +kernel)
  obtain ⟨lines, found, including⟩ : ∃ lines, Token.readings (.ofText noteBoardSource) = .ok lines ∧
      (lines.any fun line => line.kinds == [.statement (.importing .including "note" none)] &&
        (Document.parse (Token.pastedAt noteBoardSource line noteSource)).toOption.any fun joined =>
          nestedAttribute? joined.tree.unplaced ==
            some (.attr ⟨some "title", some "\"a\n  b\"", true, true⟩)) = true :=
    ok_of_any (by decide +kernel)
  obtain ⟨line, member, isInclude⟩ := List.any_eq_true.1 including
  obtain ⟨isInclude, parses⟩ := Bool.and_eq_true_iff.1 isInclude
  obtain ⟨joined, pastedParsed, pastedValue⟩ := ok_of_any parses
  refine ⟨page, included, lines, line, innerLines, loaded, joined, by decide, parsed,
    beq_iff_eq.1 only, found, member, beq_iff_eq.1 isInclude, by decide +kernel, by decide +kernel,
    by decide +kernel, noteParsed, List.isEmpty_iff.1 plain, by decide +kernel, noteFound, ?_, loads,
    pastedParsed, ?_⟩
  · intro inner isInner
    exact Bool.or_eq_true_iff.1 (List.all_eq_true.1 headers inner isInner)
  · intro same
    rw [same, beq_iff_eq.1 pastedValue] at value
    revert value
    decide

end Compiler

end PugTemplate
