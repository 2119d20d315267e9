import PugTemplate.Proofs.Rows
import PugTemplate.Proofs.Structure

/-!
# Open levels

The tokens of a template open and close levels of indentation. Between the contents of two lines they
open one level or close some. At the content of a line the open levels are those of the line and the
lines around it: the nearest line above that is less indented, and those around that one.
-/

namespace PugTemplate

open List

namespace TokenKind

/-- How many levels a token opens. -/
def rise : TokenKind → Int
  | indent => 1
  | outdent => -1
  | _ => 0

def isMove : TokenKind → Bool
  | indent | outdent => true
  | _ => false

lemma rise_content {kind : TokenKind} (inside : kind.isMove = false) : kind.rise = 0 := by
  unfold rise
  split
  · cases inside
  · cases inside
  · rfl

end TokenKind

namespace Token

open Cursor

/-- The widths of the lines around a line of width `width`, if `earlier` are the widths of the lines
above it, the nearest one first. -/
def enclosing (width : Nat) : List Nat → List Nat
  | [] => []
  | above :: earlier =>
    if above < width then above :: enclosing above earlier else enclosing width earlier

/-- The width of the nearest line and of the lines around it. -/
def chain : List Nat → List Nat
  | [] => []
  | width :: earlier => width :: enclosing width earlier

lemma enclosing_narrow (width earlier) : ∀ above ∈ enclosing width earlier, above < width := by
  induction earlier generalizing width with
  | nil => simp [enclosing]
  | cons above earlier ih =>
    intro other mem
    rw [enclosing] at mem
    split at mem
    · rename_i narrow
      rcases mem_cons.1 mem with rfl | further
      · exact narrow
      · exact Nat.lt_trans (ih above other further) narrow
    · exact ih width other mem

lemma filter_enclosing (narrow : bound ≤ width) (earlier) :
    (enclosing width earlier).filter (· < bound) = enclosing bound earlier := by
  induction earlier generalizing width with
  | nil => rfl
  | cons above earlier ih =>
    rw [enclosing, enclosing]
    by_cases inside : above < bound
    · have around : (enclosing above earlier).filter (· < bound) = enclosing above earlier := by
        rw [filter_eq_self]
        intro other mem
        exact decide_eq_true (Nat.lt_trans (enclosing_narrow above earlier other mem) inside)
      rw [if_pos inside, if_pos (Nat.lt_of_lt_of_le inside narrow), filter_cons,
        decide_eq_true inside, if_pos rfl, around]
    · split
      · rw [filter_cons, decide_eq_false inside]
        exact ih (Nat.le_of_not_lt inside)
      · exact ih narrow

/-- The lines around a line are those around the line above it that are less indented. -/
theorem filter_chain (width earlier) : (chain earlier).filter (· < width) = enclosing width earlier := by
  cases earlier with
  | nil => rfl
  | cons above earlier =>
    rw [chain, enclosing, filter_cons]
    split
    · rename_i inside
      have narrow : above < width := of_decide_eq_true inside
      rw [if_pos narrow, filter_eq_self.2]
      intro other mem
      exact decide_eq_true (Nat.lt_trans (enclosing_narrow above earlier other mem) narrow)
    · rename_i outside
      have wide : ¬ above < width := by simpa using outside
      rw [if_neg wide, filter_enclosing (Nat.le_of_not_lt wide)]

lemma chain_decreasing (earlier) : (chain earlier).Pairwise (· > ·) := by
  have around : ∀ width, (enclosing width earlier).Pairwise (· > ·) := by
    induction earlier with
    | nil => exact fun _ => .nil
    | cons above earlier ih =>
      intro width
      rw [enclosing]
      split
      · exact .cons (enclosing_narrow above earlier) (ih above)
      · exact ih width
  cases earlier with
  | nil => exact .nil
  | cons width earlier =>
    have wider := around (width + 1)
    rwa [enclosing, if_pos (Nat.lt_succ_self width)] at wider

/-- The levels that are open behind lines of the given widths, the last line first. -/
def openLevels (earlier : List Nat) : List Nat :=
  (chain earlier).filter (0 < ·)

lemma openLevels_decreasing (earlier) : (openLevels earlier).Pairwise (· > ·) := (chain_decreasing earlier).filter _

lemma openLevels_cons : openLevels (width :: earlier) =
    [width].filter (0 < ·) ++ (openLevels earlier).filter (· < width) := by
  have swapped : (enclosing width earlier).filter (0 < ·) =
      ((chain earlier).filter (0 < ·)).filter (· < width) := by
    rw [← filter_chain, filter_filter, filter_filter]
    apply filter_congr
    intro level _
    exact Bool.and_comm _ _
  rw [openLevels, openLevels, chain, ← singleton_append, filter_append, swapped]

namespace Moves

variable {levels after : List Nat} {width : Nat} {kinds : List TokenKind}

lemma reached (moves : Moves levels width kinds after) (decreasing : levels.Pairwise (· > ·))
    (positive : ∀ level ∈ levels, 0 < level) :
    after = [width].filter (0 < ·) ++ levels.filter (· < width) := by
  cases moves with
  | opens deeper =>
    have inside : levels.filter (· < width) = levels := by
      rw [filter_eq_self]
      intro level mem
      apply decide_eq_true
      cases decreasing with
      | nil => cases mem
      | cons narrower rest =>
        rcases mem_cons.1 mem with rfl | later
        · exact deeper
        · exact Nat.lt_trans (narrower level later) deeper
    have indented : [width].filter (0 < ·) = [width] := by
      simpa using Nat.zero_lt_of_lt deeper
    rw [inside, indented, singleton_append]
  | @closes closed _ split deeper reached =>
    subst split
    have none : closed.filter (· < width) = [] := by
      rw [filter_eq_nil_iff]
      intro level mem
      simpa using Nat.le_of_lt (deeper level mem)
    rw [filter_append, none, nil_append]
    cases after with
    | nil =>
      subst reached
      rfl
    | cons level rest =>
      have same : level = width := reached
      subst same
      obtain ⟨-, kept, -⟩ := pairwise_append.1 decreasing
      have narrower := (pairwise_cons.1 kept).1
      have own : [level].filter (0 < ·) = [level] := by
        simpa using positive level (by simp)
      have others : (level :: rest).filter (· < level) = rest := by
        rw [filter_cons_of_neg (by simp), filter_eq_self]
        exact fun other mem => decide_eq_true (narrower other mem)
      rw [own, others, singleton_append]

lemma one_way (moves : Moves levels width kinds after) :
    kinds = [.indent] ∨ ∃ count, kinds = List.replicate count .outdent := by
  cases moves with
  | opens deeper => exact .inl rfl
  | closes split deeper reached => exact .inr ⟨_, rfl⟩

/-- The open levels are those of the line and of the lines around it. -/
theorem openLevels_eq (moves : Moves (openLevels earlier) width kinds after) :
    after = openLevels (width :: earlier) := by
  rw [openLevels_cons]
  refine moves.reached (openLevels_decreasing earlier) ?_
  intro level mem
  exact of_decide_eq_true (mem_filter.1 mem).2

end Moves

def rise : List Token → Int
  | [] => 0
  | token :: more => token.kind.rise + rise more

lemma rise_append : rise (front ++ back) = rise front + rise back := by
  induction front with
  | nil => rw [nil_append, rise, Int.zero_add]
  | cons token front ih => rw [cons_append, rise, rise, ih, Int.add_assoc]

lemma rise_content (inside : ∀ token ∈ tokens, token.kind.isMove = false) : rise tokens = 0 := by
  induction tokens with
  | nil => rfl
  | cons token more ih =>
    have here := TokenKind.rise_content (inside token mem_cons_self)
    have later := ih (forall_mem_cons.1 inside).2
    rw [rise, here, later]
    rfl

/-- Tokens that lead from a number of open levels to another, and never close one too many. -/
structure Ascent (before : Nat) (tokens : List Token) (after : Nat) : Prop where
  within : ∀ front, front <+: tokens → 0 ≤ before + rise front
  total : before + rise tokens = after

namespace Ascent

variable {before after : Nat}

lemma append (first : Ascent before front middle)
    (second : Ascent middle back after) : Ascent before (front ++ back) after where
  within := by
    intro part isPart
    rcases prefix_or_prefix_of_prefix isPart (prefix_append front back) with early | late
    · exact first.within part early
    · obtain ⟨more, rfl⟩ := late
      have further := second.within more ((prefix_append_right_inj front).1 isPart)
      have sofar := first.total
      rw [rise_append]
      omega
  total := by
    have sofar := first.total
    have further := second.total
    rw [rise_append]
    omega

lemma content (inside : ∀ token ∈ tokens, token.kind.isMove = false)
    (before) : Ascent before tokens before where
  within := by
    intro front isFront
    rw [rise_content fun token mem => inside token (isFront.subset mem)]
    omega
  total := by rw [rise_content inside, Int.add_zero]

lemma single {token : Token} (reached : before + token.kind.rise = after) : Ascent before [token] after where
  within := by
    intro front isFront
    rcases prefix_cons_iff.1 isFront with rfl | ⟨more, rfl, isMore⟩
    · rw [rise]
      omega
    · rw [prefix_nil.1 isMore, rise, rise]
      omega
  total := by
    rw [rise, rise]
    omega

lemma outdents (pos closed fuel) : Ascent (closed + fuel) (List.replicate closed ⟨.outdent, pos⟩) fuel := by
  induction closed with
  | zero =>
    rw [Nat.zero_add]
    exact content (by simp) fuel
  | succ closed ih =>
    have first : Ascent (closed + 1 + fuel) [⟨.outdent, pos⟩] (closed + fuel) := by
      apply single
      simp only [TokenKind.rise]
      omega
    exact first.append ih

end Ascent

lemma Moves.ascent {after kinds}
    (moves : Moves levels width kinds after) (pos) :
    Ascent levels.length (kinds.map (⟨·, pos⟩)) after.length := by
  cases moves with
  | opens deeper =>
    apply Ascent.single
    simp only [TokenKind.rise, length_cons]
    omega
  | closes split deeper reached =>
    rw [split, length_append, map_replicate]
    exact .outdents pos _ _

variable {line : Line}

lemma Line.content_level (joined : Joined line.content line.sealed) :
    ∀ token ∈ line.content ++ [⟨.newLine, line.finish⟩], token.kind.isMove = false := by
  intro token mem
  rcases mem_append.1 mem with inside | ending
  · rcases joined.kinds token inside with isInner | isColon
    · revert isInner
      cases token.kind <;> simp [TokenKind.isMove, TokenKind.isInner]
    · rw [isColon]
      rfl
  · rw [mem_singleton.1 ending]
    rfl

lemma Line.ascent {after} (moves : Moves levels line.width line.moves after)
    (joined : Joined line.content line.sealed) : Ascent levels.length line.tokens after.length := by
  rw [tokens, append_assoc]
  exact (moves.ascent line.start).append (.content (line.content_level joined) _)

namespace Outlined

variable {levels : List Nat} {lines : List Line}

lemma ascent (outlined : Outlined levels sealed lines final) :
    Ascent levels.length (lines.flatMap Line.tokens) final.length := by
  induction outlined with
  | nil => exact .content (by simp) _
  | @cons levels after final sealed line lines moves shallow joined rest ih =>
    exact (Line.ascent moves joined).append ih

lemma at_line (outlined : Outlined (openLevels earlier) sealed (before ++ line :: behind) final) :
    ∃ reached, Joined line.content line.sealed ∧
      Moves (openLevels ((before.map Line.width).reverse ++ earlier)) line.width line.moves reached ∧
      Ascent (openLevels earlier).length (before.flatMap Line.tokens)
        (openLevels ((before.map Line.width).reverse ++ earlier)).length := by
  induction before generalizing earlier sealed with
  | nil =>
    cases outlined with
    | cons moves shallow joined rest => exact ⟨_, joined, moves, .content (by simp) _⟩
  | cons first before ih =>
    cases outlined with
    | cons moves shallow joined rest =>
      have opened := moves.openLevels_eq
      subst opened
      obtain ⟨reached, isJoined, movesHere, climbs⟩ := ih rest
      simp only [map_cons, reverse_cons, append_assoc]
      refine ⟨reached, isJoined, movesHere, ?_⟩
      exact (Line.ascent moves joined).append climbs

end Outlined

/-- The indentation of the physical line that a group of tokens begins on. -/
def lineWidth (text : List Char) (line : List Token) : Nat :=
  (line.head?.map fun token => physicalWidth text token.position.line).getD 0

lemma Line.Placed.line_width (placed : line.Placed text) : lineWidth text line.tokens = line.width := by
  have written : line.tokens ≠ [] := by simp [tokens]
  obtain ⟨token, rest, split⟩ := exists_cons_of_ne_nil written
  have head : line.tokens.head? = some token := by rw [split]; rfl
  rw [lineWidth, head, ← placed.width, ← placed.head token head]
  rfl

/-- There is one group of tokens for each logical line of the text. -/
theorem lexLines_widths (text) (tracks : Tracks text cursor)
    (atStart : cursor.position.offset = 0 ∨ cursor.rest = [])
    (success : (lexLines indentation cursor).failure = none) : ∃ found, readings cursor = .ok found ∧
      (logicalLines [] (lexLines indentation cursor).tokens).map (lineWidth text) = found.map Reading.width := by
  have lexes := lexLines_lexes indentation cursor
  generalize lexLines indentation cursor = stream at lexes success ⊢
  induction lexes with
  | ended atEnd =>
    rw [readings, if_pos atEnd, logicalLines_open (by simp)]
    exact ⟨[], rfl, rfl⟩
  | failed going fails => cases success
  | @line _ _ _ stream line _ going reads read shorter rest ih =>
    obtain ⟨header, opened, isHeader, whole, moves, kinds, further⟩ :=
      lexLine_reading (skipBlankLines_written going) reads
    obtain ⟨found, others, widths⟩ := ih (tracks.reaches read.reached) (skipLineEnd_offset read.ended) success
    have groups : logicalLines [] (line.tokens ++ stream.tokens) =
        line.tokens :: logicalLines [] stream.tokens := by
      rw [Line.tokens, append_assoc, singleton_append,
        logicalLines_line (Line.no_new_line read.moves read.joined), nil_append]
    rw [further] at shorter others
    rw [readings, if_neg (by simp [going]), isHeader]
    dsimp only
    rw [if_pos shorter, others]
    refine ⟨_, rfl, ?_⟩
    rw [groups, map_cons, widths, (read.placed tracks atStart going).line_width, read.width]
    rfl

lemma tokenize_ok (success : tokenize source = .ok tokens) :
    (stream source).failure = none ∧ (stream source).tokens = tokens := by
  unfold tokenize at success
  dsimp only at success
  split at success
  · rename_i none
    exact ⟨none, Except.ok.inj success⟩
  · cases success

/-- The indents and outdents of a template give its indentation back. They never close a level that is
not open, and close all of them in the end. Between the contents of two lines there is one indent, or
there are outdents only. At the content of a line as many levels are open as the line and the lines
around it are indented. -/
theorem indentation_round_trip {source : String} {tokens : List Token}
    (success : tokenize source = .ok tokens) :
    (∀ front, front <+: tokens → 0 ≤ rise front) ∧ rise tokens = 0 ∧
    (∃ found, readings (.ofText source) = .ok found ∧
      (logicalLines [] tokens).map (lineWidth source.toList) = found.map Reading.width) ∧
    (∃ closing, tokens = (logicalLines [] tokens).flatten ++ closing ∧
      ∀ token ∈ closing, token.kind = .outdent) ∧
    ∀ before line after, logicalLines [] tokens = before ++ line :: after →
      ∃ moves content, line = moves ++ content ∧ content ≠ [] ∧
        (∀ token ∈ content, token.kind.isMove = false) ∧
        ((∃ token, moves = [token] ∧ token.kind = .indent) ∨ ∀ token ∈ moves, token.kind = .outdent) ∧
        ∀ front, front <+: content → rise (before.flatten ++ moves ++ front) =
          (chain ((line :: before.reverse).map (lineWidth source.toList))).countP (0 < ·) := by
  obtain ⟨noFailure, rfl⟩ := tokenize_ok success
  obtain ⟨lines, final, closing, outlined, streamed, closes, placed⟩ := stream_outlined source
  have groups := outlined.logical_lines fun token member isEnd => by
    have isOutdent := closes.outdents token member
    rw [isEnd] at isOutdent
    cases isOutdent
  rw [← streamed] at groups
  have closed : Ascent final.length closing 0 := by
    rw [noFailure] at closes
    obtain ⟨position, rfl⟩ := closes
    rw [List.map_const']
    exact .outdents position final.length 0
  have whole : Ascent 0 (stream source).tokens 0 := by
    rw [streamed]
    exact outlined.ascent.append closed
  refine ⟨?_, ?_, lexLines_widths source.toList (tracks_start source) (.inl rfl) noFailure,
    ⟨closing, ?_, closes.outdents⟩, ?_⟩
  · intro front isFront
    have within := whole.within front isFront
    omega
  · have total := whole.total
    omega
  · rw [groups, ← List.flatMap_def]
    exact streamed
  · intro before group after split
    rw [groups] at split
    obtain ⟨early, late, rfl, rfl, isLate⟩ := List.map_eq_append_iff.1 split
    obtain ⟨line, rest, rfl, rfl, -⟩ := List.map_eq_cons_iff.1 isLate
    have begun : Outlined (openLevels []) false (early ++ line :: rest) final := outlined
    obtain ⟨reached, joined, moves, climbs⟩ := begun.at_line
    rw [List.append_nil] at moves climbs
    have content := line.content_level joined
    refine ⟨line.moves.map (⟨·, line.start⟩), line.content ++ [⟨.newLine, line.finish⟩],
      by rw [Line.tokens, List.append_assoc], by simp, content, ?_, ?_⟩
    · rcases moves.one_way with opens | ⟨count, closes⟩
      · rw [opens]
        exact .inl ⟨_, rfl, rfl⟩
      · right
        intro token member
        rw [closes, List.map_replicate] at member
        rw [List.eq_of_mem_replicate member]
    · intro front isFront
      have widths : ∀ other ∈ early ++ line :: rest, lineWidth source.toList other.tokens = other.width :=
        fun other member => (placed other member).line_width
      have here : (line.tokens :: (early.map Line.tokens).reverse).map (lineWidth source.toList) =
          line.width :: (early.map Line.width).reverse := by
        rw [List.map_cons, List.map_reverse, List.map_map, widths line (by simp)]
        congr 2
        apply List.map_congr_left
        exact fun other member => widths other (by simp [member])
      have total := (climbs.append (moves.ascent line.start)).total
      have still := rise_content fun token member => content token (isFront.subset member)
      rw [moves.openLevels_eq] at total
      rw [here, List.countP_eq_length_filter, ← openLevels, ← List.flatMap_def, rise_append, still]
      rw [Int.add_zero, ← total]
      exact (Int.zero_add _).symm

theorem mixed_lines_round_trip : ∃ tokens before line after moves content,
    tokenize Document.mixedLines = .ok tokens ∧ (∀ front, front <+: tokens → 0 ≤ rise front) ∧
      rise tokens = 0 ∧ logicalLines [] tokens = before ++ line :: after ∧
      (line :: before.reverse).map (lineWidth Document.mixedLines.toList) = [4, 2, 2, 6, 6, 2, 0] ∧
      line = moves ++ content ∧ rise (before.flatten ++ moves) = 2 := by
  obtain ⟨tokens, success, widths⟩ : ∃ tokens, tokenize Document.mixedLines = .ok tokens ∧
      ((logicalLines [] tokens).map (lineWidth Document.mixedLines.toList) ==
        [0, 2, 6, 6, 2, 2] ++ 4 :: [0]) = true :=
    ok_of_any (by decide +kernel)
  obtain ⟨within, total, -, -, atLine⟩ := indentation_round_trip success
  obtain ⟨before, late, lines, beforeWidths, lateWidths⟩ := List.map_eq_append_iff.1 (beq_iff_eq.1 widths)
  obtain ⟨line, after, rfl, lineWidth, -⟩ := List.map_eq_cons_iff.1 lateWidths
  obtain ⟨moves, content, split, -, -, -, count⟩ := atLine before line after lines
  have around : (line :: before.reverse).map (Token.lineWidth Document.mixedLines.toList) =
      [4, 2, 2, 6, 6, 2, 0] := by
    rw [List.map_cons, List.map_reverse, beforeWidths, lineWidth]
    rfl
  refine ⟨tokens, before, line, after, moves, content, success, within, total, lines, around, split, ?_⟩
  have here := count [] (List.nil_prefix)
  rw [around, List.append_nil] at here
  exact here

end Token

end PugTemplate
