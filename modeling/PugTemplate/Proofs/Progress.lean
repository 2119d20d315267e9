import PugTemplate.Proofs.Lines

/-!
# The lexer gets on

Every loop of the lexer takes at least one character before it goes round again, although some of its
reads go back and others may take nothing. A lexer that gives its tokens one at a time therefore always
answers: with finitely many tokens, perhaps a fault behind them, and then nothing.
-/

namespace PugTemplate.Token

open Cursor Text List

lemma tagNameLength_eq (text) : tagNameLength text =
    (text.takeWhile isNameChar).length + tagNameLength (text.dropWhile isNameChar) := by
  induction text with
  | nil => rfl
  | cons c rest ih =>
    cases named : isNameChar c with
    | true =>
      rw [takeWhile_cons_of_pos named, dropWhile_cons_of_pos named, length_cons, tagNameLength]
      simp only [named, Bool.true_or, if_true]
      omega
    | false => simp [named]

/-- What every loop of the lexer takes from the text before it goes round again: an entry of an attribute
list, a part of a tag, two colons in the subject of a branch, a colon in the name of a tag, and a segment
with the colon that joins it to the next. -/
structure Progresses : Prop where
  entry : ∀ {cursor rest : Cursor} {c : Char} {tokens : List Token},
    (cursor.readWhile fun c => isBlank c || c == ',').2.peek = some c → c ≠ ')' →
      lexEntry (cursor.readWhile fun c => isBlank c || c == ',').2 = .ok (tokens, rest) →
        rest.remaining < cursor.remaining
  part : ∀ {cursor rest : Cursor} {tokens : List Token},
    lexTagPart cursor = .ok (some (tokens, rest)) → rest.remaining < cursor.remaining
  subject : ∀ {cursor rest : Cursor} {text : List Char},
    readBalanced cursor [':', '\n', '\r'] = .ok (text, rest) → rest.startsWith "::" = true →
      (rest.skip 2).remaining < cursor.remaining
  name : ∀ cursor : Cursor,
    let colon := (cursor.readWhile isNameChar).2
    if colon.peek = some ':' ∧ colon.advance.peek.any isIdentifierChar then
      cursor.skip (tagNameLength cursor.rest) = colon.advance.skip (tagNameLength colon.advance.rest) ∧
        colon.advance.remaining < cursor.remaining
    else cursor.skip (tagNameLength cursor.rest) = colon
  segment : ∀ {width : Nat} {cursor : Cursor} {segment : Segment},
    lexSegment width cursor = .ok segment → cursor.atLineEnd = false → segment.rest.peek = some ':' →
      segment.rest.advance.skipSpacing.remaining < cursor.remaining

lemma progresses : Progresses where
  entry first goingOn read := (lexEntry_shorter rfl first goingOn read).2
  part read := ((lexTagPart_gives _).of_ok read _ _ rfl).2.2
  subject {cursor rest text} read colons := by
    have reaches := ((readBalanced_gives cursor _).of_ok read).1
    have first : rest.peek = some ':' := by
      obtain ⟨more, split⟩ := isPrefixOf_iff_prefix.1 colons
      rw [peek, ← split]
      rfl
    exact ((reaches_advance _).remaining_lt first).trans_le reaches.remaining_le
  name cursor := by
    intro colon
    have name : cursor.skip (tagNameLength cursor.rest) = colon.skip (tagNameLength colon.rest) := by
      rw [tagNameLength_eq, ← skip_skip, ← readWhile_rest]
      rfl
    cases split : colon.rest with
    | nil =>
      rw [if_neg (by simp [peek, split]), name, split]
      rfl
    | cons c rest =>
      have unnamed : isNameChar c = false := cursor.readWhile_stops (by rw [peek, split]; rfl)
      have further : colon.advance.rest = rest := by rw [rest_advance, split]; rfl
      split
      · rename_i colons
        have isColon : c = ':' := by simpa [peek, split] using colons.1
        have step : tagNameLength colon.rest = tagNameLength rest + 1 := by
          simp only [peek, further] at colons
          simp [split, tagNameLength, isColon, colons.2]
        rw [name, step, further]
        exact ⟨rfl, ((Reaches.refl _).remaining_lt colons.1).trans_le
          (cursor.reaches_readWhile isNameChar).remaining_le⟩
      · rename_i noColons
        have step : tagNameLength colon.rest = 0 := by
          simp only [peek, further, split, head?_cons, Option.some.injEq] at noColons
          simp [split, tagNameLength, unnamed, noColons]
        rw [name, step]
        rfl
  segment {width cursor segment} read going colon := by
    have fits := (lexSegment_fits width cursor going).of_ok read
    exact ((reaches_skipSpacing _).remaining_lt colon).trans_le fits.reaches.remaining_le

/-- The tokens of a template, and its fault behind them. -/
def Stream.items (stream : Stream) : List (Except Diagnostic Token) :=
  stream.tokens.map .ok ++ stream.failure.toList.map .error

/-- A lexer that gives its tokens one at a time. It reads a line when all tokens of the lines before have
been given. -/
structure Lexer where
  pending : List Token
  indentation : Indentation
  cursor : Cursor
  finished : Bool

namespace Lexer

def ofText (source : String) : Lexer :=
  ⟨[], .none, .ofText source, false⟩

/-- Reads a line, or closes all levels at the end of the text. A fault finishes the lexer. -/
def lexLine (lexer : Lexer) : Option Diagnostic × Lexer :=
  let line := skipBlankLines lexer.cursor
  if line.atEnd then
    (none, ⟨lexer.indentation.levels.map fun _ => ⟨.outdent, line.position⟩, .none, line, true⟩)
  else
    match Token.lexLine lexer.indentation line with
    | .error diagnostic => (some diagnostic, ⟨[], lexer.indentation, line, true⟩)
    | .ok (tokens, moved, rest) => (none, ⟨tokens, moved, rest, false⟩)

lemma lexLine_progress (lexer : Lexer) :
    lexer.lexLine.2.finished ∨ lexer.lexLine.2.cursor.remaining < lexer.cursor.remaining := by
  obtain ⟨pending, indentation, cursor, finished⟩ := lexer
  have lexes := lexLines_lexes indentation cursor
  generalize lexLines indentation cursor = stream at lexes
  cases lexes with
  | ended atEnd => exact .inl (by simp [lexLine, atEnd])
  | failed going fails => exact .inl (by simp [lexLine, going, fails])
  | line going reads read shorter rest => exact .inr (by simpa [lexLine, going, reads] using shorter)

def next (lexer : Lexer) : Option (Except Diagnostic Token) × Lexer :=
  match lexer.pending with
  | token :: more => (some (.ok token), { lexer with pending := more })
  | [] =>
    if lexer.finished then (none, lexer)
    else
      match lexer.lexLine.1 with
      | some diagnostic => (some (.error diagnostic), lexer.lexLine.2)
      | none => lexer.lexLine.2.next
-- what is left to read, or nothing for a lexer that has finished
termination_by if lexer.finished then 0 else lexer.cursor.remaining + 1
decreasing_by
  rename_i going
  rcases lexer.lexLine_progress with finished | shorter
  · simp [going, finished]
  · simp only [going]
    split <;> simp [shorter]

/-- What a lexer is still to give. -/
def items (lexer : Lexer) : List (Except Diagnostic Token) :=
  lexer.pending.map .ok ++ if lexer.finished then [] else (lexLines lexer.indentation lexer.cursor).items

/-- Reading a line changes nothing of what a lexer is to give. -/
theorem items_lexLine (lexer : Lexer) : (lexLines lexer.indentation lexer.cursor).items =
    lexer.lexLine.1.toList.map .error ++ lexer.lexLine.2.items := by
  have progress := lexer.lexLine_progress
  rw [lexLines]
  unfold lexLine at progress ⊢
  dsimp only at progress ⊢
  split
  · simp [items, Stream.items]
  · rw [if_neg ‹_›] at progress
    cases read : Token.lexLine lexer.indentation (skipBlankLines lexer.cursor) with
    | error diagnostic => rfl
    | ok line =>
      rw [read] at progress
      have shorter := progress.resolve_left Bool.false_ne_true
      simp [items, Stream.items, shorter]

lemma next_items (lexer : Lexer) : lexer.next.1 = lexer.items.head? ∧ lexer.next.2.items = lexer.items.tail := by
  induction lexer using next.induct with
  | case1 lexer token more pending =>
    rw [next, pending]
    simp [items, pending]
  | case2 lexer pending finished =>
    rw [next, pending]
    simp [items, pending, finished]
  | case3 lexer pending going diagnostic failed =>
    rw [next, items, pending]
    simp [going, failed, items_lexLine]
  | case4 lexer pending going read ih =>
    have given : lexer.items = lexer.lexLine.2.items := by
      rw [items, pending, if_neg going, items_lexLine, read]
      rfl
    rw [given, next, pending]
    simpa [going, read] using ih

/-- A lexer after some tokens have been asked of it. -/
def asked : Nat → Lexer → Lexer
  | 0, lexer => lexer
  | count + 1, lexer => asked count lexer.next.2

lemma items_asked (count lexer) : (asked count lexer).items = lexer.items.drop count := by
  induction count generalizing lexer with
  | zero => rfl
  | succ count ih => rw [asked, ih, (next_items lexer).2, drop_tail]

end Lexer

/-- Every round of the lexer takes characters from the text: those of its loops, and the reading of a line
unless it is the last. So a lexer gives finitely many tokens, perhaps a fault behind them, and nothing after
that, however often it is asked. -/
theorem lexing_consumes_its_input : Progresses ∧ (∀ lexer : Lexer, lexer.lexLine.2.finished = true ∨
      lexer.lexLine.2.cursor.remaining < lexer.cursor.remaining) ∧
    ∀ source count, (Lexer.asked count (.ofText source)).next.1 = (stream source).items[count]? := by
  refine ⟨progresses, Lexer.lexLine_progress, fun source count => ?_⟩
  rw [(Lexer.next_items _).1, Lexer.items_asked, head?_drop]
  rfl

end PugTemplate.Token
