import Mathlib.Data.List.TakeWhile
import PugTemplate.Proofs.Balance
import PugTemplate.Token.Line

/-!
# The grammar of tokens

What the tokens of a line can be. A line is a chain of segments joined by colons. A segment is empty,
an inline token, or a head with parts and content: only tags and calls have shorthands and assignments,
content goes into tags, calls and filters, and a colon follows tags, calls and branches. Every read
either meets this grammar or fails for a lexical cause.
-/

namespace PugTemplate

open Text List

/-- A diagnostic of the lexer. -/
def Diagnostic.Lexical (diagnostic : Diagnostic) : Prop :=
  ∃ (cause : Cause) (position : Position), cause.stage = .lex ∧ diagnostic = cause.diagnose position

variable {c : Char} {cursor : Cursor}

namespace Token

/-- A read gives what is asked of it, unless it fails for a lexical cause. -/
def Gives {α : Type} (result : Except Diagnostic α) (property : α → Prop) : Prop :=
  match result with
  | .ok value => property value
  | .error diagnostic => diagnostic.Lexical

namespace Gives

variable {α : Type}

variable {prop : α → Prop} {result : Except Diagnostic α}

lemma fault {cause : Cause} (lexical : cause.stage = .lex) (pos) : Gives (.error (cause.diagnose pos)) prop :=
  ⟨cause, pos, lexical, rfl⟩

variable (gives : Gives result prop)

include gives

lemma imp {other} (weaker : ∀ value, prop value → other value) : Gives result other := by
  cases result with
  | error diag => exact gives
  | ok value => exact weaker value gives

lemma bind {next} {other : β → Prop}
    (step : ∀ value, prop value → Gives (next value) other) : Gives (result >>= next) other := by
  cases result with
  | error diag => exact gives
  | ok value => exact step value gives

lemma map {change} {other : β → Prop}
    (step : ∀ value, prop value → other (change value)) : Gives (result.map change) other := by
  cases result with
  | error diag => exact gives
  | ok value => exact step value gives

lemma with_result : Gives result fun value => result = .ok value ∧ prop value := by
  cases result with
  | error diag => exact gives
  | ok value => exact ⟨rfl, gives⟩

lemma of_ok {value} (ok : result = .ok value) : prop value := by
  rw [ok] at gives
  exact gives

end Gives

open Cursor

lemma read_error_lexical (error : ReadError) : error.diagnose.Lexical := by
  refine ⟨error.cause, error.position, ?_, rfl⟩
  cases error with
  | unbalanced | unterminated => rfl

lemma readName_gives (cursor what) : Gives (readName cursor what) fun result => Reaches cursor result.2 := by
  unfold readName
  dsimp only
  split
  · exact .fault rfl _
  · exact cursor.reaches_readWhile isNameChar

lemma readBalanced_gives (cursor breaks) :
    Gives (readBalanced cursor breaks) fun result => Reaches cursor result.2 ∧
      ∀ c, cursor.peek = some c → breaks.contains c = false → result.2.remaining < cursor.remaining := by
  unfold readBalanced
  split
  · rename_i result read
    exact ⟨readExpression_reaches read, fun c first noBreak =>
      readExpression_progress first noBreak read⟩
  · exact read_error_lexical _

lemma readSubject_gives (cursor keyword) :
    Gives (readSubject cursor keyword) fun result => Reaches cursor result.2 := by
  apply (readBalanced_gives cursor.skipSpacing _).bind
  rintro ⟨text, rest⟩ ⟨reaches, -⟩
  dsimp only
  split
  · exact .fault rfl _
  · exact cursor.reaches_skipSpacing.trans reaches

lemma readPath_gives (cursor) : Gives (readPath cursor) fun result => Reaches cursor result.2 := by
  have reaches := cursor.reaches_skipSpacing.trans (reaches_readLine _)
  unfold readPath
  dsimp only
  -- the path is empty or not, whether it was quoted or not
  split
  all_goals
    split
    · exact .fault rfl _
    · exact reaches

lemma readBranchSubject_eq : readBranchSubject cursor = readBalanced cursor [':', '\n', '\r'] >>= fun read =>
    if read.2.startsWith "::" then
      if (read.2.skip 2).remaining < cursor.remaining then
        (readBranchSubject (read.2.skip 2)).map fun more => (read.1 ++ ':' :: ':' :: more.1, more.2)
      else .ok read
    else .ok read := by
  rw [readBranchSubject]
  cases readBalanced cursor [':', '\n', '\r'] with
  | error diag => rfl
  | ok read =>
    change _ = if read.2.startsWith "::" then _ else _
    dsimp only
    cases readBranchSubject (read.2.skip 2) <;> rfl

lemma readBranchSubject_gives (cursor) :
    Gives (readBranchSubject cursor) fun result => Reaches cursor result.2 := by
  induction cursor using remaining_induction with
  | step cursor ih =>
    rw [readBranchSubject_eq]
    refine (readBalanced_gives cursor _).bind fun read given => ?_
    split
    · split
      · rename_i shorter
        refine (ih _ shorter).map fun more further => ?_
        exact (given.1.trans (read.2.reaches_skip 2)).trans further
      · exact given.1
    · exact given.1

/-- How much of the source a token needs at least: a text is there character by character. -/
def textLength : TokenKind → Nat
  | .text value => value.length
  | _ => 0

/-- Tokens between two cursors. The lexer may look ahead and go back, but never behind the token it left
last, so each token stands at a place that is reached from the one before. -/
inductive Trail : Cursor → List Token → Cursor → Prop
  | nil (reaches : Reaches start finish) : Trail start [] finish
  | cons {start place finish kind more}
      (reaches : Reaches start place) (short : textLength kind ≤ place.remaining)
      (rest : Trail place more finish) : Trail start (⟨kind, place.position⟩ :: more) finish

namespace Trail

lemma append (early : Trail start tokens cursor) (late : Trail cursor more finish) :
    Trail start (tokens ++ more) finish := by
  induction early with
  | nil reaches =>
    cases late with
    | nil further => exact .nil (reaches.trans further)
    | cons further short rest => exact .cons (reaches.trans further) short rest
  | cons reaches short rest ih => exact .cons reaches short (ih late)

lemma before (trail : Trail cursor tokens finish) (reaches : Reaches start cursor) : Trail start tokens finish :=
  append (.nil reaches) trail

lemma behind (trail : Trail start tokens cursor) (reaches : Reaches cursor finish) : Trail start tokens finish := by
  have longer := trail.append (.nil reaches)
  rwa [append_nil] at longer

lemma reaches (trail : Trail start tokens finish) : Reaches start finish := by
  induction trail with
  | nil reaches => exact reaches
  | cons reaches short rest ih => exact reaches.trans ih

lemma text_le (trail : Trail start tokens finish) : ∀ token ∈ tokens, textLength token.kind ≤ start.remaining := by
  induction trail with
  | nil => exact nofun
  | cons reaches short rest ih =>
    exact forall_mem_cons.2 ⟨short.trans reaches.remaining_le,
      fun token later => (ih token later).trans reaches.remaining_le⟩

lemma repeated (same : ∀ token ∈ tokens, token.position = place.position ∧ textLength token.kind = 0)
    (reaches : Reaches start place) (further : Reaches place finish) : Trail start tokens finish := by
  induction tokens generalizing start with
  | nil => exact .nil (reaches.trans further)
  | cons token tokens ih =>
    obtain ⟨kind, pos⟩ := token
    obtain ⟨⟨rfl, noText⟩, others⟩ := forall_mem_cons.1 same
    exact .cons reaches (noText.trans_le (Nat.zero_le _)) (ih others (.refl place))

lemma optional {kind} (missing : Bool) (reaches : Reaches start place)
    (short : textLength kind ≤ place.remaining) (further : Reaches place finish) :
    Trail start (if missing then [] else [⟨kind, place.position⟩]) finish := by
  cases missing with
  | true => exact .nil (reaches.trans further)
  | false => exact .cons reaches short (.nil further)

end Trail

/-- An attribute list, from its opening to its closing parenthesis. -/
structure IsList (tokens : List Token) : Prop where
  parts : ∃ opening entries closing, tokens = ⟨.attributeStart, opening⟩ :: entries ++ [⟨.attributeEnd, closing⟩] ∧
      ∀ entry ∈ entries, ∃ written, entry.kind = .attr written

lemma readBareValue_gives (cursor) : Gives (readBareValue cursor) fun result => Reaches cursor result.2 ∧
    ∀ c, cursor.peek = some c → c ≠ ',' → c ≠ ')' → result.2.remaining < cursor.remaining := by
  apply (readBalanced_gives cursor [',', ')']).bind
  rintro ⟨text, rest⟩ ⟨reaches, progress⟩
  refine ⟨reaches, ?_⟩
  intro c first noComma noClosing
  exact progress c first (by simp [noComma, noClosing])

lemma readValue_gives (cursor) : Gives (readValue cursor) fun result => Reaches cursor result.2 := by
  have checked : ∀ read : List Char × Cursor, Reaches cursor read.2 →
      Gives (if read.1.isEmpty then .error (Cause.missingAttributeValue.diagnose read.2.position)
        else .ok (String.ofList read.1, read.2)) fun result => Reaches cursor result.2 := by
    intro read reaches
    split
    · exact .fault rfl _
    · exact reaches
  unfold readValue
  split
  · exact read_error_lexical _
  · apply (readBareValue_gives cursor).bind
    intro read given
    exact checked read given.1
  · rename_i value rest read
    split
    · exact readString_reaches read
    · apply (readBareValue_gives cursor).bind
      intro read given
      exact checked read given.1

lemma lexEntry_gives (cursor) (first : cursor.peek = some c) (noComma : c ≠ ',')
    (noClosing : c ≠ ')') : Gives (lexEntry cursor) fun result =>
      (∀ entry ∈ result.1, ∃ written, entry.kind = .attr written) ∧
        Trail cursor result.1 result.2 ∧ result.2.remaining < cursor.remaining := by
  unfold lexEntry
  dsimp only
  split
  · rename_i operator found
    have named : (cursor.readWhile isAttributeNameChar).1 ≠ [] := by
      intro nothing
      rw [nothing] at found
      cases found
    have progress := cursor.readWhile_progress named
    apply (readValue_gives _).bind
    rintro ⟨value, rest⟩ reaches
    have spaced := (cursor.reaches_readWhile isAttributeNameChar).trans (reaches_skipSpacing _)
    have valued := (reaches_skip _ _).trans ((reaches_readWhile _ isBlank).trans reaches)
    refine ⟨?_, .cons (.refl cursor) (Nat.zero_le _) (.nil (spaced.trans valued)), ?_⟩
    · intro entry mem
      rw [mem_singleton.1 mem]
      exact ⟨_, rfl⟩
    · have less := ((reaches_skipSpacing _).trans valued).remaining_le
      exact Nat.lt_of_le_of_lt less progress
  · apply (readBareValue_gives cursor).bind
    rintro ⟨text, rest⟩ ⟨reaches, progress⟩
    refine ⟨?_, .repeated ?_ (.refl cursor) reaches, progress c first noComma noClosing⟩
    all_goals
      intro entry mem
      obtain ⟨value, -, same⟩ := mem_map.1 mem
      rw [← same]
    · exact ⟨_, rfl⟩
    · exact ⟨rfl, rfl⟩

def IsListEnd (tokens : List Token) : Prop :=
  ∃ entries closing, tokens = entries ++ [⟨.attributeEnd, closing⟩] ∧
    ∀ entry ∈ entries, ∃ written, entry.kind = .attr written

section

variable {cursor entry : Cursor} {c : Char} (begins : (cursor.readWhile fun c => isBlank c || c == ',').2 = entry)
  (first : entry.peek = some c)

include begins first

lemma lexEntries_open {start} (goingOn : c ≠ ')') :
    lexEntries start cursor = lexEntry entry >>= fun read => if read.2.remaining < cursor.remaining then
        (lexEntries start read.2).map fun more => (read.1 ++ more.1, more.2) else .ok read := by
  rw [lexEntries, begins, first]
  split
  · cases ‹some c = none›
  · cases ‹some c = some ')'›
    exact absurd rfl goingOn
  · cases lexEntry entry with
    | error diag => rfl
    | ok read =>
      change _ = if read.2.remaining < cursor.remaining then _ else _
      dsimp only
      cases lexEntries start read.2 <;> rfl

lemma entry_no_comma : c ≠ ',' := by
  subst begins
  have stopped := cursor.readWhile_stops first
  rintro rfl
  cases stopped

lemma lexEntry_shorter {rest tokens} (goingOn : c ≠ ')') (read : lexEntry entry = .ok (tokens, rest)) :
    rest.remaining < entry.remaining ∧ rest.remaining < cursor.remaining := by
  have progress := ((lexEntry_gives _ first (entry_no_comma begins first) goingOn).of_ok read).2.2
  subst begins
  exact ⟨progress, Nat.lt_of_lt_of_le progress (cursor.reaches_readWhile _).remaining_le⟩

end

lemma lexEntries_gives (start cursor) : Gives (lexEntries start cursor) fun result =>
    IsListEnd result.1 ∧ Trail cursor result.1 result.2 ∧
      result.2.remaining < (cursor.readWhile fun c => isBlank c || c == ',').2.remaining := by
  induction cursor using remaining_induction with
  | step cursor ih =>
    have reaches := cursor.reaches_readWhile fun c => isBlank c || c == ','
    generalize begins : (cursor.readWhile fun c => isBlank c || c == ',').2 = entry at reaches ⊢
    cases first : entry.peek with
    | none =>
      rw [lexEntries, begins, first]
      exact .fault rfl _
    | some c =>
      by_cases closing : c = ')'
      · subst closing
        rw [lexEntries, begins, first]
        exact ⟨⟨[], _, rfl, by simp⟩, .cons reaches (Nat.zero_le _) (.nil entry.reaches_advance),
          (Reaches.refl _).remaining_lt first⟩
      · rw [lexEntries_open begins first closing]
        have noComma := entry_no_comma begins first
        refine (lexEntry_gives entry first noComma closing).bind fun read given => ?_
        obtain ⟨entries, further, progress⟩ := given
        have shorter := Nat.lt_of_lt_of_le progress reaches.remaining_le
        rw [if_pos shorter]
        refine (ih _ shorter).map fun more later => ?_
        obtain ⟨⟨others, closing, shape, othersEntries⟩, last, passed⟩ := later
        have fewer := passed.trans_le (read.2.reaches_readWhile _).remaining_le
        refine ⟨⟨read.1 ++ others, closing, ?_, ?_⟩, (further.before reaches).append last, fewer.trans progress⟩
        · rw [shape, append_assoc]
        · intro token mem
          exact (mem_append.1 mem).elim (entries token) (othersEntries token)

lemma lexAttributes_gives (cursor) :
    Gives (lexAttributes cursor) fun result => IsList result.1 ∧ Trail cursor result.1 result.2 ∧
      Reaches cursor.advance result.2 := by
  apply (lexEntries_gives cursor.position cursor.advance).bind
  rintro ⟨tokens, rest⟩ ⟨⟨entries, closing, shape, entriesKinds⟩, trail, -⟩
  refine ⟨⟨cursor.position, entries, closing, ?_, entriesKinds⟩,
    .cons (.refl cursor) (Nat.zero_le _) (trail.before cursor.reaches_advance), trail.reaches⟩
  dsimp only at shape ⊢
  rw [shape]
  rfl

lemma optional_list_gives (cursor) : Gives (lexAttributes? cursor) fun result =>
    (result.1 = [] ∨ IsList result.1) ∧ Trail cursor result.1 result.2 := by
  unfold lexAttributes?
  split
  · apply (lexAttributes_gives cursor).imp
    rintro result ⟨isList, trail, -⟩
    exact ⟨.inr isList, trail⟩
  · exact ⟨.inl rfl, .nil (.refl cursor)⟩

end Token

namespace TokenKind

/-- A token that opens a line or a part of one, and may have parts and content behind it. -/
def isHead : TokenKind → Bool
  | tag _ | statement _ => true
  | _ => false

/-- A head that may have shorthands and assignments and may close itself. -/
def isTag : TokenKind → Bool
  | tag _ | statement (.call _) => true
  | _ => false

/-- A head that may have an attribute list. -/
def takesList : TokenKind → Bool
  | tag _ | statement (.call _) | statement (.mixin _) | statement (.filter _) => true
  | _ => false

def isInline : TokenKind → Bool
  | text _ | expression _ => true
  | _ => false

def isFilter : TokenKind → Bool
  | statement (.filter _) => true
  | _ => false

/-- A head that a colon may follow. -/
def expands : TokenKind → Bool
  | tag _ | statement (.call _) | statement (.branch _) => true
  | _ => false

/-- What a head may have as its content on the line. -/
def holds : TokenKind → TokenKind → Bool
  | statement (.filter _), text _ => true
  | head, content => head.isTag && content.isInline

end TokenKind

namespace Token

/-- A shorthand, an attribute list, or an assignment with its list. -/
inductive Part (tagged : Bool) : List Token → Prop
  | classShorthand (isTagged : tagged = true) (name : String) (position : Position) :
      Part tagged [⟨.classShorthand name, position⟩]
  | idShorthand (isTagged : tagged = true) (name : String) (position : Position) :
      Part tagged [⟨.idShorthand name, position⟩]
  | list {tokens} (isList : IsList tokens) : Part tagged tokens
  | assignment (isTagged : tagged = true) (name : String) (position : Position)
      {tokens} (isList : IsList tokens) :
      Part tagged (⟨.assignment name, position⟩ :: tokens)

inductive Parts (tagged : Bool) : List Token → Prop
  | nil : Parts tagged []
  | cons {first rest} (part : Part tagged first) (more : Parts tagged rest) : Parts tagged (first ++ rest)

/-- What stands behind a head and its parts. -/
inductive Content (head : TokenKind) : List Token → Prop
  | nothing : Content head []
  | selfClosing (isTagged : head.isTag) (position : Position) : Content head [⟨.selfClosing, position⟩]
  | inline (isInline : token.kind.isInline)
      (held : head.holds token.kind) : Content head [token]

variable {head : TokenKind} {width : Nat}

lemma Content.optional (isInline : token.kind.isInline)
    (held : head.holds token.kind) (missing : Bool) :
    Content head (if missing then [] else [token]) := by
  cases missing with
  | true => exact .nothing
  | false => exact .inline isInline held

lemma Content.tagged (isTag : head.isTag)
    (isInline : token.kind.isInline) : Content head [token] := by
  refine .inline isInline ?_
  revert isTag
  cases head with
  | statement line => cases line <;> simp [TokenKind.isTag, TokenKind.holds, isInline]
  | _ => simp [TokenKind.holds, isInline]

inductive Segmented : List Token → Prop
  | bare : Segmented []
  | inline (isInline : token.kind.isInline) : Segmented [token]
  | headed {head : Token} {parts content} (isHead : head.kind.isHead)
      (hasParts : Parts head.kind.isTag parts)
      (listed : parts ≠ [] → head.kind.takesList)
      (hasContent : Content head.kind content) :
      Segmented (head :: parts ++ content)

def expandable (segment : List Token) : Bool :=
  segment.head?.any fun head => head.kind.expands

/-- No deeper lines may follow: the segment is empty, or it is a filter, whose block is read with
it. -/
def seals (segment : List Token) : Bool :=
  segment.head?.all fun head => head.kind.isFilter

lemma written_of_expandable {segment} (expands : expandable segment) : segment ≠ [] := by
  intro nothing
  rw [nothing] at expands
  cases expands

lemma expandable_not_sealed {segment} (expands : expandable segment) : seals segment = false := by
  cases segment with
  | nil => cases expands
  | cons head more =>
    change head.kind.isFilter = false
    replace expands : head.kind.expands = true := expands
    revert expands
    cases head.kind with
    | statement line => cases line <;> simp [TokenKind.expands, TokenKind.isFilter]
    | _ => simp [TokenKind.isFilter]

/-- The cursor stands at the end of a line below which no deeper lines follow. -/
structure NoBlock (width : Nat) (cursor : Cursor) : Prop where
  ended : cursor.atLineEnd = true
  block : blockLines width (followingLines cursor.rest) = []

/-- What is asked of a segment that begins at `start` on a line of indentation `width`. -/
structure Segment.Fits (width : Nat) (start : Cursor) (segment : Segment) : Prop where
  segmented : Segmented segment.tokens
  trail : Trail start segment.tokens segment.rest
  place : ∀ token ∈ segment.tokens.head?, token.position = start.position
  expands : segment.expands → expandable segment.tokens = true
  line : segment.tokens = [] → Cursor.SameLine start segment.rest
  block : seals segment.tokens → NoBlock width segment.rest

open Cursor

lemma Segment.Fits.reaches {start : Cursor} {segment : Segment} (fits : segment.Fits width start) :
    Reaches start segment.rest :=
  fits.trail.reaches

section Segments

variable {start rest : Cursor}

lemma textLength_of_isHead {kind : TokenKind} (isHead : kind.isHead) : textLength kind = 0 := by
  cases kind with
  | text value => cases isHead
  | _ => rfl

lemma headed_fits {kind : TokenKind} {parts content expands} (isHead : kind.isHead) (hasParts : Parts kind.isTag parts)
    (listed : parts ≠ [] → kind.takesList) (hasContent : Content kind content)
    (expandable : expands = true → kind.expands)
    (block : kind.isFilter → NoBlock width rest) (trail : Trail start (parts ++ content) rest) :
    Segment.Fits width start ⟨⟨kind, start.position⟩ :: parts ++ content, rest, expands⟩ where
  segmented := .headed isHead hasParts listed hasContent
  trail := .cons (.refl start) ((textLength_of_isHead isHead).trans_le (Nat.zero_le _)) trail
  place := by simp
  expands := expandable
  line := by simp
  block := block

lemma statement_fits (line) (reaches : Reaches start rest)
    (noFilter : (TokenKind.statement line).isFilter = false) :
    Segment.Fits width start ⟨[⟨.statement line, start.position⟩], rest, false⟩ := by
  refine headed_fits rfl .nil (by simp) .nothing (by simp) ?_ (.nil reaches)
  intro isFilter
  rw [noFilter] at isFilter
  cases isFilter

lemma branch_fits (subject) (reaches : Reaches start rest) :
    Segment.Fits width start ⟨[⟨.statement (.branch subject), start.position⟩], rest, true⟩ :=
  headed_fits rfl .nil (by simp) .nothing (fun _ => rfl) (by simp [TokenKind.isFilter]) (.nil reaches)

variable {kind : TokenKind}

lemma inline_fits (isInline : kind.isInline) (short : textLength kind ≤ start.remaining)
    (reaches : Reaches start rest) :
    Segment.Fits width start ⟨[⟨kind, start.position⟩], rest, false⟩ where
  segmented := .inline isInline
  trail := .cons (.refl start) short (.nil reaches)
  place := by simp
  expands := by simp
  line := by simp
  block := by
    intro sealed
    cases kind with
    | statement line => cases isInline
    | _ => cases sealed

lemma eachStatement_no_filter
    (found : eachStatement? subject = some line) : (TokenKind.statement line).isFilter = false := by
  obtain ⟨⟨names, collection⟩, _, rest⟩ := Option.bind_eq_some_iff.1 found
  dsimp only at rest
  split at rest
  · cases rest
  · split at rest
    · cases rest
      rfl
    · cases rest
      rfl
    · cases rest

lemma optional_list_parts (optional : tokens = [] ∨ IsList tokens) : Parts tagged tokens := by
  rcases optional with nothing | isList
  · rw [nothing]
    exact .nil
  · have whole := Parts.cons (.list isList) (@Parts.nil tagged)
    rw [append_nil] at whole
    exact whole

section Statements

variable {cursor : Cursor} (reaches : Reaches start cursor)

include reaches

lemma subject_fits (keyword) (line : String → Statement)
    (noFilter : ∀ subject, (TokenKind.statement (line subject)).isFilter = false) : Gives (do
      let (subject, rest) ← readSubject cursor keyword
      return statementOnly (line subject) start rest) (Segment.Fits width start) := by
  apply (readSubject_gives cursor keyword).bind
  rintro ⟨subject, rest⟩ further
  exact statement_fits _ (reaches.trans further) (noFilter subject)

lemma lexDoctype_fits : Gives (lexDoctype start cursor) (Segment.Fits width start) := by
  have further := cursor.reaches_skipSpacing.trans (reaches_readLine _)
  exact statement_fits _ (reaches.trans further) rfl

lemma lexBlockName_fits (mode) : Gives (lexBlockName mode start cursor) (Segment.Fits width start) := by
  have further := cursor.reaches_skipSpacing.trans (reaches_readLine _)
  unfold lexBlockName
  dsimp only
  split
  · exact .fault rfl _
  · exact statement_fits _ (reaches.trans further) rfl

lemma lexBlock_fits : Gives (lexBlock start cursor) (Segment.Fits width start) := by
  have spaced := reaches.trans cursor.reaches_skipSpacing
  unfold lexBlock
  dsimp only
  split
  · rename_i mode rest found
    apply lexBlockName_fits
    have moved : Reaches cursor.skipSpacing rest := by
      simp only [Option.orElse_eq_orElse, Option.orElse_eq_or, Option.or_eq_some_iff,
        Option.ite_none_right_eq_some, Option.some.injEq, Prod.mk.injEq] at found
      rcases found with ⟨-, -, moved⟩ | ⟨-, ⟨-, -, moved⟩ | ⟨-, -, -, moved⟩⟩
      all_goals
        rw [← moved]
        exact reaches_skip _ _
    exact spaced.trans moved
  · exact lexBlockName_fits spaced none

lemma lexConditional_fits (kind) : Gives (lexConditional kind start cursor) (Segment.Fits width start) :=
  subject_fits reaches (conditionWord kind) (fun subject => .conditional kind (some subject)) fun _ => rfl

lemma lexElse_fits : Gives (lexElse start cursor) (Segment.Fits width start) := by
  have spaced := reaches.trans cursor.reaches_skipSpacing
  unfold lexElse
  dsimp only
  split
  · exact lexConditional_fits (spaced.trans (reaches_skip _ 2)) .elseIf
  · exact statement_fits _ spaced rfl

lemma lexBranch_fits : Gives (lexBranch start cursor) (Segment.Fits width start) := by
  apply (readBranchSubject_gives cursor.skipSpacing).bind
  rintro ⟨text, rest⟩ further
  dsimp only
  split
  · exact .fault rfl _
  · exact branch_fits _ (reaches.trans (cursor.reaches_skipSpacing.trans further))

lemma lexEach_fits : Gives (lexEach start cursor) (Segment.Fits width start) := by
  apply (readSubject_gives cursor "each").bind
  rintro ⟨subject, rest⟩ further
  dsimp only
  split
  · rename_i line found
    exact statement_fits _ (reaches.trans further) (eachStatement_no_filter found)
  · exact .fault rfl _

lemma lexExtends_fits : Gives (lexExtends start cursor) (Segment.Fits width start) := by
  apply (readPath_gives cursor).bind
  rintro ⟨path, rest⟩ further
  exact statement_fits _ (reaches.trans further) rfl

lemma lexInclude_fits : Gives (lexInclude start cursor) (Segment.Fits width start) := by
  unfold lexInclude
  split
  · rename_i filterStart consumed
    have colon := reaches.trans (consume_reaches consumed)
    apply (readName_gives filterStart "filter name").bind
    rintro ⟨filter, afterName⟩ named
    apply (readPath_gives afterName).bind
    rintro ⟨path, rest⟩ further
    exact statement_fits _ (colon.trans (named.trans further)) rfl
  · apply (readPath_gives cursor).bind
    rintro ⟨path, rest⟩ further
    exact statement_fits _ (reaches.trans further) rfl

lemma lexMixin_fits : Gives (lexMixin start cursor) (Segment.Fits width start) := by
  apply (readName_gives cursor.skipSpacing "mixin name").bind
  rintro ⟨name, afterName⟩ named
  apply (optional_list_gives afterName).bind
  rintro ⟨params, rest⟩ ⟨optional, trail⟩
  have before := reaches.trans (cursor.reaches_skipSpacing.trans named)
  have fits := @headed_fits width start rest (.statement (.mixin name)) params [] false rfl
    (optional_list_parts optional) (fun _ => rfl) .nothing (by simp) (by simp [TokenKind.isFilter])
    (by rw [append_nil]; exact trail.before before)
  rw [append_nil] at fits
  exact fits

end Statements

lemma readBlock_reaches (width cursor) : Reaches cursor (readBlock width cursor).2 := by
  unfold readBlock
  split
  · exact .refl cursor
  · exact cursor.reaches_skip _

lemma readBlock_none (result : readBlock width cursor = (none, rest)) :
    rest = cursor ∧ blockLines width (followingLines cursor.rest) = [] := by
  unfold readBlock at result
  split at result
  · rename_i nothing
    cases result
    exact ⟨rfl, nothing⟩
  · cases result

lemma followingLines_step
    (lines : followingLines text = line :: more) : followingLines (text.drop line.length) = more ∧
      ∀ c ∈ (text.drop line.length).head?, isLineEnd c := by
  cases text with
  | nil =>
    rw [followingLines] at lines
    cases lines
  | cons c rest =>
    rw [followingLines] at lines
    split at lines
    · cases lines
    · rename_i positive
      obtain ⟨same, rfl⟩ := List.cons.inj lines
      subst same
      obtain ⟨lead, count⟩ : ∃ lead, lineEndLength (c :: rest) = lead + 1 :=
        Nat.exists_eq_succ_of_ne_zero (by simpa using positive)
      have behind : (c :: rest).drop (PhysicalLine.length ⟨lineEndLength (c :: rest),
          (rest.drop (lineEndLength (c :: rest) - 1)).takeWhile fun c => !isLineEnd c⟩) =
            (rest.drop lead).dropWhile fun c => !isLineEnd c := by
        rw [PhysicalLine.length, count, Nat.add_sub_cancel, Nat.add_right_comm, drop_succ_cons,
          ← drop_drop, drop_takeWhile_length]
      rw [behind, count, drop_takeWhile_length]
      refine ⟨rfl, ?_⟩
      intro d first
      have stops := head?_dropWhile_not (fun c => !isLineEnd c) (rest.drop lead)
      rw [first] at stops
      simpa using stops

lemma followingLines_behind (text : List Char) (front back passed)
    (lines : followingLines (text.drop passed) = front ++ back)
    (ended : ∀ c ∈ (text.drop passed).head?, isLineEnd c) :
    followingLines (text.drop (front.foldl (fun total line => total + line.length) passed)) = back ∧
      ∀ c ∈ (text.drop (front.foldl (fun total line => total + line.length) passed)).head?, isLineEnd c = true := by
  induction front generalizing passed with
  | nil => exact ⟨lines, ended⟩
  | cons line more ih =>
    obtain ⟨rest, ends⟩ := followingLines_step lines
    rw [drop_drop] at rest ends
    exact ih (passed + line.length) rest ends

lemma blockLines_eq_nil_iff {lines} : blockLines width lines = [] ↔
    ∀ line ∈ lines.takeWhile (fun line => line.isBlank || width < line.indentation), line.isBlank = true := by
  simp only [blockLines, reverse_eq_nil_iff, dropWhile_eq_nil_iff, mem_reverse]

lemma blockLines_split (width lines) :
    ∃ back, lines = blockLines width lines ++ back ∧ blockLines width back = [] := by
  let deeper := fun line : PhysicalLine => line.isBlank || decide (width < line.indentation)
  let blanks := ((lines.takeWhile deeper).reverse.takeWhile PhysicalLine.isBlank).reverse
  have areBlank : ∀ line ∈ blanks, line.isBlank := by
    intro line mem
    exact all_eq_true.1 all_takeWhile line (mem_reverse.1 mem)
  refine ⟨blanks ++ lines.dropWhile deeper, ?_, ?_⟩
  · have inner : (lines.takeWhile deeper) = blockLines width lines ++ blanks := by
      rw [blockLines, ← reverse_append, takeWhile_append_dropWhile, reverse_reverse]
    rw [← append_assoc, ← inner, takeWhile_append_dropWhile]
  · rw [blockLines_eq_nil_iff]
    intro line mem
    rw [takeWhile_append_of_pos (fun line blank => by simp [areBlank line blank])] at mem
    rcases mem_append.1 mem with isBlank | behind
    · exact areBlank line isBlank
    · have stopped := head?_dropWhile_not deeper lines
      cases rest : lines.dropWhile deeper with
      | nil =>
        rw [rest] at behind
        cases behind
      | cons next others =>
        rw [rest] at behind stopped
        rw [takeWhile_cons_of_neg (by simpa [deeper] using stopped)] at behind
        cases behind

lemma readBlock_no_block {width cursor} (ended : cursor.atLineEnd) : NoBlock width (readBlock width cursor).2 := by
  unfold readBlock
  split
  · rename_i nothing
    exact ⟨ended, nothing⟩
  · obtain ⟨back, split, nothing⟩ := blockLines_split width (followingLines cursor.rest)
    obtain ⟨rest, ends⟩ := followingLines_behind cursor.rest _ back 0 split ((atLineEnd_iff cursor).1 ended)
    constructor
    · rw [atLineEnd_iff, rest_skip]
      exact ends
    · rw [rest_skip, rest]
      exact nothing

/-- The characters of lines, with one for the end of each. -/
def room (lines : List PhysicalLine) : Nat :=
  (lines.flatMap fun line => '\n' :: line.text).length

lemma room_cons (line more) : room (line :: more) = line.text.length + 1 + room more := by
  rw [room, flatMap_cons, length_append, length_cons, room]

lemma room_followingLines (text) : room (followingLines text) ≤ text.length := by
  fun_induction followingLines text with
  | case1 | case2 => exact Nat.zero_le _
  | case3 c rest lead positive body line ih =>
    have short : line.length ≤ body.length := (takeWhile_sublist _).length_le
    have inside : body.length ≤ rest.length := (drop_sublist _ _).length_le
    rw [length_drop] at ih
    rw [room_cons, length_cons]
    dsimp only
    omega

lemma length_intercalate_lt {trimmed : PhysicalLine → List Char}
    (short : ∀ line, (trimmed line).length ≤ line.text.length) (line more) :
    (['\n'].intercalate ((line :: more).map trimmed)).length < room (line :: more) := by
  have first := short line
  rw [room_cons]
  induction more generalizing line with
  | nil =>
    rw [map_singleton, intercalate_singleton]
    omega
  | cons next more ih =>
    have others := ih next (short next)
    rw [map_cons, map_cons, intercalate_cons_cons, ← map_cons, room_cons, length_append, length_append,
      length_singleton]
    omega

lemma readBlock_short {width cursor block} (read : readBlock width cursor = (some block, rest)) :
    block.length < cursor.remaining := by
  obtain ⟨back, split, -⟩ := blockLines_split width (followingLines cursor.rest)
  have whole := room_followingLines cursor.rest
  rw [split, room, flatMap_append, length_append] at whole
  unfold readBlock at read
  split at read
  · cases read
  · rename_i lines present
    cases read
    rw [String.length_ofList]
    refine Nat.lt_of_lt_of_le ?_ (Nat.le_of_add_right_le whole)
    cases lines' : blockLines width (followingLines cursor.rest) with
    | nil => exact absurd lines' present
    | cons line more =>
      refine length_intercalate_lt (fun line => ?_) line more
      split
      · exact Nat.zero_le _
      · exact (drop_sublist _ _).length_le

lemma readLine_length (cursor : Cursor) :
    cursor.readLine.1.length + cursor.readLine.2.remaining = cursor.remaining := by
  have whole := cursor.rest.takeWhile_append_dropWhile (p := fun c => !isLineEnd c)
  rw [← readWhile_value, ← readWhile_rest] at whole
  rw [remaining, remaining, ← length_append]
  exact congrArg length whole

lemma textLine_short (cursor : Cursor) :
    textLength (.text (String.ofList cursor.readLine.1)) ≤ cursor.remaining := by
  rw [textLength, String.length_ofList]
  exact Nat.le.intro (readLine_length cursor)

lemma joinBlock_short (width) (cursor : Cursor) :
    textLength (.text (joinBlock (trimEnd cursor.readLine.1) (readBlock width cursor.readLine.2).1)) ≤
      cursor.remaining := by
  have line := readLine_length cursor
  have trimmed := length_trimEnd_le cursor.readLine.1
  generalize trimEnd cursor.readLine.1 = first at *
  rcases read : readBlock width cursor.readLine.2 with ⟨_ | block, rest⟩
  · rw [joinBlock, textLength, String.length_ofList]
    omega
  · have short := readBlock_short read
    dsimp only [joinBlock, textLength]
    split
    · omega
    · rw [String.length_append, String.length_append, String.length_ofList, show "\n".length = 1 from rfl]
      omega

lemma lexComment_fits : Gives (lexComment width start) (Segment.Fits width start) := by
  have opened := start.reaches_skip 2
  unfold lexComment
  dsimp only
  split
  · rename_i body consumed
    have further := (consume_reaches consumed).trans (body.reaches_readLine.trans (readBlock_reaches width _))
    exact statement_fits _ (opened.trans further) rfl
  · have further := (reaches_readLine (start.skip 2)).trans (readBlock_reaches width _)
    exact statement_fits _ (opened.trans further) rfl

lemma lexFilter_fits : Gives (lexFilter width start) (Segment.Fits width start) := by
  apply (readName_gives start.advance "filter name").bind
  rintro ⟨name, afterName⟩ named
  apply (optional_list_gives afterName).bind
  rintro ⟨options, afterList⟩ ⟨optional, listed⟩
  have line := (reaches_readLine _).trans (readBlock_reaches width afterList.skipSpacing.readLine.2)
  refine headed_fits rfl (optional_list_parts optional) (fun _ => rfl) (.optional rfl rfl _) (by simp)
    (fun _ => readBlock_no_block (readLine_ended _)) ?_
  exact (listed.before (start.reaches_advance.trans named)).append
    (.optional _ afterList.reaches_skipSpacing (joinBlock_short width _) line)

lemma lexCode_fits (first : start.peek = some c) (inside : isLineEnd c = false) :
    Gives (lexCode width start) (Segment.Fits width start) := by
  have toEnd : SameLine start start.advance.skipSpacing.readLine.2 :=
    (SameLine.of_advance first inside).trans ((SameLine.of_skipSpacing _).trans (SameLine.of_readLine _))
  have body : Gives (lexCode.body width start) (Segment.Fits width start) := by
    unfold lexCode.body
    dsimp only
    split
    · split
      · rename_i block rest read
        have further := readBlock_reaches width start.advance.skipSpacing.readLine.2
        rw [read] at further
        exact statement_fits _ (toEnd.reaches.trans further) rfl
      · rename_i rest read
        obtain ⟨rfl, nothing⟩ := readBlock_none read
        exact ⟨.bare, .nil toEnd.reaches, by simp, by simp, fun _ => toEnd, fun _ => ⟨readLine_ended _, nothing⟩⟩
    · exact statement_fits _ toEnd.reaches rfl
  unfold lexCode
  split
  · split
    · exact body
    · exact .fault rfl _
  · exact body

lemma lexBinding_fits : Gives (lexBinding start) (Segment.Fits width start) := by
  have named := start.reaches_advance.trans (reaches_readWhile _ isIdentifierChar)
  have assigned := named.trans ((reaches_skipSpacing _).trans (reaches_advance _))
  unfold lexBinding
  dsimp only
  split
  · exact .fault rfl _
  · exact subject_fits assigned "assignment" (fun value => .binding _ value) fun _ => rfl

lemma lexEcho_gives (cursor) : Gives (lexEcho cursor) fun result => ∃ echo,
    result.1 = [⟨.expression echo, cursor.position⟩] ∧ Reaches cursor result.2 := by
  unfold lexEcho
  split
  · exact .fault rfl _
  · apply (readSubject_gives _ "expression").bind
    rintro ⟨value, rest⟩ further
    exact ⟨_, rfl, (cursor.reaches_skip _).trans further⟩

lemma lexTagPart_gives (cursor) :
    Gives (lexTagPart cursor) fun result => ∀ tokens rest, result = some (tokens, rest) →
      Part true tokens ∧ Trail cursor tokens rest ∧ rest.remaining < cursor.remaining := by
  have name := reaches_readWhile cursor.advance isNameChar
  have named := cursor.reaches_advance.trans name
  unfold lexTagPart
  dsimp only
  split
  iterate 2
    · rename_i first
      split
      · rintro tokens rest ⟨⟩
        refine ⟨?_, .cons (.refl cursor) (Nat.zero_le _) (.nil named), name.remaining_lt first⟩
        constructor
        rfl
      · rintro tokens rest ⟨⟩
  · rename_i first
    apply (lexAttributes_gives cursor).map
    rintro result ⟨isList, trail, further⟩ tokens rest ⟨⟩
    exact ⟨.list isList, trail, further.remaining_lt first⟩
  · rename_i first
    apply (readName_gives cursor.advance "assignment name").bind
    rintro ⟨name, afterName⟩ reachesName
    split
    · exact .fault rfl _
    · apply (lexAttributes_gives afterName).bind
      rintro ⟨list, afterList⟩ ⟨isList, trail, -⟩ tokens rest ⟨⟩
      exact ⟨.assignment rfl _ _ isList,
        .cons (.refl cursor) (Nat.zero_le _) (trail.before (cursor.reaches_advance.trans reachesName)),
        (reachesName.trans trail.reaches).remaining_lt first⟩
  · rintro tokens rest ⟨⟩

lemma lexTagParts_eq : lexTagParts cursor =
    ((lexTagPart cursor).map fun part => part.getD ([], cursor)) >>= fun found =>
      if found.2.remaining < cursor.remaining then
        (lexTagParts found.2).map fun more => (found.1 ++ more.1, more.2) else .ok found := by
  rw [lexTagParts]
  cases lexTagPart cursor with
  | error diag => rfl
  | ok part =>
    cases part with
    | none => exact (if_neg (Nat.lt_irrefl _)).symm
    | some found =>
      change _ = if found.2.remaining < cursor.remaining then _ else _
      dsimp only [Option.getD_some]
      cases lexTagParts found.2 <;> rfl

lemma lexTagParts_gives (cursor) : Gives (lexTagParts cursor) fun result =>
    Parts true result.1 ∧ Trail cursor result.1 result.2 := by
  induction cursor using remaining_induction with
  | step cursor ih =>
    have first : Gives ((lexTagPart cursor).map fun part => part.getD ([], cursor)) fun found =>
        (∀ {more}, Parts true more → Parts true (found.1 ++ more)) ∧ Trail cursor found.1 found.2 := by
      refine (lexTagPart_gives cursor).map fun part given => ?_
      cases part with
      | none => exact ⟨fun parts => parts, .nil (.refl cursor)⟩
      | some found =>
        obtain ⟨part, trail, -⟩ := given _ _ rfl
        exact ⟨.cons part, trail⟩
    rw [lexTagParts_eq]
    refine first.bind fun found given => ?_
    split
    · rename_i shorter
      refine (ih _ shorter).map fun more later => ?_
      exact ⟨given.1 later.1, given.2.append later.2⟩
    · have whole := given.1 .nil
      rw [append_nil] at whole
      exact ⟨whole, given.2⟩

lemma lexTextBlock_gives (width cursor) (isTag : head.isTag) : Gives (lexTextBlock width cursor) fun result =>
      Content head result.1 ∧ Trail cursor result.1 result.2 := by
  have lineEnd := cursor.reaches_advance.trans (reaches_skipSpacing _)
  have further := lineEnd.trans (readBlock_reaches width _)
  unfold lexTextBlock
  dsimp only
  split
  · split
    · rename_i block rest read
      rw [read] at further
      have short := Nat.le_trans (readBlock_short read).le lineEnd.remaining_le
      exact ⟨.tagged isTag rfl, .cons (.refl cursor) short (.nil further)⟩
    · rename_i rest read
      rw [read] at further
      exact ⟨.nothing, .nil further⟩
  · exact .fault rfl _

lemma lexTagContent_gives (width cursor) {head} (isTag : head.isTag) :
    Gives (lexTagContent width cursor) fun segment =>
      Content head segment.tokens ∧ Trail cursor segment.tokens segment.rest := by
  unfold lexTagContent
  dsimp only
  split
  · exact ⟨.nothing, .nil (.refl cursor)⟩
  · split
    · exact ⟨.nothing, .nil (.refl cursor)⟩
    · split
      · exact ⟨.selfClosing isTag _, .cons (.refl cursor) (Nat.zero_le _) (.nil cursor.reaches_advance)⟩
      · split
        · apply (lexTextBlock_gives width cursor isTag).map
          rintro ⟨tokens, rest⟩ both
          exact both
        · split
          · exact ⟨.nothing, .nil (.refl cursor)⟩
          · split
            · apply (lexEcho_gives cursor).map
              rintro ⟨tokens, rest⟩ ⟨echo, same, reaches⟩
              rw [same]
              exact ⟨.tagged isTag rfl, .cons (.refl cursor) (Nat.zero_le _) (.nil reaches)⟩
            · split
              · have spaced := cursor.reaches_skipSpacing
                have line := reaches_readLine cursor.skipSpacing
                refine ⟨?_, .optional _ spaced (textLine_short _) line⟩
                split
                · exact .nothing
                · exact .tagged isTag rfl
              · exact .fault rfl _

lemma isTag_facts (isTag : kind.isTag) : kind.isHead ∧ kind.takesList ∧ kind.expands ∧ kind.isFilter = false := by
  cases kind with
  | tag name => exact ⟨rfl, rfl, rfl, rfl⟩
  | statement line => cases line <;> first | exact ⟨rfl, rfl, rfl, rfl⟩ | cases isTag
  | _ => cases isTag

lemma lexTagTail_fits (isTag : kind.isTag) (reaches : Reaches start cursor) :
    Gives (lexTagTail width ⟨kind, start.position⟩ cursor) (Segment.Fits width start) := by
  apply (lexTagParts_gives cursor).bind
  rintro ⟨parts, rest⟩ ⟨hasParts, partsTrail⟩
  apply (lexTagContent_gives width rest isTag).bind
  rintro content ⟨hasContent, contentTrail⟩
  obtain ⟨isHead, takesList, expands, noFilter⟩ := isTag_facts isTag
  rw [← isTag] at hasParts
  exact headed_fits isHead hasParts (fun _ => takesList) hasContent (fun _ => expands)
    (by simp [noFilter]) ((partsTrail.before reaches).append contentTrail)

lemma lexCall_fits : Gives (lexCall width start) (Segment.Fits width start) := by
  apply (readName_gives start.advance "mixin name").bind
  rintro ⟨name, rest⟩ reaches
  exact lexTagTail_fits rfl (start.reaches_advance.trans reaches)

lemma lexTag_fits : Gives (lexTag width start) (Segment.Fits width start) :=
  lexTagTail_fits rfl (start.reaches_skip _)

lemma lexText_fits (reaches : Reaches start textStart) :
    Gives (lexText start textStart) (Segment.Fits width start) :=
  inline_fits rfl (Nat.le_trans (textLine_short textStart) reaches.remaining_le)
    (reaches.trans textStart.reaches_readLine)

lemma lexKeyword_fits (keyword) {cursor : Cursor} (reaches : Reaches start cursor) :
    Gives (lexKeyword keyword start cursor) (Segment.Fits width start) := by
  cases keyword with
  | doctype => exact lexDoctype_fits reaches
  | extending => exact lexExtends_fits reaches
  | including => exact lexInclude_fits reaches
  | block => exact lexBlock_fits reaches
  | append | prepend => exact lexBlockName_fits reaches _
  | ifTrue | ifFalse | elseIf => exact lexConditional_fits reaches _
  | otherwise => exact lexElse_fits reaches
  | caseOf => exact subject_fits reaches "case" .caseOf fun _ => rfl
  | branch => exact lexBranch_fits reaches
  | fallback => exact branch_fits none reaches
  | each => exact lexEach_fits reaches
  | whileLoop => exact subject_fits reaches "while" .whileLoop fun _ => rfl
  | doLoop => exact statement_fits _ reaches rfl
  | forLoop => exact subject_fits reaches "for" .forLoop fun _ => rfl
  | mixin => exact lexMixin_fits reaches

lemma lexSegment_fits (width cursor) (going : cursor.atLineEnd = false) :
    Gives (lexSegment width cursor) (Segment.Fits width cursor) := by
  unfold lexSegment
  split
  · rename_i nothing
    rw [Bool.eq_false_iff] at going
    exact absurd ((atLineEnd_iff cursor).2 (by simp [← peek_eq_head, nothing])) going
  · rename_i c first
    have inside : isLineEnd c = false := by
      rw [Bool.eq_false_iff]
      intro isEnd
      rw [Bool.eq_false_iff] at going
      exact going ((atLineEnd_iff cursor).2 (by simp [← peek_eq_head, first, isEnd]))
    split
    · exact lexComment_fits
    · exact lexDoctype_fits (cursor.reaches_skip 3)
    · apply lexText_fits
      split
      · exact cursor.reaches_advance.trans (reaches_advance _)
      · exact cursor.reaches_advance
    · exact lexText_fits (.refl cursor)
    · exact lexFilter_fits
    · exact lexCall_fits
    · exact lexCode_fits first inside
    · apply (lexEcho_gives cursor).map
      rintro ⟨tokens, rest⟩ ⟨echo, same, reaches⟩
      dsimp only at same ⊢
      rw [same]
      exact inline_fits rfl (Nat.zero_le _) reaches
    · exact lexBinding_fits
    · exact lexTagTail_fits rfl (.refl cursor)
    · split
      · rename_i keyword rest found
        obtain ⟨_, _, same⟩ := Option.map_eq_some_iff.1 found
        cases same
        exact lexKeyword_fits keyword (cursor.reaches_skip _)
      · exact lexTag_fits
    · exact .fault rfl _

end Segments

/-- The tokens between the indentation and the end of a line. The flag says that the last segment
seals the line. -/
inductive Joined : List Token → Bool → Prop
  | last {tokens : List Token} (segmented : Segmented tokens) : Joined tokens (seals tokens)
  | expand {tokens more sealed} (segmented : Segmented tokens)
      (expands : expandable tokens) (position : Position) (rest : Joined more sealed) :
      Joined (tokens ++ ⟨.expansion, position⟩ :: more) sealed

/-- What is asked of the content of a line that begins at `start`. -/
structure Chained (width : Nat) (start : Cursor) (tokens : List Token) (rest : Cursor)
    (sealed : Bool) : Prop where
  joined : Joined tokens sealed
  trail : Trail start tokens rest
  place : ∀ token ∈ tokens.head?, token.position = start.position
  line : tokens = [] → SameLine start rest
  block : sealed = true → NoBlock width rest

lemma Segment.Fits.chained {start rest : Cursor} {segment : Segment}
    (fits : segment.Fits width start) (further : Reaches segment.rest rest)
    (same : seals segment.tokens → rest = segment.rest) :
    Chained width start segment.tokens rest (seals segment.tokens) where
  joined := .last fits.segmented
  trail := fits.trail.behind further
  place := fits.place
  line := by
    intro nothing
    rw [same (by rw [nothing]; rfl)]
    exact fits.line nothing
  block := by
    intro sealed
    rw [same sealed]
    exact fits.block sealed

lemma lexSegments_gives (width cursor) (going : cursor.atLineEnd = false) :
    Gives (lexSegments width cursor) fun result =>
      ∃ sealed, Chained width cursor result.1 result.2 sealed := by
  induction cursor using remaining_induction with
  | step cursor ih =>
    have first := lexSegment_fits width cursor going
    unfold lexSegments
    split
    · rename_i diag failed
      rw [failed] at first
      exact first
    · rename_i segment read
      have fits := first.of_ok read
      split
      · rename_i colon
        have expands := fits.expands (Bool.and_eq_true_iff.1 colon).1
        have written := written_of_expandable expands
        have notSealed : ¬ seals segment.tokens := by
          simp [expandable_not_sealed expands]
        have next := (reaches_advance segment.rest).trans (reaches_skipSpacing _)
        dsimp only
        split
        · exact ⟨_, fits.chained next fun sealed => absurd sealed notSealed⟩
        · rename_i notEnded
          split
          · rename_i shorter
            have later := ih _ shorter (Bool.eq_false_iff.2 notEnded)
            split
            · rename_i diag failed
              rw [failed] at later
              exact later
            · rename_i more finish readMore
              obtain ⟨sealed, chained⟩ := later.of_ok readMore
              refine ⟨sealed, .expand fits.segmented expands _ chained.joined,
                fits.trail.append (.cons (.refl _) (Nat.zero_le _) (chained.trail.before next)), ?_, ?_, chained.block⟩
              · rw [head?_append_of_ne_nil _ written]
                exact fits.place
              · intro nothing
                exact absurd (append_eq_nil_iff.1 nothing).1 written
          · exact ⟨_, fits.chained next fun sealed => absurd sealed notSealed⟩
      · exact ⟨_, fits.chained (.refl _) fun _ => rfl⟩

end Token

end PugTemplate
