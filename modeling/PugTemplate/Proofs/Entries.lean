import PugTemplate.Proofs.PhysicalLines
import PugTemplate.Proofs.Segments

/-!
# Entries of attribute lists

A list of entries is written between parentheses, with a comma and a space between two entries. Reading
such a list gives the entries back, as long as each of them can be told from what it is not: a value from
a string with another entry behind it, a bare value from a named entry and from several plain names.
-/

namespace PugTemplate

open Text List

namespace Text

variable {text : List Char}

lemma trimmed_head (trimmed : trim text = text) : ∀ c ∈ text.head?, isBlank c = false := by
  cases text with
  | nil => simp
  | cons c rest =>
    rintro _ ⟨⟩
    rw [← Bool.not_eq_true]
    intro blank
    have shorter : (trim (c :: rest)).length ≤ rest.length := by
      rw [trim, trimEnd, length_reverse, trimStart, dropWhile_cons_of_pos blank]
      refine (length_dropWhile_le _ _).trans ?_
      rw [length_reverse]
      exact length_dropWhile_le _ _
    rw [trimmed] at shorter
    exact Nat.not_succ_le_self _ shorter

lemma trimmed_last (trimmed : trim text = text) : ∀ c ∈ text.getLast?, isBlank c = false := by
  intro c last
  have stopped := head?_dropWhile_not isBlank (trimStart text).reverse
  rw [← trimmed, trim, trimEnd, getLast?_reverse] at last
  rw [last] at stopped
  simpa using stopped

end Text

namespace Cursor

variable {cursor : Cursor} {keep : Char → Bool} {breaks front behind rest : List Char} {c : Char}

lemma readWhile_front (shape : cursor.rest = front ++ behind) (kept : ∀ c ∈ front, keep c)
    (stops : ∀ c ∈ behind.head?, keep c = false) :
    cursor.readWhile keep = (front, cursor.skip front.length) := by
  have taken : cursor.rest.takeWhile keep = front := by
    rw [shape, takeWhile_append_of_pos kept]
    cases behind with
    | nil => exact append_nil _
    | cons c behind => rw [takeWhile_cons_of_neg (by simp [stops c rfl]), append_nil]
  refine Prod.ext ((cursor.readWhile_value keep).trans taken) ?_
  change cursor.skip _ = _
  rw [taken]

lemma skipSpacing_front (shape : cursor.rest = front ++ behind) (kept : ∀ c ∈ front, isSpacing c)
    (stops : ∀ c ∈ behind.head?, isSpacing c = false) : cursor.skipSpacing = cursor.skip front.length := by
  rw [skipSpacing, readWhile_front shape kept stops]

/-- Where spaces and tabs are passed in an expression, what stands behind them is no break. -/
theorem Items.behind_spacing {more} (spaces : ∀ c ∈ front, isSpacing c)
    (items : Items breaks (front ++ c :: more) rest) : c ∉ breaks := by
  induction front with
  | nil => cases items <;> assumption
  | cons space front ih =>
    obtain ⟨isSpacing, others⟩ := forall_mem_cons.1 spaces
    refine ih others ?_
    rw [cons_append] at items
    generalize front ++ c :: more = text at items ⊢
    have isSpace : space = ' ' ∨ space = '\t' := by simpa [Text.isSpacing] using isSpacing
    have noOpening : isOpening space = false := by rcases isSpace with rfl | rfl <;> rfl
    cases items with
    | single _ _ further => exact further
    | string _ isQuote => rcases isSpace with rfl | rfl <;> cases isQuote
    | escape | backslash => cases isSpacing
    | pair _ closes =>
      rw [(close_plain closes).2.2.2] at noOpening
      cases noOpening

end Cursor

namespace Token

open Cursor

/-- An entry of an attribute list. -/
inductive ListEntry where
  | named (name : List Char) (operator : Operator) (value : List Char)
  | bare (value : List Char)

namespace ListEntry

def text : ListEntry → List Char
  | named name operator value => name ++ (operator.text.toList ++ value)
  | bare value => value

def entry : ListEntry → Attribute
  | named name operator value =>
    ⟨some (String.ofList name), some (String.ofList value), operator.escaped, operator.checked⟩
  | bare value => ⟨none, some (String.ofList value), true, true⟩

end ListEntry

def IsName (name : List Char) : Prop :=
  name ≠ [] ∧ ∀ c ∈ name, isAttributeNameChar c = true

/-- A value that can be read in front of a comma and in front of the end of the list. -/
structure Closed (value : List Char) : Prop where
  filled : value ≠ []
  trimmed : Text.trim value = value
  comma : Recovers [',', ')'] value ','
  parenthesis : Recovers [',', ')'] value ')'

/-- A value that begins with a string behind which another entry could begin. -/
def LeavesString (value : List Char) : Prop :=
  ∃ quote body spaces c rest, value = quote :: (body ++ (spaces ++ c :: rest)) ∧ isQuote quote = true ∧
    Quoted quote body ∧ (∀ space ∈ spaces, isSpacing space = true) ∧
    (c.isAlpha = true ∨ c = '_' ∨ c = '@' ∨ c = ':' ∨ isLineEnd c = true)

lemma LeavesString.begins {value : List Char} (leaves : LeavesString value) : value.head?.any isQuote := by
  obtain ⟨quote, _, _, _, _, rfl, isQuote, -⟩ := leaves
  exact isQuote

/-- A value that begins as a named entry does. -/
def BeginsNamed (known : List Operator) (value : List Char) : Prop :=
  ∃ name spaces operator rest, value = name ++ (spaces ++ (operator.text.toList ++ rest)) ∧ IsName name ∧
    (∀ space ∈ spaces, isSpacing space = true) ∧ operator ∈ known ∧ rest.head? ≠ some '='

/-- An entry that can be told from what it is not, where the operators are known. -/
def ListEntry.Legible (known : List Operator) : ListEntry → Prop
  | named name operator value => IsName name ∧ operator ∈ known ∧ Closed value ∧ value.head? ≠ some '=' ∧
    ¬ LeavesString value
  | bare value => Closed value ∧ ¬ BeginsNamed known value ∧
    ¬ (1 < (Text.words value).length ∧ ∀ word ∈ Text.words value, isPlainName word = true)

def listText (entries : List ListEntry) : List Char :=
  '(' :: ([',', ' '].intercalate (entries.map ListEntry.text) ++ [')'])

variable {cursor : Cursor} {value name behind : List Char} {close : Char} {operator : Operator}

lemma break_plain (isBreak : close ∈ [',', ')']) : ∀ c ∈ (close :: behind).head?, isSpacing c = false := by
  rintro _ ⟨⟩
  rcases mem_pair.1 isBreak with rfl | rfl <;> rfl

lemma Closed.recovers (closed : Closed value) (isBreak : close ∈ [',', ')']) : Recovers [',', ')'] value close := by
  rcases mem_pair.1 isBreak with rfl | rfl
  · exact closed.comma
  · exact closed.parenthesis

lemma readBareValue_closed (closed : Closed value) (isBreak : close ∈ [',', ')'])
    (shape : cursor.rest = value ++ close :: behind) :
    readBareValue cursor = .ok (value, cursor.skip value.length) := by
  have accepts := (closed.recovers isBreak).accepts behind
  rw [← shape] at accepts
  have read : cursor.readExpression [',', ')'] = .ok (value, cursor.skip value.length) :=
    readExpression_ok_iff.2 ⟨accepts, rfl⟩
  simp only [readBareValue, readBalanced, read]
  change Except.ok (trim value, _) = _
  rw [closed.trimmed]

/-- Behind a string that begins a value, the value goes on with what is no other entry. -/
theorem endsLiteral_goes_on {quote body others}
    (closed : Closed (quote :: (body ++ others))) (noEntry : ¬ LeavesString (quote :: (body ++ others)))
    (isQuote : isQuote quote) (quoted : Quoted quote body)
    (items : Items [',', ')'] others (close :: behind)) (more : others ≠ [])
    (shape : cursor.rest = others ++ close :: behind) : endsLiteral cursor.skipSpacing = false := by
  have split := @takeWhile_append_dropWhile _ isSpacing others
  have spaces : ∀ c ∈ others.takeWhile isSpacing, isSpacing c := fun _ => mem_takeWhile_imp
  have stopped := head?_dropWhile_not isSpacing others
  cases further : others.dropWhile isSpacing with
  | nil =>
    -- A value that is trimmed does not end in blanks.
    have blank := spacing_blank (dropWhile_eq_nil_iff.1 further _ (getLast_mem more))
    refine absurd (trimmed_last closed.trimmed (others.getLast more) ?_) (by simp [blank])
    simp [getLast?_cons, getLast?_eq_some_getLast more]
  | cons c rest =>
    rw [further] at split stopped
    rw [← split] at items shape noEntry
    have noBreak := items.behind_spacing spaces
    rw [append_assoc] at shape
    rw [skipSpacing_front shape spaces (by simpa using stopped)]
    rw [endsLiteral, peek, rest_skip]
    have other : ¬ (c.isAlpha ∨ c = '_' ∨ c = '@' ∨ c = ':' ∨ isLineEnd c) :=
      fun goes => noEntry ⟨quote, body, _, c, rest, rfl, isQuote, quoted, spaces, goes⟩
    simp_all

lemma readValue_closed (closed : Closed value) (noEntry : ¬ LeavesString value)
    (isBreak : close ∈ [',', ')']) (shape : cursor.rest = value ++ close :: behind) :
    readValue cursor = .ok (String.ofList value, cursor.skip value.length) := by
  have general := readBareValue_closed closed isBreak shape
  obtain ⟨rest, split, items, -⟩ := (closed.recovers isBreak).accepts behind
  obtain rfl := append_cancel_left split
  obtain ⟨c, more, rfl⟩ := exists_cons_of_ne_nil closed.filled
  unfold readValue readString
  rw [shape, cons_append, general]
  dsimp only
  cases isQuoted : isQuote c with
  | false => rfl
  | true =>
    obtain ⟨body, others, rfl, quoted, items⟩ := items.string_first isQuoted
    obtain ⟨found, read⟩ := quotedBody_quoted quoted (quote_plain isQuoted)
    rw [append_assoc, read]
    have behindString : (cursor.skip (body.length + 1)).rest = others ++ close :: behind := by
      rw [rest_skip, shape]
      simp
    cases others with
    | nil =>
      have ends : endsLiteral (cursor.skip (body.length + 1)).skipSpacing := by
        rw [skipSpacing_front behindString (by simp) (break_plain isBreak)]
        have isNext : (cursor.skip (body.length + 1)).peek = some close := congrArg head? behindString
        rw [length_nil, skip, endsLiteral, isNext]
        rcases mem_pair.1 isBreak with rfl | rfl <;> rfl
      have taken : cursor.upTo (cursor.skip (body.length + 1)) = c :: (body ++ []) := by
        have length : cursor.remaining - (cursor.skip (body.length + 1)).remaining = body.length + 1 := by
          simp [remaining, shape, behindString]
          omega
        rw [upTo, length, shape, append_nil]
        exact @take_left _ (c :: body) _
      rw [if_pos rfl]
      dsimp only
      rw [if_pos ends, taken, append_nil, length_cons]
    | cons d others =>
      have goesOn := endsLiteral_goes_on closed noEntry isQuoted quoted items (cons_ne_nil d others)
        behindString
      rw [if_pos rfl]
      dsimp only
      rw [goesOn]
      rfl

lemma mem_operators (known : operator ∈ operators) :
    operator = ⟨"?!=", false, false⟩ ∨ operator = ⟨"!?=", false, false⟩ ∨ operator = ⟨"!=", false, true⟩ ∨
      operator = ⟨"?=", true, false⟩ ∨ operator = ⟨"=", true, true⟩ := by
  simpa [operators] using known

lemma operator_begins (known : operator ∈ operators) (more) :
    ∀ c ∈ (operator.text.toList ++ more).head?, isAttributeNameChar c = false ∧ isSpacing c = false := by
  rcases mem_operators known with rfl | rfl | rfl | rfl | rfl <;> rintro _ ⟨⟩ <;> decide

lemma attributeOperator_found (known : operator ∈ operators)
    (shape : spaced.rest = operator.text.toList ++ behind) (further : behind.head? ≠ some '=') :
    attributeOperator? spaced = some operator := by
  have next : (spaced.skip operator.text.length).peek = behind.head? := by
    rw [peek, rest_skip, shape, ← String.length_toList, drop_left]
  rcases mem_operators known with rfl | rfl | rfl | rfl | rfl <;>
    simp_all [attributeOperator?, operators, startsWith]

lemma lexEntry_named (named : IsName name) (known : operator ∈ operators) (closed : Closed value)
    (further : value.head? ≠ some '=') (noEntry : ¬ LeavesString value) (isBreak : close ∈ [',', ')'])
    (shape : cursor.rest = (ListEntry.named name operator value).text ++ close :: behind) :
    lexEntry cursor = .ok ([⟨.attr (ListEntry.named name operator value).entry, cursor.position⟩],
      cursor.skip (ListEntry.named name operator value).text.length) := by
  rw [ListEntry.text, append_assoc, append_assoc] at shape
  have begins := operator_begins known (value ++ close :: behind)
  have isName := readWhile_front shape named.2 fun c first => (begins c first).1
  have afterName : (cursor.skip name.length).rest = [] ++ (operator.text.toList ++ (value ++ close :: behind)) := by
    rw [rest_skip, shape, drop_left]
    rfl
  have noSpaces := skipSpacing_front afterName (by simp) fun c first => (begins c first).2
  have further : (value ++ close :: behind).head? ≠ some '=' := by
    rwa [head?_append_of_ne_nil _ closed.filled]
  have isOperator := attributeOperator_found known afterName further
  have afterOperator : ((cursor.skip name.length).skip operator.text.length).rest =
      [] ++ (value ++ close :: behind) := by
    rw [rest_skip, afterName, ← String.length_toList, nil_append, drop_left]
    rfl
  have noBlanks := @readWhile_front _ isBlank [] _ afterOperator (by simp) (by
    rw [head?_append_of_ne_nil _ closed.filled]
    exact trimmed_head closed.trimmed)
  have read := readValue_closed closed noEntry isBreak afterOperator
  have filled : name.isEmpty = false := by simpa using named.1
  unfold lexEntry
  rw [isName]
  dsimp only
  rw [noSpaces, length_nil, skip, filled, if_neg Bool.false_ne_true, isOperator]
  dsimp only
  rw [noBlanks, length_nil, skip, read]
  change Except.ok (_, _) = _
  rw [skip_skip, skip_skip]
  simp only [ListEntry.text, ListEntry.entry, length_append, String.length_toList]

/-- What begins a named entry stands in front of the character that ends a value. -/
theorem no_operator (noName : ¬ BeginsNamed operators value) (isBreak : close ∈ [',', ')'])
    (shape : cursor.rest = value ++ close :: behind) (named : (cursor.readWhile isAttributeNameChar).1 ≠ []) :
    attributeOperator? (cursor.readWhile isAttributeNameChar).2.skipSpacing = none := by
  rw [Option.eq_none_iff_forall_not_mem]
  intro operator found
  have known := mem_of_find?_eq_some found
  have fits := find?_some (Option.mem_def.1 found)
  rw [Bool.and_eq_true] at fits
  obtain ⟨starts, noEquals⟩ := fits
  obtain ⟨rest, isRest⟩ := isPrefixOf_iff_prefix.1 starts
  rw [skipSpacing_rest, readWhile_rest] at isRest
  rw [peek, rest_skip, skipSpacing_rest, readWhile_rest, ← isRest, ← String.length_toList, drop_left] at noEquals
  rw [readWhile_value] at named
  have names : ∀ c ∈ cursor.rest.takeWhile isAttributeNameChar, isAttributeNameChar c := fun _ => mem_takeWhile_imp
  have spaces : ∀ c ∈ (cursor.rest.dropWhile isAttributeNameChar).takeWhile isSpacing,
      isSpacing c = true := fun _ => mem_takeWhile_imp
  have whole := @takeWhile_append_dropWhile _ isAttributeNameChar cursor.rest
  rw [← @takeWhile_append_dropWhile _ isSpacing (cursor.rest.dropWhile isAttributeNameChar), ← isRest] at whole
  generalize cursor.rest.takeWhile isAttributeNameChar = name at names named whole
  generalize (cursor.rest.dropWhile isAttributeNameChar).takeWhile isSpacing = blanks at spaces whole
  have outside : close ∉ name ++ (blanks ++ operator.text.toList) := by
    have plain : isAttributeNameChar close = false ∧ isSpacing close = false ∧
        ∀ operator ∈ operators, close ∉ operator.text.toList := by
      rcases mem_pair.1 isBreak with rfl | rfl <;> decide
    simp only [mem_append, not_or]
    refine ⟨fun mem => ?_, fun mem => ?_, plain.2.2 operator known⟩
    · exact absurd (names close mem) (by simp [plain.1])
    · exact absurd (spaces close mem) (by simp [plain.2.1])
  rw [shape, ← append_assoc, ← append_assoc] at whole
  have inside : ∃ more, value = (name ++ blanks ++ operator.text.toList) ++ more ∧
      rest = more ++ close :: behind := by
    rcases append_eq_append_iff.1 whole with found | ⟨_ | ⟨c, more⟩, isFront, isBehind⟩
    · exact found
    · exact ⟨[], by rw [isFront, append_nil, append_nil], isBehind.symm⟩
    · obtain ⟨rfl, -⟩ := cons.inj isBehind
      rw [← append_assoc, isFront] at outside
      simp at outside
  obtain ⟨more, rfl, rfl⟩ := inside
  refine noName ⟨name, blanks, operator, more, ?_, ⟨named, names⟩, spaces, known, fun equals => ?_⟩
  · rw [append_assoc, append_assoc]
  · rw [head?_append, equals] at noEquals
    cases noEquals

lemma lexEntry_bare (closed : Closed value) (noName : ¬ BeginsNamed operators value)
    (noNames : ¬ (1 < (words value).length ∧ ∀ word ∈ words value, isPlainName word))
    (isBreak : close ∈ [',', ')']) (shape : cursor.rest = value ++ close :: behind) :
    lexEntry cursor = .ok ([⟨.attr (ListEntry.bare value).entry, cursor.position⟩], cursor.skip value.length) := by
  have unnamed : (if (cursor.readWhile isAttributeNameChar).1.isEmpty then none
      else attributeOperator? (cursor.readWhile isAttributeNameChar).2.skipSpacing) = none := by
    split
    · rfl
    · rename_i filled
      exact no_operator noName isBreak shape (by simpa using filled)
  have one : bareValues value = [value] := by
    unfold bareValues
    rw [if_neg]
    simpa using noNames
  unfold lexEntry
  dsimp only
  rw [unnamed, readBareValue_closed closed isBreak shape]
  change Except.ok (_, _) = _
  rw [one]
  rfl

lemma lexEntry_legible {entry : ListEntry} (legible : entry.Legible operators)
    (isBreak : close ∈ [',', ')']) (shape : cursor.rest = entry.text ++ close :: behind) :
    lexEntry cursor = .ok ([⟨.attr entry.entry, cursor.position⟩], cursor.skip entry.text.length) := by
  cases entry with
  | named name operator value =>
    obtain ⟨named, known, closed, further, noEntry⟩ := legible
    exact lexEntry_named named known closed further noEntry isBreak shape
  | bare value =>
    obtain ⟨closed, noName, noNames⟩ := legible
    exact lexEntry_bare closed noName noNames isBreak shape

lemma blank_no_name (isBlank : Text.isBlank c) : isAttributeNameChar c = false := by
  have noDigit : c.isDigit = false := by
    simp only [Text.isBlank, Bool.or_eq_true, Bool.and_eq_true, decide_eq_true_eq, beq_iff_eq] at isBlank
    simp only [Char.isDigit, UInt32.le_iff_toNat_le]
    simp
    omega
  have noStart := blank_no_identifier isBlank
  have other : ∀ d : Char, Text.isBlank d = false → c ≠ d := by
    rintro d solid rfl
    rw [isBlank] at solid
    cases solid
  simp [isIdentifierStart] at noStart
  simp [isAttributeNameChar, isNameChar, Char.isAlphanum, noDigit, noStart, other '-' (by decide),
    other ':' (by decide), other '@' (by decide), other '.' (by decide), other '$' (by decide)]

lemma legible_begins {entry : ListEntry} (legible : entry.Legible operators) :
    ∃ c rest, entry.text = c :: rest ∧ c ≠ ')' ∧ (isBlank c || c == ',') = false := by
  cases entry with
  | named name operator value =>
    obtain ⟨c, name, rfl⟩ := exists_cons_of_ne_nil legible.1.1
    have isChar := legible.1.2 c mem_cons_self
    refine ⟨c, name ++ _, rfl, ?_, ?_⟩
    · rintro rfl
      cases isChar
    · rw [Bool.or_eq_false_iff]
      refine ⟨Bool.eq_false_iff.2 fun isBlank => ?_, beq_eq_false_iff_ne.2 ?_⟩
      · rw [blank_no_name isBlank] at isChar
        cases isChar
      · rintro rfl
        cases isChar
  | bare value =>
    obtain ⟨c, rest, rfl⟩ := exists_cons_of_ne_nil legible.1.filled
    obtain ⟨_, -, items, -⟩ := legible.1.comma.accepts []
    have inside := @Items.behind_spacing _ [] _ _ _ (by simp) items
    have solid := trimmed_head legible.1.trimmed c rfl
    exact ⟨c, rest, rfl, by simp_all⟩

/-- What stands between two entries, and what is passed in front of one. -/
def Gap (gap : List Char) : Prop :=
  ∀ c ∈ gap, (isBlank c || c == ',') = true

lemma intercalate_begins (entry more behind) : ∃ gap close tail, Gap gap ∧ close ∈ [',', ')'] ∧
    gap ++ ([',', ' '].intercalate (more.map ListEntry.text) ++ ')' :: behind) = close :: tail ∧
    [',', ' '].intercalate ((entry :: more).map ListEntry.text) =
      entry.text ++ (gap ++ [',', ' '].intercalate (more.map ListEntry.text)) := by
  cases more with
  | nil => exact ⟨[], ')', behind, by simp [Gap], by simp, by simp, by simp⟩
  | cons next more =>
    refine ⟨[',', ' '], ',', _, by simp [Gap]; decide, by simp, rfl, ?_⟩
    simp

lemma lexEntries_legible {start} {gap : List Char} (isGap : Gap gap) {entries : List ListEntry}
    (legible : ∀ entry ∈ entries, entry.Legible operators)
    (shape : cursor.rest = gap ++ ([',', ' '].intercalate (entries.map ListEntry.text) ++ ')' :: behind)) :
    ∃ tokens, lexEntries start cursor = .ok (tokens,
        cursor.skip (gap.length + (([',', ' '].intercalate (entries.map ListEntry.text)).length + 1))) ∧
      tokens.map kind = entries.map (fun entry => .attr entry.entry) ++ [.attributeEnd] := by
  induction entries generalizing cursor gap with
  | nil =>
    have begins := readWhile_front shape isGap (by rintro _ ⟨⟩; decide)
    have first : (cursor.skip gap.length).rest = ')' :: behind := by
      rw [rest_skip, shape, drop_left]
      rfl
    refine ⟨[⟨.attributeEnd, (cursor.skip gap.length).position⟩], ?_, rfl⟩
    rw [lexEntries, begins]
    rw [peek, first]
    rw [← skip_skip]
    rfl
  | cons entry more ih =>
    obtain ⟨legibleFirst, legibleMore⟩ := forall_mem_cons.1 legible
    obtain ⟨next, close, tail, isNext, isBreak, begin, split⟩ := intercalate_begins entry more behind
    obtain ⟨c, text, isText, noEnd, solid⟩ := legible_begins legibleFirst
    rw [split, append_assoc, append_assoc] at shape
    have begins : (cursor.readWhile fun c => isBlank c || c == ',').2 = cursor.skip gap.length := by
      rw [readWhile_front shape isGap (by rw [isText]; rintro _ ⟨⟩; exact solid)]
    have first : (cursor.skip gap.length).rest =
        entry.text ++ (next ++ ([',', ' '].intercalate (more.map ListEntry.text) ++ ')' :: behind)) := by
      rw [rest_skip, shape, drop_left]
    have isFirst : (cursor.skip gap.length).peek = some c := by
      rw [peek, first, isText]
      rfl
    have read := lexEntry_legible legibleFirst isBreak (first.trans (by rw [begin]))
    have afterFirst : ((cursor.skip gap.length).skip entry.text.length).rest =
        next ++ ([',', ' '].intercalate (more.map ListEntry.text) ++ ')' :: behind) := by
      rw [rest_skip, first, drop_left]
    obtain ⟨tokens, others, kinds⟩ := ih isNext legibleMore afterFirst
    obtain ⟨-, shorter⟩ := lexEntry_shorter begins isFirst noEnd read
    refine ⟨⟨.attr entry.entry, (cursor.skip gap.length).position⟩ :: tokens, ?_, ?_⟩
    · rw [lexEntries_open begins isFirst noEnd, read]
      change (if _ then _ else _) = _
      rw [if_pos shorter, others, skip_skip, skip_skip, split]
      simp only [length_append, Nat.add_assoc]
      rfl
    · rw [map_cons, kinds]
      rfl

/-- A list of entries that can be told apart is read back: a token for the start, one for each entry in
order, with its name, its value and the flags of its operator, and one for the end. The cursor is then
behind the list. -/
theorem written_entries_are_read (cursor : Cursor) (entries : List ListEntry) (behind : List Char)
    (legible : ∀ entry ∈ entries, entry.Legible operators) (shape : cursor.rest = listText entries ++ behind) :
    ∃ tokens, lexAttributes cursor = .ok (tokens, cursor.skip (listText entries).length) ∧
      tokens.map Token.kind =
        .attributeStart :: entries.map (fun entry => .attr entry.entry) ++ [.attributeEnd] := by
  have advanced : cursor.advance.rest =
      [] ++ ([',', ' '].intercalate (entries.map ListEntry.text) ++ ')' :: behind) := by
    have skipped := rest_skip cursor 1
    rw [shape, listText] at skipped
    simpa [skip] using skipped
  obtain ⟨tokens, read, kinds⟩ := @lexEntries_legible _ _ cursor.position [] (by simp [Gap]) _ legible advanced
  refine ⟨⟨.attributeStart, cursor.position⟩ :: tokens, ?_, ?_⟩
  · rw [lexAttributes, read]
    change Except.ok (_, _) = _
    rw [listText, List.length_cons, List.length_append, List.length_nil, Nat.zero_add]
    rfl
  · rw [List.map_cons, kinds]
    rfl

/-- Commas in strings, calls and brackets end no entry. -/
theorem nested_commas_are_read :
    ∃ tokens, lexAttributes ⟨"(data-x!=f('a, b)', $c), \"l\" . [1, 2])p".toList, .start⟩ =
        .ok (tokens, Cursor.skip 38 ⟨"(data-x!=f('a, b)', $c), \"l\" . [1, 2])p".toList, .start⟩) ∧
      tokens.map Token.kind = [.attributeStart, .attr ⟨some "data-x", some "f('a, b)', $c)", false, true⟩,
        .attr ⟨none, some "\"l\" . [1, 2]", true, true⟩, .attributeEnd] := by
  have named : (ListEntry.named "data-x".toList ⟨"!=", false, true⟩ "f('a, b)', $c)".toList).Legible operators := by
    refine ⟨⟨by simp, List.all_eq_true.1 rfl⟩, by simp [operators], ?_, by simp, ?_⟩
    · exact ⟨by simp, rfl, ⟨_, rfl⟩, ⟨_, rfl⟩⟩
    · intro leaves
      cases leaves.begins
  have bare : (ListEntry.bare "\"l\" . [1, 2]".toList).Legible operators := by
    refine ⟨⟨by simp, rfl, ⟨_, rfl⟩, ⟨_, rfl⟩⟩, ?_, by decide⟩
    rintro ⟨_ | ⟨c, name⟩, _, _, _, shape, ⟨filled, names⟩, -⟩
    · exact filled rfl
    · obtain rfl : '"' = c := Option.some.inj (congrArg List.head? shape)
      cases names _ List.mem_cons_self
  exact written_entries_are_read ⟨"(data-x!=f('a, b)', $c), \"l\" . [1, 2])p".toList, .start⟩
    [.named "data-x".toList ⟨"!=", false, true⟩ "f('a, b)', $c)".toList, .bare "\"l\" . [1, 2]".toList] ['p']
    (List.forall_mem_cons.2 ⟨named, List.forall_mem_cons.2 ⟨bare, nofun⟩⟩) rfl

/-- An operator may also be written with its signs the other way round. With that one left out, a bare
value could begin as a named entry does. -/
theorem reversed_signs_are_read_as_operator :
    ¬ ∀ (cursor : Cursor) (entries : List ListEntry) (behind : List Char),
      (∀ entry ∈ entries, entry.Legible
        [⟨"=", true, true⟩, ⟨"!=", false, true⟩, ⟨"?=", true, false⟩, ⟨"?!=", false, false⟩]) →
      cursor.rest = listText entries ++ behind →
      ∃ tokens, lexAttributes cursor = .ok (tokens, cursor.skip (listText entries).length) ∧
        tokens.map Token.kind =
          .attributeStart :: entries.map (fun entry => .attr entry.entry) ++ [.attributeEnd] := by
  intro reads
  have noName : ¬ BeginsNamed
      [⟨"=", true, true⟩, ⟨"!=", false, true⟩, ⟨"?=", true, false⟩, ⟨"?!=", false, false⟩] "a!?=b".toList := by
    rintro ⟨name, spaces, operator, rest, shape, ⟨filled, names⟩, blank, known, -⟩
    rcases name with _ | ⟨c, _ | ⟨d, name⟩⟩
    · exact filled rfl
    · rcases spaces with _ | ⟨space, spaces⟩
      · simp only [List.mem_cons, List.not_mem_nil, or_false] at known
        rcases known with rfl | rfl | rfl | rfl <;> simp at shape
      · obtain rfl : '!' = space := Option.some.inj (congrArg (·[1]?) shape)
        cases blank _ List.mem_cons_self
    · obtain rfl : '!' = d := Option.some.inj (congrArg (·[1]?) shape)
      cases names _ (List.mem_cons_of_mem _ List.mem_cons_self)
  obtain ⟨tokens, read, kinds⟩ := reads ⟨"(a!?=b)".toList, .start⟩ [.bare "a!?=b".toList] []
    (List.forall_mem_cons.2 ⟨⟨⟨by simp, rfl, ⟨_, rfl⟩, ⟨_, rfl⟩⟩, noName, by decide⟩, nofun⟩) rfl
  have named : (ListEntry.named ['a'] ⟨"!?=", false, false⟩ ['b']).Legible operators := by
    refine ⟨⟨by simp, List.all_eq_true.1 rfl⟩, by simp [operators], ?_, by simp, ?_⟩
    · exact ⟨by simp, rfl, ⟨_, rfl⟩, ⟨_, rfl⟩⟩
    · intro leaves
      cases leaves.begins
  obtain ⟨others, readNamed, kindsNamed⟩ := @lexEntries_legible (Cursor.advance ⟨"(a!?=b)".toList, .start⟩) []
    (Cursor.position ⟨"(a!?=b)".toList, .start⟩) [] nofun [.named ['a'] ⟨"!?=", false, false⟩ ['b']]
    (List.forall_mem_cons.2 ⟨named, nofun⟩) rfl
  rw [lexAttributes, readNamed] at read
  cases read
  rw [List.map_cons, kindsNamed] at kinds
  cases kinds

end Token

end PugTemplate
