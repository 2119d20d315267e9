import PugTemplate.Proofs.Correspondence

/-!
# Reads of corresponding texts

What is read at corresponding cursors corresponds. This is shown for each kind of read, from names
and subjects to the header of a line, and then for the lines of a template.
-/

namespace PugTemplate

open Cursor Token Text List

namespace Correspondence

variable (pairs : Correspondence) {cursor cursor' : Cursor} (same : pairs.cursors cursor cursor')

section Names

include same

lemma readName (what) : pairs.Matches 0 (pairs.SameRead id) (readName cursor what) (readName cursor' what) := by
  obtain ⟨name, rest⟩ := pairs.readWhile same isNameChar rfl rfl
  unfold Token.readName
  dsimp only
  rw [name]
  split
  · exact pairs.fault rest rfl
  · exact .ok ⟨rfl, rest⟩

lemma readSubject (keyword) : pairs.Matches 0 (pairs.SameRead pairs.words.string) (readSubject cursor keyword)
      (readSubject cursor' keyword) := by
  have spaced := pairs.skipSpacing same
  refine (pairs.line _ spaced rfl rfl).bind ?_ ?_
  · intro read
    dsimp only
    split
    · exact .fault rfl _
    · exact .refl read.2
  · intro read read' paired
    dsimp only
    rw [paired.value, pairs.words.trim, pairs.words.isEmpty]
    split
    · exact pairs.fault spaced rfl
    · exact .ok ⟨(pairs.words.string_ofList _).symm, paired.rest⟩

lemma readPath : pairs.Matches 0 (pairs.SameRead id) (readPath cursor) (readPath cursor') := by
  have spaced := pairs.skipSpacing same
  obtain ⟨line, rest⟩ := pairs.readLine spaced
  unfold Token.readPath
  dsimp only
  rw [line]
  split
  all_goals
    split
    · exact pairs.fault spaced rfl
    · exact .ok ⟨rfl, rest⟩

lemma readBranchSubject : pairs.Matches 0 (pairs.SameRead pairs.words.text) (readBranchSubject cursor)
    (readBranchSubject cursor') := by
  induction cursor using remaining_induction generalizing cursor' with
  | step cursor ih =>
    rw [readBranchSubject_eq, readBranchSubject_eq]
    refine (pairs.line _ same rfl rfl).bind ?_ ?_
    · intro read
      split
      · split
        · exact (readBranchSubject_gives _).map fun more reaches =>
            (read.2.reaches_skip 2).trans reaches
        · exact .refl read.2
      · exact .refl read.2
    · intro read read' paired
      rw [pairs.startsWith paired.rest rfl]
      split
      · rename_i doubled
        have next : pairs.cursors (read.2.skip 2) (read'.2.skip 2) := pairs.skip_word paired.rest rfl doubled
        rw [if_congr (pairs.shorter same next) rfl rfl]
        split
        · rename_i shorter
          refine (ih _ shorter next).map (fun _ => rfl) ?_
          intro more more' others
          refine ⟨?_, others.rest⟩
          rw [paired.value, others.value, pairs.words.doubled]
        · exact .ok paired
      · exact .ok paired

end Names

section Lists

include same

lemma readBareValue : pairs.Matches 1 (pairs.SameRead pairs.words.text) (readBareValue cursor)
    (readBareValue cursor') := by
  refine (pairs.value same).bind (fun read => .refl read.2) ?_
  intro read read' paired
  refine .ok ⟨?_, paired.rest⟩
  rw [paired.value, pairs.words.trim]

lemma endsLiteral : endsLiteral cursor' = endsLiteral cursor := by
  rcases pairs.step same with ⟨ended, ended'⟩ | ⟨c, -, first, first', -⟩
  · have ends : ∀ {cursor : Cursor}, cursor.atLineEnd = true → Token.endsLiteral cursor := by
      intro cursor ended
      unfold Token.endsLiteral
      split
      · rfl
      · rename_i c first
        simp [(atLineEnd_iff cursor).1 ended c first]
    rw [ends ended, ends ended']
  · rw [Token.endsLiteral, Token.endsLiteral, first, first']

lemma readValue : pairs.Matches 1 (pairs.SameRead pairs.words.string) (readValue cursor)
    (readValue cursor') := by
  refine .of_counts fun counts => ?_
  have begun : pairs.Leaves 1 cursor := counts.leaves <|
    (readValue_gives cursor).imp fun read reaches => Nat.add_le_add_right reaches.remaining_le 1
  rw [readValue_eq, readValue_eq]
  refine (pairs.string same begun).bind_slack ?_ ?_
  · intro read success
    have string := ok_of_mapError success
    split
    · exact Nat.le_succ _
    · refine (readBareValue_gives cursor).with_result.bind fun bare given => ?_
      have covered := bare_value_covers string given.1
      split
      · exact .fault rfl _
      · exact Nat.le_succ_of_le covered
  · intro read read' success paired
    have string := ok_of_mapError success
    have literal : read'.1.isSome = read.1.isSome := by rw [paired.value, Option.isSome_map]
    rw [literal, pairs.endsLiteral (pairs.skipSpacing paired.rest)]
    split
    · refine .ok ⟨?_, paired.rest⟩
      rw [pairs.upTo same paired.rest (readString_reaches string), pairs.words.string_ofList]
    · refine (pairs.readBareValue same).bind ?_ ?_
      · intro bare
        split
        · exact .fault rfl _
        · exact .refl bare.2
      · intro bare bare' valued
        rw [valued.value, pairs.words.isEmpty]
        split
        · exact pairs.fault valued.rest rfl
        · exact .ok ⟨(pairs.words.string_ofList _).symm, valued.rest⟩

lemma attributeOperator : attributeOperator? cursor' = attributeOperator? cursor := by
  apply find?_congr
  intro operator mem
  have plain := operators_plain operator mem
  rw [pairs.startsWith same plain]
  cases starts : cursor.startsWith operator.text with
  | false => rfl
  | true => rw [bne, bne, pairs.peek_is (pairs.skip_word same plain starts) rfl]

lemma lexEntry : pairs.Matches 1 (pairs.Reads pairs.Tokens) (lexEntry cursor) (lexEntry cursor') := by
  obtain ⟨name, named⟩ := pairs.readWhile same isAttributeNameChar rfl rfl
  have spaced := pairs.skipSpacing named
  unfold Token.lexEntry
  dsimp only
  rw [name, pairs.attributeOperator spaced]
  split
  · rename_i operator found
    have known : attributeOperator? (cursor.readWhile isAttributeNameChar).2.skipSpacing = some operator := by
      split at found
      · cases found
      · exact found
    have starts := find?_some known
    rw [Bool.and_eq_true] at starts
    have operated := pairs.skip_word spaced (operators_plain operator (mem_of_find?_eq_some known)) starts.1
    refine .of_counts fun counts => ?_
    have begun : pairs.Leaves 1 (((cursor.readWhile isAttributeNameChar).2.skipSpacing.skip
        operator.text.length).readWhile isBlank).2 := counts.leaves <|
      (readValue_gives _).bind fun read reaches => Nat.add_le_add_right reaches.remaining_le 1
    refine (pairs.readValue (pairs.gap isBlank operated rfl begun)).bind (fun read => .refl read.2) ?_
    intro read read' paired
    refine .ok ⟨pairs.single same ?_, paired.rest⟩
    rw [paired.value]
    rfl
  · refine (pairs.readBareValue same).bind (fun read => .refl read.2) ?_
    intro read read' paired
    refine .ok ⟨?_, paired.rest⟩
    rw [paired.value, pairs.words.values, map_map, Pairing.Tokens, forall₂_map_left_iff,
      forall₂_map_right_iff, forall₂_same]
    intro value _
    refine ⟨?_, pairs.place same⟩
    simp only [Function.comp_apply, TokenKind.reword, Option.map_some, pairs.words.string_ofList]

lemma lexEntries {start'} (opened : pairs.positions start start') :
    pairs.Matches 0 (pairs.Reads pairs.Tokens) (lexEntries start cursor)
      (lexEntries start' cursor') := by
  induction cursor using remaining_induction generalizing cursor' with
  | step cursor ih =>
    refine .of_counts fun counts => ?_
    have passes : ∀ cursor, Gives (lexEntries start cursor) fun read =>
        read.2.remaining < (cursor.readWhile fun c => isBlank c || c == ',').2.remaining :=
      fun cursor => (lexEntries_gives start cursor).imp fun read given => given.2.2
    have entry := pairs.gap (fun c => isBlank c || c == ',') same rfl (counts.leaves (passes cursor))
    generalize begins : (cursor.readWhile fun c => isBlank c || c == ',').2 = first at entry
    generalize begins' : (cursor'.readWhile fun c => isBlank c || c == ',').2 = first' at entry
    rcases pairs.step entry with ⟨ended, ended'⟩ | ⟨c, inside, here, here', next⟩
    · have nothing : ∀ {cursor entry : Cursor}, entry.atLineEnd = true →
          (cursor.readWhile fun c => isBlank c || c == ',').2 = entry → entry.peek = none := by
        rintro cursor _ ended rfl
        cases here : (cursor.readWhile fun c => isBlank c || c == ',').2.peek with
        | none => rfl
        | some c =>
          have stopped := cursor.readWhile_stops here
          have isEnd := (atLineEnd_iff _).1 ended c here
          rcases isLineEnd_iff.1 isEnd with rfl | rfl
          · cases stopped
          · cases stopped
      unfold lexEntries
      dsimp only
      rw [begins, begins', nothing ended begins, nothing ended' begins']
      exact .fault rfl opened
    · by_cases closing : c = ')'
      · subst closing
        unfold lexEntries
        dsimp only
        rw [begins, begins', here, here']
        exact .ok ⟨pairs.single entry rfl, next⟩
      · rw [lexEntries_open begins here closing, lexEntries_open begins' here' closing]
        refine (pairs.lexEntry entry).bind_slack ?_ ?_
        · intro read success
          obtain ⟨-, shorter⟩ := lexEntry_shorter begins here closing success
          rw [if_pos shorter]
          refine (passes read.2).map fun more passed => ?_
          exact Nat.lt_of_lt_of_le passed (read.2.reaches_readWhile _).remaining_le
        · intro read read' _ paired
          rw [if_congr (pairs.shorter same paired.rest) rfl rfl]
          split
          · rename_i shorter
            refine (ih _ shorter paired.rest).map (fun _ => rfl) ?_
            intro more more' others
            exact ⟨rel_append paired.value others.value, others.rest⟩
          · exact .ok paired

lemma lexAttributes (opened : cursor.peek = some '(') :
    pairs.Matches 0 (pairs.Reads pairs.Tokens) (lexAttributes cursor)
      (lexAttributes cursor') := by
  have inside := pairs.advance same opened rfl
  refine (pairs.lexEntries inside (pairs.place same)).bind (fun read => .refl read.2) ?_
  intro read read' paired
  exact .ok ⟨.cons ⟨rfl, pairs.place same⟩ paired.value, paired.rest⟩

lemma optional_list :
    pairs.Matches 0 (pairs.Reads pairs.Tokens) (lexAttributes? cursor) (lexAttributes? cursor') := by
  unfold lexAttributes?
  rw [pairs.peek_is same rfl]
  split
  · rename_i opened
    exact pairs.lexAttributes same (beq_iff_eq.1 opened)
  · exact .ok ⟨.nil, same⟩

end Lists

section Statements

variable {start start' : Cursor} (begun : pairs.cursors start start')

include begun in
lemma statementOnly {line line' rest rest'}
    (reworded : line' = line.reword pairs.words.string) (behind : pairs.cursors rest rest') :
    pairs.Segments (statementOnly line start rest) (statementOnly line' start' rest') :=
  ⟨pairs.single begun (by rw [reworded]; rfl), behind, rfl⟩

include begun same

lemma lexDoctype : pairs.Matches 0 pairs.Segments (lexDoctype start cursor) (lexDoctype start' cursor') := by
  obtain ⟨line, rest⟩ := pairs.readLine (pairs.skipSpacing same)
  unfold Token.lexDoctype
  dsimp only
  rw [line]
  exact .ok (pairs.statementOnly begun rfl rest)

lemma lexBlockName (mode) : pairs.Matches 0 pairs.Segments (lexBlockName mode start cursor)
    (lexBlockName mode start' cursor') := by
  obtain ⟨line, rest⟩ := pairs.readLine (pairs.skipSpacing same)
  unfold Token.lexBlockName
  dsimp only
  rw [line]
  split
  · exact pairs.fault rest rfl
  · exact .ok (pairs.statementOnly begun rfl rest)

lemma lexBlock : pairs.Matches 0 pairs.Segments (Token.lexBlock start cursor) (Token.lexBlock start' cursor') := by
  have spaced := pairs.skipSpacing same
  unfold Token.lexBlock
  dsimp only
  have behindWord : ∀ {word : String}, word.toList.all (fun c => !isLineEnd c) = true →
      Token.atWord cursor.skipSpacing word none = true → pairs.cursors
        (cursor.skipSpacing.skip word.length) (cursor'.skipSpacing.skip word.length) :=
    fun plain stands => pairs.skip_word spaced plain (Bool.and_eq_true_iff.1 stands).1
  rw [pairs.atWord spaced (show "append".toList.all _ = true from rfl),
    pairs.atWord spaced (show "prepend".toList.all _ = true from rfl),
    pairs.atWord spaced (show "replace".toList.all _ = true from rfl)]
  cases appends : Token.atWord cursor.skipSpacing "append" none with
  | true => exact pairs.lexBlockName (behindWord rfl appends) begun (some .append)
  | false =>
    cases prepends : Token.atWord cursor.skipSpacing "prepend" none with
    | true => exact pairs.lexBlockName (behindWord rfl prepends) begun (some .prepend)
    | false =>
      cases replaces : Token.atWord cursor.skipSpacing "replace" none with
      | true => exact pairs.lexBlockName (behindWord rfl replaces) begun (some .replace)
      | false => exact pairs.lexBlockName spaced begun none

lemma subject (keyword) {line : String → Statement}
    (reworded : ∀ subject, line (pairs.words.string subject) = (line subject).reword pairs.words.string) :
    pairs.Matches 0 pairs.Segments (do
        let (subject, rest) ← Token.readSubject cursor keyword
        return Token.statementOnly (line subject) start rest)
      (do
        let (subject, rest) ← Token.readSubject cursor' keyword
        return Token.statementOnly (line subject) start' rest) := by
  refine (pairs.readSubject same keyword).bind (fun read => .refl read.2) ?_
  intro read read' paired
  refine .ok (pairs.statementOnly begun ?_ paired.rest)
  rw [paired.value, reworded]

lemma lexConditional (kind) : pairs.Matches 0 pairs.Segments (Token.lexConditional kind start cursor)
    (Token.lexConditional kind start' cursor') :=
  @subject pairs _ _ same _ _ begun (conditionWord kind)
    (fun subject => .conditional kind (some subject)) fun _ => rfl

lemma lexElse : pairs.Matches 0 pairs.Segments (lexElse start cursor) (lexElse start' cursor') := by
  have spaced := pairs.skipSpacing same
  unfold Token.lexElse
  dsimp only
  rw [pairs.atWord spaced rfl]
  split
  · rename_i found
    exact pairs.lexConditional (pairs.skip_word spaced rfl (Bool.and_eq_true_iff.1 found).1) begun .elseIf
  · exact .ok (pairs.statementOnly begun rfl spaced)

lemma lexBranch : pairs.Matches 0 pairs.Segments (lexBranch start cursor) (lexBranch start' cursor') := by
  refine (pairs.readBranchSubject (pairs.skipSpacing same)).bind ?_ ?_
  · intro read
    dsimp only
    split
    · exact .fault rfl _
    · exact .refl read.2
  · intro read read' paired
    dsimp only
    rw [paired.value, pairs.words.trim, pairs.words.isEmpty]
    split
    · exact pairs.fault paired.rest rfl
    · refine .ok ⟨pairs.single begun ?_, paired.rest, rfl⟩
      rw [← pairs.words.string_ofList]
      rfl

lemma lexEach : pairs.Matches 0 pairs.Segments (lexEach start cursor) (lexEach start' cursor') := by
  refine (pairs.readSubject same "each").bind ?_ ?_
  · intro read
    dsimp only
    split
    · exact .refl read.2
    · exact .fault rfl _
  · intro read read' paired
    dsimp only
    rw [paired.value, Wording.string, String.toList_ofList, pairs.words.loop]
    cases eachStatement? read.1.toList with
    | none => exact pairs.fault begun rfl
    | some line => exact .ok (pairs.statementOnly begun rfl paired.rest)

lemma lexExtends : pairs.Matches 0 pairs.Segments (lexExtends start cursor) (lexExtends start' cursor') := by
  refine (pairs.readPath same).bind (fun read => .refl read.2) ?_
  intro read read' paired
  refine .ok (pairs.statementOnly begun ?_ paired.rest)
  rw [paired.value]
  rfl

lemma lexInclude : pairs.Matches 0 pairs.Segments (lexInclude start cursor) (lexInclude start' cursor') := by
  unfold Token.lexInclude consume?
  rw [pairs.startsWith same rfl]
  cases colon : cursor.startsWith ":" with
  | true =>
    refine (pairs.readName (pairs.skip_word same rfl colon) "filter name").bind ?_ ?_
    · exact fun filter => (readPath_gives filter.2).bind fun read reaches => reaches
    · intro filter filter' named
      refine (pairs.readPath named.rest).bind (fun read => .refl read.2) ?_
      intro read read' paired
      refine .ok (pairs.statementOnly begun ?_ paired.rest)
      rw [paired.value, named.value]
      rfl
  | false =>
    refine (pairs.readPath same).bind (fun read => .refl read.2) ?_
    intro read read' paired
    refine .ok (pairs.statementOnly begun ?_ paired.rest)
    rw [paired.value]
    rfl

lemma lexMixin : pairs.Matches 0 pairs.Segments (lexMixin start cursor) (lexMixin start' cursor') := by
  refine (pairs.readName (pairs.skipSpacing same) "mixin name").bind ?_ ?_
  · exact fun name => (optional_list_gives name.2).bind fun read given => given.2.reaches
  · intro name name' named
    refine (pairs.optional_list named.rest).bind (fun read => .refl read.2) ?_
    intro read read' paired
    refine .ok ⟨.cons ⟨?_, pairs.place begun⟩ paired.value, paired.rest, rfl⟩
    rw [named.value]
    rfl

lemma lexText : pairs.Matches 0 pairs.Segments (lexText start cursor) (lexText start' cursor') := by
  obtain ⟨line, rest⟩ := pairs.readLine same
  unfold Token.lexText
  dsimp only
  rw [line]
  exact .ok ⟨pairs.single begun rfl, rest, rfl⟩

lemma lexKeyword (keyword) : pairs.Matches 0 pairs.Segments (Token.lexKeyword keyword start cursor)
    (Token.lexKeyword keyword start' cursor') := by
  cases keyword with
  | doctype => exact pairs.lexDoctype same begun
  | extending => exact pairs.lexExtends same begun
  | including => exact pairs.lexInclude same begun
  | block => exact pairs.lexBlock same begun
  | append => exact pairs.lexBlockName same begun (some .append)
  | prepend => exact pairs.lexBlockName same begun (some .prepend)
  | ifTrue => exact pairs.lexConditional same begun .ifTrue
  | ifFalse => exact pairs.lexConditional same begun .ifFalse
  | elseIf => exact pairs.lexConditional same begun .elseIf
  | otherwise => exact pairs.lexElse same begun
  | caseOf => exact pairs.subject same begun "case" fun _ => rfl
  | branch => exact pairs.lexBranch same begun
  | fallback => exact .ok ⟨pairs.single begun rfl, same, rfl⟩
  | each => exact pairs.lexEach same begun
  | whileLoop => exact pairs.subject same begun "while" fun _ => rfl
  | doLoop => exact .ok (pairs.statementOnly begun rfl same)
  | forLoop => exact pairs.subject same begun "for" fun _ => rfl
  | mixin => exact pairs.lexMixin same begun

end Statements

section Tags

include same

lemma lexEcho : pairs.Matches 0 (pairs.Reads pairs.Tokens) (lexEcho cursor) (lexEcho cursor') := by
  have found' : (operators.find? fun operator => cursor'.startsWith operator.text) =
      operators.find? fun operator => cursor.startsWith operator.text :=
    find?_congr fun operator mem => pairs.startsWith same (operators_plain operator mem)
  unfold Token.lexEcho
  rw [found']
  split
  · exact pairs.fault same rfl
  · rename_i operator found
    have starts := find?_some found
    have next := pairs.skip_word same (operators_plain operator (mem_of_find?_eq_some found)) starts
    refine (pairs.readSubject next "expression").bind (fun read => .refl read.2) ?_
    intro read read' paired
    refine .ok ⟨pairs.single same ?_, paired.rest⟩
    rw [paired.value]
    rfl

lemma lexTagPart : pairs.Matches 0 (pairs.Reads pairs.Tokens)
    ((lexTagPart cursor).map fun part => part.getD ([], cursor))
    ((lexTagPart cursor').map fun part => part.getD ([], cursor')) := by
  rcases pairs.step same with ⟨ended, ended'⟩ | ⟨c, inside, here, here', next⟩
  · rw [lexTagPart_ended ended, lexTagPart_ended ended']
    exact .ok ⟨.nil, same⟩
  · have follows := pairs.peek_any next (show isNameChar '\n' = false from rfl) rfl
    obtain ⟨name, named⟩ := pairs.readWhile next isNameChar rfl rfl
    unfold Token.lexTagPart
    dsimp only
    rw [here, here', follows, name]
    -- a shorthand, a list, an assignment or no part
    split
    iterate 2
      · split
        · exact .ok ⟨pairs.single same rfl, named⟩
        · exact .ok ⟨.nil, same⟩
    · rename_i isList
      rw [isList] at here
      have whole : ∀ (list : Lexed) (cursor : Cursor),
          (list.map some).map (fun part => part.getD ([], cursor)) = list := by
        intro list cursor
        cases list <;> rfl
      rw [whole, whole]
      exact pairs.lexAttributes same here
    · rw [map_bind, map_bind]
      refine (pairs.readName next "assignment name").bind ?_ ?_
      · intro read
        split
        · exact .fault rfl _
        · rw [map_bind]
          exact (lexAttributes_gives read.2).bind fun list given => given.2.1.reaches
      · intro read read' paired
        rw [bne, bne, pairs.peek_is paired.rest rfl]
        split
        · exact pairs.fault paired.rest rfl
        · rename_i opened
          rw [map_bind, map_bind]
          refine (pairs.lexAttributes paired.rest (by simpa using opened)).bind (fun list => .refl list.2) ?_
          intro list list' listed
          refine .ok ⟨.cons ⟨?_, pairs.place same⟩ listed.value, listed.rest⟩
          rw [paired.value]
          rfl
    · exact .ok ⟨.nil, same⟩

lemma lexTagParts : pairs.Matches 0 (pairs.Reads pairs.Tokens) (lexTagParts cursor)
    (lexTagParts cursor') := by
  induction cursor using remaining_induction generalizing cursor' with
  | step cursor ih =>
    rw [lexTagParts_eq, lexTagParts_eq]
    refine (pairs.lexTagPart same).bind ?_ ?_
    · intro read
      split
      · exact (lexTagParts_gives read.2).map fun more given => given.2.reaches
      · exact .refl read.2
    · intro read read' paired
      rw [if_congr (pairs.shorter same paired.rest) rfl rfl]
      split
      · rename_i shorter
        refine (ih _ shorter paired.rest).map (fun _ => rfl) ?_
        intro more more' others
        exact ⟨rel_append paired.value others.value, others.rest⟩
      · exact .ok paired

lemma lexTagContent (noBlock : cursor.peek ≠ some '.') :
    pairs.Matches 0 pairs.Segments (lexTagContent 0 cursor) (lexTagContent 0 cursor') := by
  rcases pairs.step same with ⟨ended, ended'⟩ | ⟨c, inside, here, here', next⟩
  · rw [lexTagContent_ended ended, lexTagContent_ended ended']
    exact .ok ⟨.nil, same, rfl⟩
  · unfold Token.lexTagContent
    have going : ¬ isLineEnd c := Bool.eq_false_iff.1 inside
    rw [here, here']
    dsimp only
    rw [if_neg going]
    split
    · exact .ok ⟨pairs.single same rfl, next, rfl⟩
    split
    · rename_i isDot
      rw [beq_iff_eq.1 isDot] at here
      exact absurd here noBlock
    split
    · exact .ok ⟨.nil, same, rfl⟩
    split
    · exact (pairs.lexEcho same).map (fun _ => rfl) fun read read' paired =>
        ⟨paired.value, paired.rest, rfl⟩
    split
    · have spaced := pairs.skipSpacing same
      obtain ⟨line, rest⟩ := pairs.readLine spaced
      rw [line]
      split
      · exact .ok ⟨.nil, rest, rfl⟩
      · exact .ok ⟨pairs.single spaced rfl, rest, rfl⟩
    · exact pairs.fault same rfl

omit same in
lemma ofSegment {segment segment'}
    (matched : pairs.Matches 0 pairs.Segments segment segment') :
    pairs.Matches 0 pairs.Headers (segment.map Header.ofSegment) (segment'.map Header.ofSegment) := by
  refine matched.map (fun _ => rfl) fun read read' paired => ⟨paired.tokens, ?_, paired.rest⟩
  unfold Header.ofSegment
  rw [paired.expands]
  split
  · exact .chain
  · exact .nothing

lemma headTagContent : pairs.Matches 0 pairs.Headers (headTagContent cursor) (headTagContent cursor') := by
  unfold Token.headTagContent
  rw [pairs.peek_is same rfl]
  split
  · rename_i dot
    have ended := pairs.skipSpacing (pairs.advance same (beq_iff_eq.1 dot) rfl)
    unfold headTextBlock
    dsimp only
    rw [pairs.atLineEnd ended]
    split
    · exact .ok ⟨.nil, .block .text (pairs.place same), ended⟩
    · exact pairs.fault ended rfl
  · rename_i noDot
    exact pairs.ofSegment (pairs.lexTagContent same (by simpa using noDot))

lemma headTagTail {head head'} (named : pairs.Token head head') :
    pairs.Matches 0 pairs.Headers (headTagTail head cursor) (headTagTail head' cursor') := by
  refine (pairs.lexTagParts same).bind ?_ ?_
  · exact fun parts => (headTagContent_gives parts.2).bind fun content reaches => reaches
  · intro parts parts' paired
    refine (pairs.headTagContent paired.rest).bind (fun content => .refl content.rest) ?_
    intro content content' filled
    exact .ok ⟨.cons named (rel_append paired.value filled.tokens), filled.tail, filled.rest⟩

end Tags

section Headers

variable (next : pairs.cursors cursor.advance cursor'.advance)

include same

lemma headComment (opens : cursor.startsWith "//") : pairs.Headers (headComment cursor) (headComment cursor') := by
  have opened : pairs.cursors (cursor.skip 2) (cursor'.skip 2) := pairs.skip_word same rfl opens
  unfold Token.headComment consume?
  dsimp only
  rw [pairs.startsWith opened rfl]
  cases hidden : (cursor.skip 2).startsWith "-" with
  | true =>
    obtain ⟨line, lineEnd⟩ := pairs.readLine (pairs.skip_word opened rfl hidden)
    simp only [if_true]
    rw [line]
    exact ⟨.nil, .block _ (pairs.place same), lineEnd⟩
  | false =>
    obtain ⟨line, lineEnd⟩ := pairs.readLine opened
    simp only [Bool.false_eq_true, if_false]
    rw [line]
    exact ⟨.nil, .block _ (pairs.place same), lineEnd⟩

include next

lemma headFilter : pairs.Matches 0 pairs.Headers (headFilter cursor) (headFilter cursor') := by
  have toEnd : ∀ rest : Cursor, Reaches rest rest.skipSpacing.readLine.2 := fun rest =>
    rest.reaches_skipSpacing.trans (reaches_readLine _)
  refine (pairs.readName next "filter name").bind ?_ ?_
  · exact fun name => (optional_list_gives name.2).bind fun read given => given.2.reaches.trans (toEnd read.2)
  · intro name name' named
    refine (pairs.optional_list named.rest).bind (fun read => toEnd read.2) ?_
    intro options options' listed
    have textStart := pairs.skipSpacing listed.rest
    obtain ⟨line, lineEnd⟩ := pairs.readLine textStart
    dsimp only
    rw [line, named.value]
    exact .ok ⟨.cons ⟨rfl, pairs.place same⟩ listed.value, .block _ (pairs.place textStart), lineEnd⟩

lemma headCode : pairs.Matches 0 pairs.Headers (headCode cursor) (headCode cursor') := by
  have body : pairs.Matches 0 pairs.Headers (.ok (headCode.body cursor)) (.ok (headCode.body cursor')) := by
    obtain ⟨line, lineEnd⟩ := pairs.readLine (pairs.skipSpacing next)
    unfold headCode.body
    dsimp only
    rw [line]
    split
    · exact .ok ⟨.nil, .block .code (pairs.place same), lineEnd⟩
    · exact .ok ⟨pairs.single same rfl, .nothing, lineEnd⟩
  rcases pairs.step next with ⟨ended, ended'⟩ | ⟨c, -, here, here', -⟩
  · rw [headCode_ended_line ended, headCode_ended_line ended']
    exact body
  · unfold Token.headCode
    rw [here, here']
    dsimp only
    split
    · exact body
    · exact pairs.fault same rfl

lemma lexBinding : pairs.Matches 0 pairs.Segments (lexBinding cursor) (lexBinding cursor') := by
  obtain ⟨name, named⟩ := pairs.readWhile next isIdentifierChar rfl rfl
  have spaced := pairs.skipSpacing named
  unfold Token.lexBinding
  dsimp only
  rw [name, pairs.startsWith spaced (show "=".toList.all _ = true from rfl),
    pairs.startsWith spaced (show "==".toList.all _ = true from rfl)]
  split
  · exact pairs.fault same rfl
  · rename_i assigned
    have equals : (cursor.advance.readWhile isIdentifierChar).2.skipSpacing.startsWith "=" = true := by
      simp only [Bool.or_eq_true, Bool.not_eq_true', not_or, Bool.not_eq_false] at assigned
      exact assigned.1.2
    exact pairs.subject (pairs.skip_word spaced rfl equals) same "assignment" fun _ => rfl

omit next in
lemma headSegment (going : cursor.atLineEnd = false) :
    pairs.Matches 0 pairs.Headers (headSegment cursor) (headSegment cursor') := by
  rcases pairs.step same with ⟨ended, -⟩ | ⟨first, -, here, here', next⟩
  · rw [going] at ended
    cases ended
  · unfold Token.headSegment Token.lexSegment
    rw [here, here']
    dsimp only
    rw [pairs.opening same]
    cases opens : Token.opening cursor first with
    | comment => exact .ok (pairs.headComment same (opening_comment opens))
    | filter => exact pairs.headFilter same next
    | code => exact pairs.headCode same next
    | call =>
      refine (pairs.readName next "mixin name").bind (fun name => headTagTail_gives _ name.2) ?_
      intro name name' named
      refine pairs.headTagTail named.rest ⟨?_, pairs.place same⟩
      rw [named.value]
      rfl
    | shorthand => exact pairs.headTagTail same ⟨rfl, pairs.place same⟩
    | word =>
      dsimp only
      rcases pairs.keyword same with ⟨none, none'⟩ | ⟨keyword, rest, rest', found, found', further⟩
      · obtain ⟨name, behind⟩ := pairs.tagName same
        rw [none, none']
        refine pairs.headTagTail behind ⟨?_, pairs.place same⟩
        dsimp only
        rw [name]
        rfl
      · rw [found, found']
        exact pairs.ofSegment (pairs.lexKeyword further same keyword)
    | doctype =>
      exact pairs.ofSegment (pairs.lexDoctype (pairs.skip_word same rfl (opening_doctype opens)) same)
    | pipe =>
      dsimp only
      rw [pairs.peek_is next rfl]
      split
      · rename_i spaced
        exact pairs.ofSegment (pairs.lexText (pairs.advance next (beq_iff_eq.1 spaced) rfl) same)
      · exact pairs.ofSegment (pairs.lexText next same)
    | text => exact pairs.ofSegment (pairs.lexText same same)
    | echo =>
      refine pairs.ofSegment ((pairs.lexEcho same).map (fun _ => rfl) fun read read' paired => ?_)
      exact ⟨paired.value, paired.rest, rfl⟩
    | binding => exact pairs.ofSegment (pairs.lexBinding same next)
    | unknown found => exact pairs.ofSegment (pairs.fault same rfl)

omit next in
lemma headSegments (going : cursor.atLineEnd = false) :
    pairs.Matches 0 pairs.Headers (headSegments cursor) (headSegments cursor') := by
  induction cursor using remaining_induction generalizing cursor' with
  | step cursor ih =>
    rw [headSegments_step, headSegments_step]
    refine (pairs.headSegment same going).bind ?_ ?_
    · intro header
      have next := header.rest.reaches_advance.trans (reaches_skipSpacing _)
      split
      · split
        · exact next
        · rename_i continues
          split
          · exact (headSegments_gives (Bool.eq_false_iff.2 continues)).map fun more reaches =>
              next.trans reaches
          · exact next
      · exact .refl header.rest
    · intro header header' paired
      have chained : (header'.tail == .chain) = (header.tail == .chain) := paired.tail.chain_eq
      rw [chained, pairs.peek_is paired.rest rfl]
      split
      · rename_i expands
        have colon : header.rest.peek = some ':' := beq_iff_eq.1 (Bool.and_eq_true_iff.1 expands).2
        have next := pairs.skipSpacing (pairs.advance paired.rest colon rfl)
        rw [pairs.atLineEnd next]
        split
        · exact .ok ⟨paired.tokens, .nothing, next⟩
        · rename_i continues
          rw [if_congr (pairs.shorter same next) rfl rfl]
          split
          · rename_i shorter
            refine (ih _ shorter next (Bool.eq_false_iff.2 continues)).map (fun _ => rfl) ?_
            intro more more' others
            refine ⟨rel_append paired.tokens ?_, others.tail, others.rest⟩
            exact .cons ⟨rfl, pairs.place paired.rest⟩ others.tokens
          · exact .ok ⟨paired.tokens, .nothing, next⟩
      · exact .ok paired

end Headers

/-- Texts that correspond from line to line: no read is left out, and blocks are the same. -/
structure Whole : Prop where
  bound : pairs.bound = none
  atEnd : ∀ {cursor cursor'}, pairs.cursors cursor cursor' → cursor'.atEnd = cursor.atEnd
  skipBlankLines : ∀ {cursor cursor'}, pairs.cursors cursor cursor' →
    pairs.cursors (skipBlankLines cursor) (skipBlankLines cursor')
  skipLineEnd : ∀ {cursor cursor'}, pairs.cursors cursor cursor' →
    pairs.cursors cursor.skipLineEnd cursor'.skipLineEnd
  readBlock : ∀ {cursor cursor'} (width : Nat), pairs.cursors cursor cursor' →
    cursor.atLineEnd → (readBlock width cursor').1 = (readBlock width cursor).1 ∧
      pairs.cursors (readBlock width cursor).2 (readBlock width cursor').2

/-- Streams whose tokens belong together, and whose faults do, if there are any. -/
structure Streams (stream stream' : Stream) : Prop where
  tokens : pairs.Tokens stream.tokens stream'.tokens
  failure : Option.Rel pairs.Faults stream.failure stream'.failure

variable {pairs}

lemma placed {kinds : List TokenKind} {pos position'}
    (kept : ∀ kind ∈ kinds, kind.reword pairs.words.string = kind)
    (place : pairs.positions pos position') :
    pairs.Tokens (kinds.map (⟨·, pos⟩)) (kinds.map (⟨·, position'⟩)) := by
  rw [Pairing.Tokens, forall₂_map_left_iff, forall₂_map_right_iff, forall₂_same]
  exact fun kind mem => ⟨(kept kind mem).symm, place⟩

lemma located {α : Type} (result : Except Cause α) {pos position'}
    (place : pairs.positions pos position') :
    Concurs pairs.Faults (fun value value' => value' = value ∧ result = .ok value)
      (result.mapError (Cause.diagnose · pos)) (result.mapError (Cause.diagnose · position')) := by
  cases result with
  | error cause => exact .error ⟨rfl, place⟩
  | ok value => exact .ok ⟨rfl, rfl⟩

section Lines

variable (whole : pairs.Whole)

include whole

lemma Whole.concurs {α : Type} [Ends α] {slack values}
    {ok result' : Except Diagnostic α} (matched : pairs.Matches slack values ok result') :
    Concurs pairs.Faults values ok result' := by
  apply matched
  intro least bounded
  rw [whole.bound] at bounded
  cases bounded

lemma Whole.fill {header'} (paired : pairs.Headers header header') (ended : header.Ended)
    (width) : pairs.Segments (header.fill width) (header'.fill width) := by
  obtain ⟨tokens, tail, rest⟩ := header
  obtain ⟨tokens', tail', rest'⟩ := header'
  obtain ⟨listed, tails, further⟩ := paired
  cases tails with
  | chain | nothing => exact ⟨listed, further, rfl⟩
  | block raw place =>
    obtain ⟨block, behind⟩ := whole.readBlock width further (ended (by simp [Tail.raw?]))
    refine ⟨?_, behind, rfl⟩
    simp only [Header.fill, block]
    exact rel_append listed (placed (Raw.kinds_reword _ raw _) place)

include same

lemma Whole.lexSegments (going : cursor.atLineEnd = false) (width) :
    Concurs pairs.Faults (pairs.Reads pairs.Tokens) (lexSegments width cursor)
      (lexSegments width cursor') := by
  have headed := whole.concurs (pairs.headSegments same going)
  rw [lexSegments_eq, lexSegments_eq]
  generalize read : Token.headSegments cursor = result at headed ⊢
  generalize Token.headSegments cursor' = result' at headed ⊢
  cases headed with
  | error sameFault => exact .error sameFault
  | ok paired =>
    have filled := whole.fill paired (headSegments_ended read) width
    exact .ok ⟨filled.tokens, filled.rest⟩

lemma Whole.lexLineEnd :
    Concurs pairs.Faults (pairs.Reads pairs.Tokens) (lexLineEnd cursor) (lexLineEnd cursor') := by
  have rest := pairs.skipSpacing same
  unfold Token.lexLineEnd
  dsimp only
  rw [pairs.atLineEnd rest]
  split
  · exact .ok ⟨pairs.single rest rfl, whole.skipLineEnd rest⟩
  · exact .error ⟨rfl, pairs.place rest⟩

lemma Whole.lexLine (indentation) (written : Written cursor.rest) : Concurs pairs.Faults
    (fun line line' => pairs.Tokens line.1 line'.1 ∧ line'.2.1 = line.2.1 ∧
      pairs.cursors line.2.2 line'.2.2) (lexLine indentation cursor) (lexLine indentation cursor') := by
  obtain ⟨spacing, content⟩ := pairs.readWhile same isSpacing rfl rfl
  have place := pairs.place same
  unfold Token.lexLine
  dsimp only
  rw [spacing]
  apply (located _ place).bind
  rintro measured _ ⟨rfl, -⟩
  apply (located _ place).bind
  rintro moved _ ⟨rfl, ok⟩
  apply (whole.lexSegments content written.content _).bind
  intro read read' paired
  apply (whole.lexLineEnd paired.rest).bind
  intro last last' ended
  have levels := placed ((moveTo_moves ok).kinds_reword pairs.words.string) place
  exact .ok ⟨rel_append (rel_append levels paired.value) ended.value, rfl, ended.rest⟩

lemma Whole.lexLines (indentation) :
    pairs.Streams (lexLines indentation cursor) (lexLines indentation cursor') := by
  induction cursor using remaining_induction generalizing indentation cursor' with
  | step cursor ih =>
    have line := whole.skipBlankLines same
    unfold lexLines
    dsimp only
    rw [whole.atEnd line]
    split
    · have levels := @placed pairs (indentation.levels.map fun _ => .outdent) _ _
        (by simp [TokenKind.reword]) (pairs.place line)
      rw [map_map, map_map] at levels
      exact ⟨levels, .none⟩
    · rename_i going
      have read := whole.lexLine line indentation (skipBlankLines_written (Bool.eq_false_iff.2 going))
      generalize Token.lexLine indentation (Token.skipBlankLines cursor) = result at read ⊢
      generalize Token.lexLine indentation (Token.skipBlankLines cursor') = result' at read ⊢
      cases read with
      | error sameFault => exact ⟨.nil, .some sameFault⟩
      | @ok read read' paired =>
        obtain ⟨tokens, levels, rest⟩ := paired
        dsimp only
        rw [if_congr (pairs.shorter same rest) rfl rfl, levels]
        split
        · rename_i shorter
          have later := ih _ shorter rest read.2.1
          exact ⟨rel_append tokens later.tokens, later.failure⟩
        · exact ⟨tokens, .none⟩

end Lines

end Correspondence

end PugTemplate
