import Mathlib.Data.List.Find
import Mathlib.Data.List.Forall2
import PugTemplate.Proofs.Headers

/-!
# Corresponding texts

Two texts may correspond in such a way that what is read in the one has its counterpart in the other. A
correspondence says which cursors belong together and what becomes of the texts inside tokens. It
answers for the reads that may run over line ends; all other reads are made of these and of steps
within a line.

A correspondence may be limited to reads that leave enough of the text, with nothing said about others.
-/

namespace PugTemplate

open Text List

/-- Two computations that succeed together or fail together, with results that correspond. -/
inductive Concurs {ε α : Type} (faults : ε → ε → Prop) (values : α → α → Prop) :
    Except ε α → Except ε α → Prop
  | ok (same : values value value') : Concurs faults values (.ok value) (.ok value')
  | error {failure failure'} (same : faults failure failure') :
      Concurs faults values (.error failure) (.error failure')

variable {α : Type} {cursor rest : Cursor} {text breaks : List Char}

lemma Concurs.bind {ε β : Type} {faults values later first first'} {next next' : α → Except ε β}
    (concurs : Concurs faults values first first')
    (step : ∀ value value', values value value' → Concurs faults later (next value) (next' value')) :
    Concurs faults later (first >>= next) (first' >>= next') := by
  cases concurs with
  | ok same => exact step _ _ same
  | error same => exact .error same

def Statement.reword (change : String → String) : Statement → Statement
  | .binding name value => .binding name (change value)
  | .conditional kind subject => .conditional kind (subject.map change)
  | .caseOf subject => .caseOf (change subject)
  | .branch subject => .branch (subject.map change)
  | .each item key subject => .each item key (change subject)
  | .whileLoop subject => .whileLoop (change subject)
  | .forLoop subject => .forLoop (change subject)
  | line => line

def TokenKind.reword (change : String → String) : TokenKind → TokenKind
  | .attr entry => .attr { entry with value := entry.value.map change }
  | .expression echo => .expression { echo with value := change echo.value }
  | .statement line => .statement (line.reword change)
  | kind => kind

lemma Statement.reword_same (same : ∀ value, change value = value)
    (line : Statement) : line.reword change = line := by
  obtain rfl : change = id := funext same
  cases line <;> simp [reword]

lemma TokenKind.reword_same (same : ∀ value, change value = value)
    (kind : TokenKind) : kind.reword change = kind := by
  cases kind with
  | statement line => exact congrArg TokenKind.statement (line.reword_same same)
  | _ =>
    obtain rfl : change = id := funext same
    simp [reword]

open Cursor Token

/-- What becomes of the texts that may run over line ends. -/
structure Wording where
  text : List Char → List Char
  isEmpty : ∀ content, (text content).isEmpty = content.isEmpty
  trim : ∀ content, Text.trim (text content) = text (Text.trim content)
  doubled : ∀ front back, text (front ++ ':' :: ':' :: back) = text front ++ ':' :: ':' :: text back
  values : ∀ content, bareValues (text content) = (bareValues content).map text
  loop : ∀ subject, eachStatement? (text subject) = (eachStatement? subject).map
    (Statement.reword fun value => String.ofList (text value.toList))

def Wording.string (words : Wording) (value : String) : String :=
  String.ofList (words.text value.toList)

lemma Wording.string_ofList (words : Wording) (content) :
    words.string (String.ofList content) = String.ofList (words.text content) := by
  rw [Wording.string, String.toList_ofList]

def Wording.same : Wording where
  text := id
  isEmpty := fun _ => rfl
  trim := fun _ => rfl
  doubled := fun _ _ => rfl
  values := fun content => (map_id _).symm
  loop := fun subject => by
    have kept : (Statement.reword fun value => String.ofList (id value.toList)) = id := by
      funext line
      exact line.reword_same fun value => String.ofList_toList
    rw [kept, Option.map_id]
    rfl

/-- The places of two texts that belong together. -/
structure Pairing where
  words : Wording
  cursors : Cursor → Cursor → Prop
  positions : Position → Position → Prop
  /-- The number of characters that a read has to leave. If there is none, faults correspond too. -/
  bound : Option Nat

/-- Results of reading, which end somewhere. -/
class Ends (α : Type) where
  rest : α → Cursor

instance {α : Type} : Ends (α × Cursor) := ⟨Prod.snd⟩

instance : Ends Segment := ⟨Segment.rest⟩

instance : Ends Header := ⟨Header.rest⟩

namespace Pairing

variable (pairing : Pairing)

/-- Diagnostics of the same kind at places that belong together. -/
structure Faults (diagnostic diagnostic' : Diagnostic) : Prop where
  kind : diagnostic'.kind = diagnostic.kind
  position : pairing.positions diagnostic.position diagnostic'.position

structure Token (token token' : PugTemplate.Token) : Prop where
  kind : token'.kind = token.kind.reword pairing.words.string
  position : pairing.positions token.position token'.position

abbrev Tokens : List PugTemplate.Token → List PugTemplate.Token → Prop :=
  List.Forall₂ pairing.Token

/-- What is read, and where reading ends. -/
structure Reads {α : Type} (values : α → α → Prop) (read read' : α × Cursor) : Prop where
  value : values read.1 read'.1
  rest : pairing.cursors read.2 read'.2

abbrev SameRead {α : Type} (change : α → α) : α × Cursor → α × Cursor → Prop :=
  pairing.Reads fun value value' => value' = change value

structure Segments (segment segment' : Segment) : Prop where
  tokens : pairing.Tokens segment.tokens segment'.tokens
  rest : pairing.cursors segment.rest segment'.rest
  expands : segment'.expands = segment.expands

inductive Tails : Tail → Tail → Prop
  | chain : Tails .chain .chain
  | nothing : Tails .nothing .nothing
  | block (raw : Raw) {position position'}
      (place : pairing.positions position position') : Tails (.block raw position) (.block raw position')

lemma Tails.chain_eq {pairing : Pairing} {tail tail'} (same : pairing.Tails tail tail') :
    (tail' == .chain) = (tail == .chain) := by
  cases same <;> rfl

structure Headers (header header' : Header) : Prop where
  tokens : pairing.Tokens header.tokens header'.tokens
  tail : pairing.Tails header.tail header'.tail
  rest : pairing.cursors header.rest header'.rest

/-- Enough of the text is left, and `slack` characters more. -/
def Leaves (slack : Nat) (cursor : Cursor) : Prop :=
  ∀ least ∈ pairing.bound, least + slack ≤ cursor.remaining

/-- A result about which something is said. -/
def Counts {α : Type} [Ends α] (slack : Nat) (result : Except Diagnostic α) : Prop :=
  ∀ least ∈ pairing.bound, ∃ value, result = .ok value ∧ least + slack ≤ (Ends.rest value).remaining

/-- Results that correspond, if anything is said about the first. -/
def Matches {α : Type} [Ends α] (slack : Nat) (values : α → α → Prop)
    (result result' : Except Diagnostic α) : Prop :=
  pairing.Counts slack result → Concurs pairing.Faults values result result'

end Pairing

lemma Pairing.Counts.leaves {pairing : Pairing} [Ends α] {slack slack'}
    {ok : Except Diagnostic α} (counts : pairing.Counts slack ok) (further : Gives ok fun value =>
      (Ends.rest value).remaining + slack' ≤ cursor.remaining + slack) : pairing.Leaves slack' cursor := by
  intro least bounded
  obtain ⟨value, success, inside⟩ := counts least bounded
  have room := further.of_ok success
  omega

namespace Pairing.Matches

variable {pairing : Pairing} {β : Type} [Ends α] [Ends β] {slack slack' : Nat} {values : α → α → Prop}
  {later : β → β → Prop} {first first' : Except Diagnostic α}

lemma ok {value value'} (same : values value value') : pairing.Matches slack values (.ok value) (.ok value') :=
  fun _ => .ok same

lemma fault {cause cause' : Cause} {pos position'}
    (kind : cause'.kind = cause.kind) (place : pairing.positions pos position') :
    pairing.Matches slack values (.error (cause.diagnose pos)) (.error (cause'.diagnose position')) :=
  fun _ => .error ⟨kind, place⟩

lemma of_counts (matched : pairing.Counts slack first → pairing.Matches slack values first first') :
    pairing.Matches slack values first first' :=
  fun counts => matched counts counts

variable (matched : pairing.Matches slack values first first')

include matched

lemma bind_slack {next next'}
    (further : ∀ value, first = .ok value → Gives (next value) fun result =>
      (Ends.rest result).remaining + slack ≤ (Ends.rest value).remaining + slack')
    (step : ∀ value value', first = .ok value → values value value' →
      pairing.Matches slack' later (next value) (next' value')) :
    pairing.Matches slack' later (first >>= next) (first' >>= next') := by
  intro counts
  have early : pairing.Counts slack first := by
    intro least bounded
    obtain ⟨result, success, inside⟩ := counts least bounded
    obtain ⟨value, read, nextRead⟩ := ok_of_bind success
    have room := (further value read).of_ok nextRead
    exact ⟨value, read, by omega⟩
  cases matched early with
  | ok same => exact step _ _ rfl same counts
  | error same => exact .error same

lemma bind {next next'}
    (further : ∀ value, Gives (next value) fun ok => Reaches (Ends.rest value) (Ends.rest ok))
    (step : ∀ value value', values value value' → pairing.Matches slack later (next value) (next' value')) :
    pairing.Matches slack later (first >>= next) (first' >>= next') := by
  refine matched.bind_slack ?_ fun value value' _ => step value value'
  intro value _
  refine (further value).imp fun ok reaches => ?_
  exact Nat.add_le_add_right reaches.remaining_le slack

lemma map {change change'} (ends : ∀ value, Ends.rest (change value) = Ends.rest value)
    (step : ∀ value value', values value value' → later (change value) (change' value')) :
    pairing.Matches slack later (first.map change) (first'.map change') := by
  intro counts
  have early : pairing.Counts slack first := by
    intro least bounded
    obtain ⟨result, success, inside⟩ := counts least bounded
    obtain ⟨value, read, rfl⟩ := ok_of_map success
    rw [ends] at inside
    exact ⟨value, read, inside⟩
  cases matched early with
  | ok same => exact .ok (step _ _ same)
  | error same => exact .error same

end Pairing.Matches

/-- Texts that correspond. Within a line they are the same, and the rest is asked for here: the runs of
blanks, the expressions and the strings that may go on over line ends. -/
structure Correspondence extends Pairing where
  place : ∀ {cursor cursor'}, cursors cursor cursor' → positions cursor.position cursor'.position
  step : ∀ {cursor cursor'}, cursors cursor cursor' → cursor.atLineEnd ∧ cursor'.atLineEnd ∨
      ∃ c, isLineEnd c = false ∧ cursor.peek = some c ∧ cursor'.peek = some c ∧
        cursors cursor.advance cursor'.advance
  shorter : ∀ {cursor cursor' later later'}, cursors cursor cursor' → cursors later later' →
    (later'.remaining < cursor'.remaining ↔ later.remaining < cursor.remaining)
  upTo : ∀ {cursor cursor' later later'}, cursors cursor cursor' → cursors later later' →
    Reaches cursor later → cursor'.upTo later' = words.text (cursor.upTo later)
  gap : ∀ {cursor cursor'} (keep : Char → Bool), cursors cursor cursor' → keep '\r' = keep '\n' →
    toPairing.Leaves 1 (cursor.readWhile keep).2 → cursors (cursor.readWhile keep).2 (cursor'.readWhile keep).2
  line : ∀ {cursor cursor'} (breaks : List Char), cursors cursor cursor' →
    breaks.contains '\r' → breaks.contains '\n' →
      toPairing.Matches 0 (toPairing.SameRead words.text) (readBalanced cursor breaks)
        (readBalanced cursor' breaks)
  value : ∀ {cursor cursor'}, cursors cursor cursor' →
    toPairing.Matches 1 (toPairing.SameRead words.text) (readBalanced cursor [',', ')'])
      (readBalanced cursor' [',', ')'])
  string : ∀ {cursor cursor'}, cursors cursor cursor' → toPairing.Leaves 1 cursor →
    toPairing.Matches 0 (toPairing.SameRead (Option.map words.text))
      (cursor.readString.mapError fun failure => failure.error.diagnose)
      (cursor'.readString.mapError fun failure => failure.error.diagnose)

lemma Token.line_end_stops (keep : Char → Bool) (feed : keep '\n' = false)
    (carriage : keep '\r' = false) : ∀ c, isLineEnd c → keep c = false := by
  intro c isEnd
  rcases isLineEnd_iff.1 isEnd with rfl | rfl
  · exact feed
  · exact carriage

namespace Cursor

lemma readWhile_first (first : cursor.peek = some c) (keep : Char → Bool) : cursor.readWhile keep = if keep c then
      (c :: (cursor.advance.readWhile keep).1, (cursor.advance.readWhile keep).2) else ([], cursor) := by
  obtain ⟨text, pos⟩ := cursor
  obtain ⟨more, rfl⟩ := head?_eq_some_iff.1 first
  unfold readWhile
  cases kept : keep c with
  | true => simp [read, advance, skip, kept]
  | false => simp [read, skip, kept]

lemma readWhile_ended (ended : cursor.atLineEnd) (feed : keep '\n' = false)
    (carriage : keep '\r' = false) : cursor.readWhile keep = ([], cursor) := by
  cases first : cursor.peek with
  | none => simp [readWhile, read, skip, head?_eq_none_iff.1 first]
  | some c =>
    have isEnd := (atLineEnd_iff cursor).1 ended c first
    rw [readWhile_first first, if_neg (by simp [line_end_stops keep feed carriage c isEnd])]

lemma readString_none (string : cursor.readString = .ok (none, rest)) : rest = cursor := by
  unfold readString at string
  split at string
  · split at string
    · split at string
      · cases string
      · cases string
    · cases string
      rfl
  · cases string
    rfl

end Cursor

lemma Token.tagNameLength_ended (ended : cursor.atLineEnd) : tagNameLength cursor.rest = 0 := by
  cases text : cursor.rest with
  | nil => rfl
  | cons c rest =>
    have isEnd := (atLineEnd_iff cursor).1 ended c (by rw [text]; rfl)
    have stopped := line_end_stops (fun c => isNameChar c || c == ':') rfl rfl c isEnd
    obtain ⟨noName, noColon⟩ := Bool.or_eq_false_iff.1 stopped
    rw [tagNameLength, noName, noColon]
    rfl

lemma Token.atWord_ended (starts : cursor.startsWith word)
    (ended : (cursor.skip word.length).atLineEnd) : atWord cursor word follower := by
  rw [atWord, starts, ← rest_skip]
  split
  · rfl
  · rename_i c first
    simp [(atLineEnd_iff _).1 ended c first]

lemma Token.keyword_plain (keyword : Keyword) : keyword.word.toList.all (fun c => !isLineEnd c) = true := by
  cases keyword <;> rfl

lemma Token.readBalanced_eq : readBalanced cursor breaks =
    (cursor.readExpression breaks).mapError fun failure => failure.error.diagnose := by
  unfold readBalanced
  cases cursor.readExpression breaks <;> rfl

lemma Token.readBalanced_ok {read}
    (success : readBalanced cursor breaks = .ok read) : cursor.readExpression breaks = .ok read := by
  rw [readBalanced_eq] at success
  exact ok_of_mapError success

lemma Token.readValue_eq :
    readValue cursor = (cursor.readString.mapError fun failure => failure.error.diagnose) >>= fun read =>
      if read.1.isSome && endsLiteral read.2.skipSpacing then .ok (String.ofList (cursor.upTo read.2), read.2)
      else readBareValue cursor >>= fun read =>
        if read.1.isEmpty then .error (Cause.missingAttributeValue.diagnose read.2.position)
        else .ok (String.ofList read.1, read.2) := by
  unfold readValue
  cases cursor.readString with
  | error failure => rfl
  | ok read =>
    obtain ⟨literal, rest⟩ := read
    cases literal with
    | none | some => rfl

lemma Token.bare_value_covers {literal}
    (string : cursor.readString = .ok (literal, stringEnd))
    (read : readBareValue cursor = .ok (text, rest)) : rest.remaining ≤ stringEnd.remaining := by
  obtain ⟨⟨expression, finish⟩, balanced, ⟨⟩⟩ := ok_of_pure read
  have found := readBalanced_ok balanced
  cases literal with
  | none =>
    rw [readString_none string]
    exact (readExpression_reaches found).remaining_le
  | some value =>
    refine readString_covered string ?_ found
    intro quote isQuoted
    simp only [isQuote, Bool.or_eq_true, beq_iff_eq] at isQuoted
    rcases isQuoted with rfl | rfl
    · rfl
    · rfl

lemma Token.operators_plain : ∀ operator ∈ operators, operator.text.toList.all (fun c => !isLineEnd c) = true :=
  all_eq_true.1 rfl

lemma Token.lexTagPart_ended (ended : cursor.atLineEnd) : lexTagPart cursor = .ok none := by
  unfold lexTagPart
  cases first : cursor.peek with
  | none => rfl
  | some c =>
    have isEnd := (atLineEnd_iff cursor).1 ended c first
    rcases isLineEnd_iff.1 isEnd with rfl | rfl
    · rfl
    · rfl

lemma Token.lexTagContent_ended (ended : cursor.atLineEnd) :
    lexTagContent width cursor = .ok ⟨[], cursor, false⟩ := by
  unfold lexTagContent
  cases first : cursor.peek with
  | none => rfl
  | some c => exact if_pos ((atLineEnd_iff cursor).1 ended c first)

lemma Token.headCode_ended_line (ended : cursor.advance.atLineEnd) :
    headCode cursor = .ok (headCode.body cursor) := by
  unfold headCode
  cases first : cursor.advance.peek with
  | none => rfl
  | some c => exact if_pos (by simp [(atLineEnd_iff _).1 ended c first])

lemma Token.opening_branch {condition} [Decidable condition] (differs : left ≠ other)
    (later : right ≠ other) : (if condition then left else right) ≠ other := by
  split
  · exact differs
  · exact later

lemma Token.opening_comment (opens : opening cursor first = .comment) : cursor.startsWith "//" := by
  by_contra none
  rw [opening, if_neg none] at opens
  refine absurd opens ?_
  repeat refine opening_branch (by simp) ?_
  simp

lemma Token.opening_doctype (opens : opening cursor first = .doctype) : cursor.startsWith "!!!" = true := by
  by_contra none
  rw [opening, if_neg none] at opens
  refine absurd opens ?_
  repeat refine opening_branch (by simp) ?_
  simp

lemma Token.Raw.kinds_reword (change : String → String) (raw : Raw) (block) :
    ∀ kind ∈ raw.kinds block, kind.reword change = kind := by
  intro kind mem
  cases raw with
  | comment first rendered =>
    rw [mem_singleton.1 mem]
    rfl
  | filtered first =>
    simp only [Raw.kinds] at mem
    split at mem
    · cases mem
    · rw [mem_singleton.1 mem]
      rfl
  | code | text =>
    cases block with
    | none => cases mem
    | some value =>
      rw [mem_singleton.1 mem]
      rfl

lemma Token.Moves.kinds_reword {after kinds}
    (moves : Moves levels width kinds after) (change : String → String) :
    ∀ kind ∈ kinds, kind.reword change = kind := by
  intro kind mem
  cases moves with
  | opens deeper =>
    rw [mem_singleton.1 mem]
    rfl
  | closes split deeper reached =>
    rw [eq_of_mem_replicate mem]
    rfl

lemma map_bind {ε β γ : Type} (first : Except ε α) (next : α → Except ε β) (change : β → γ) :
    (first >>= next).map change = first >>= fun value => (next value).map change := by
  cases first <;> rfl

namespace Correspondence

variable (pairs : Correspondence) {cursor' : Cursor} (same : pairs.cursors cursor cursor')

section Steps

include same

lemma atLineEnd : cursor'.atLineEnd = cursor.atLineEnd := by
  rcases pairs.step same with ⟨ended, ended'⟩ | ⟨c, inside, first, first', -⟩
  · rw [ended, ended']
  · have going : ∀ {cursor : Cursor}, cursor.peek = some c → cursor.atLineEnd = false := by
      intro cursor first
      rw [Bool.eq_false_iff]
      intro ended
      rw [(atLineEnd_iff cursor).1 ended c first] at inside
      cases inside
    rw [going first, going first']

lemma peek_any (feed : test '\n' = false) (carriage : test '\r' = false) :
    cursor'.peek.any test = cursor.peek.any test := by
  rcases pairs.step same with ⟨ended, ended'⟩ | ⟨c, -, first, first', -⟩
  · have fails : ∀ {cursor : Cursor}, cursor.atLineEnd = true → cursor.peek.any test = false := by
      intro cursor ended
      cases first : cursor.peek with
      | none => rfl
      | some c => exact line_end_stops test feed carriage c ((atLineEnd_iff cursor).1 ended c first)
    rw [fails ended, fails ended']
  · rw [first, first']

lemma peek_is (inside : isLineEnd c = false) : (cursor'.peek == some c) = (cursor.peek == some c) := by
  have asTest : ∀ next : Option Char, (next == some c) = next.any (· == c) := by
    intro next
    cases next <;> rfl
  obtain ⟨noFeed, noReturn⟩ := Bool.or_eq_false_iff.1 inside
  rw [BEq.comm] at noFeed noReturn
  rw [asTest, asTest]
  exact pairs.peek_any same noFeed noReturn

lemma advance (first : cursor.peek = some c) (inside : isLineEnd c = false) :
    pairs.cursors cursor.advance cursor'.advance := by
  rcases pairs.step same with ⟨ended, -⟩ | ⟨c, -, -, -, next⟩
  · rw [(atLineEnd_iff cursor).1 ended c first] at inside
    cases inside
  · exact next

lemma readWhile (keep : Char → Bool) (feed : keep '\n' = false) (carriage : keep '\r' = false) :
    (cursor'.readWhile keep).1 = (cursor.readWhile keep).1 ∧
      pairs.cursors (cursor.readWhile keep).2 (cursor'.readWhile keep).2 := by
  induction cursor using remaining_induction generalizing cursor' with
  | step cursor ih =>
    rcases pairs.step same with ⟨ended, ended'⟩ | ⟨c, -, first, first', next⟩
    · rw [readWhile_ended ended feed carriage, readWhile_ended ended' feed carriage]
      exact ⟨rfl, same⟩
    · rw [readWhile_first first, readWhile_first first']
      split
      · obtain ⟨value, rest⟩ := ih _ ((Reaches.refl _).remaining_lt first) next
        exact ⟨congrArg (cons c) value, rest⟩
      · exact ⟨rfl, same⟩

lemma readLine : cursor'.readLine.1 = cursor.readLine.1 ∧ pairs.cursors cursor.readLine.2 cursor'.readLine.2 :=
  pairs.readWhile same _ rfl rfl

lemma skipSpacing : pairs.cursors cursor.skipSpacing cursor'.skipSpacing := (pairs.readWhile same _ rfl rfl).2

lemma isPrefixOf {word : List Char} (plain : ∀ c ∈ word, isLineEnd c = false) :
    word.isPrefixOf cursor'.rest = word.isPrefixOf cursor.rest ∧ (word.isPrefixOf cursor.rest →
        pairs.cursors (cursor.skip word.length) (cursor'.skip word.length)) := by
  induction word generalizing cursor cursor' with
  | nil => exact ⟨by simp, fun _ => same⟩
  | cons d more ih =>
    rcases pairs.step same with ⟨ended, ended'⟩ | ⟨c, -, first, first', next⟩
    · have fails : ∀ {cursor : Cursor}, cursor.atLineEnd = true → (d :: more).isPrefixOf cursor.rest = false := by
        intro cursor ended
        cases text : cursor.rest with
        | nil => rfl
        | cons c rest =>
          have isEnd := (atLineEnd_iff cursor).1 ended c (by rw [text]; rfl)
          have other : (d == c) = false := by
            apply beq_false_of_ne
            rintro rfl
            rw [plain d mem_cons_self] at isEnd
            cases isEnd
          rw [isPrefixOf, other, Bool.false_and]
      rw [fails ended, fails ended']
      exact ⟨rfl, fun starts => by cases starts⟩
    · obtain ⟨sameRest, behind⟩ := ih next (forall_mem_cons.1 plain).2
      obtain ⟨rest, text⟩ := head?_eq_some_iff.1 first
      obtain ⟨rest', text'⟩ := head?_eq_some_iff.1 first'
      rw [rest_advance, rest_advance, text, text'] at sameRest
      rw [rest_advance, text] at behind
      rw [text, text', isPrefixOf]
      refine ⟨congrArg _ sameRest, fun starts => ?_⟩
      exact behind (Bool.and_eq_true_iff.1 starts).2

lemma startsWith {word} (plain : word.toList.all (fun c => !isLineEnd c) = true) :
    cursor'.startsWith word = cursor.startsWith word :=
  (pairs.isPrefixOf same (by simpa using plain)).1

lemma skip_word {word} (plain : word.toList.all (fun c => !isLineEnd c) = true)
    (starts : cursor.startsWith word) :
    pairs.cursors (cursor.skip word.length) (cursor'.skip word.length) := by
  exact (pairs.isPrefixOf same (by simpa using plain)).2 starts

lemma tagName : (cursor'.read (tagNameLength cursor'.rest)).1 =
    (cursor.read (tagNameLength cursor.rest)).1 ∧ pairs.cursors (cursor.skip (tagNameLength cursor.rest))
    (cursor'.skip (tagNameLength cursor'.rest)) := by
  induction text : cursor.rest generalizing cursor cursor' with
  | nil =>
    rcases pairs.step same with ⟨-, ended'⟩ | ⟨c, -, first, -⟩
    · rw [tagNameLength_ended ended']
      exact ⟨by simp [Cursor.read, tagNameLength], same⟩
    · rw [peek, text] at first
      cases first
  | cons c rest ih =>
    rcases pairs.step same with ⟨ended, ended'⟩ | ⟨d, -, first, first', next⟩
    · rw [← text, tagNameLength_ended ended, tagNameLength_ended ended']
      exact ⟨by simp [Cursor.read], same⟩
    · have behind : cursor.advance.rest = rest := by rw [rest_advance, text]; rfl
      obtain ⟨rest', text'⟩ := head?_eq_some_iff.1 first'
      have behind' : cursor'.advance.rest = rest' := by rw [rest_advance, text']; rfl
      have isFirst : c = d := by
        rw [peek, text] at first
        exact Option.some.inj first
      subst isFirst
      have follows := pairs.peek_any next (show isIdentifierChar '\n' = false from rfl) rfl
      obtain ⟨name, finish⟩ := ih next behind
      simp only [Cursor.read, peek, behind, behind'] at follows name
      rw [behind'] at finish
      rw [text', tagNameLength, tagNameLength, follows]
      split
      · simp only [Cursor.read, text, text', take_succ_cons, name]
        exact ⟨trivial, finish⟩
      · exact ⟨by simp [Cursor.read], same⟩

lemma atWord (plain : word.toList.all (fun c => !isLineEnd c) = true)
    (follower) : atWord cursor' word follower = atWord cursor word follower := by
  have starts' := pairs.startsWith same plain
  cases starts : cursor.startsWith word with
  | false => rw [Token.atWord, Token.atWord, starts', starts, Bool.false_and, Bool.false_and]
  | true =>
    rw [starts] at starts'
    rcases pairs.step (pairs.skip_word same plain starts) with
      ⟨ended, ended'⟩ | ⟨c, -, first, first', -⟩
    · rw [atWord_ended starts ended, atWord_ended starts' ended']
    · rw [peek, rest_skip] at first first'
      rw [Token.atWord, Token.atWord, starts, starts', first, first']

lemma keyword : keyword? cursor = none ∧ keyword? cursor' = none ∨
    ∃ keyword rest rest', keyword? cursor = some (keyword, rest) ∧
      keyword? cursor' = some (keyword, rest') ∧ pairs.cursors rest rest' := by
  have found' : (Keyword.all.find? fun keyword => Token.atWord cursor' keyword.word keyword.follower?) =
      Keyword.all.find? fun keyword => Token.atWord cursor keyword.word keyword.follower? :=
    find?_congr fun keyword _ => pairs.atWord same (keyword_plain keyword) _
  unfold keyword?
  rw [found']
  cases found : Keyword.all.find? fun keyword => Token.atWord cursor keyword.word keyword.follower? with
  | none => exact .inl ⟨rfl, rfl⟩
  | some keyword =>
    have stands := find?_some found
    exact .inr ⟨keyword, _, _, rfl, rfl,
      pairs.skip_word same (keyword_plain keyword) (Bool.and_eq_true_iff.1 stands).1⟩

lemma opening (first) : opening cursor' first = opening cursor first := by
  have starts : ∀ word : String, word.toList.all (fun c => !isLineEnd c) = true →
      cursor'.startsWith word = cursor.startsWith word := fun _ plain => pairs.startsWith same plain
  unfold Token.opening
  rw [starts "//" rfl, starts "!!!" rfl, starts "#\x7b" rfl, starts "#[" rfl, starts "!\x7b" rfl]

lemma single {kind kind'} (reworded : kind' = kind.reword pairs.words.string) :
    pairs.Tokens [⟨kind, cursor.position⟩] [⟨kind', cursor'.position⟩] :=
  .cons ⟨reworded, pairs.place same⟩ .nil

lemma fault [Ends α] {slack} {values : α → α → Prop} {cause cause' : Cause}
    (kind : cause'.kind = cause.kind) : pairs.Matches slack values (.error (cause.diagnose cursor.position))
      (.error (cause'.diagnose cursor'.position)) :=
  .fault kind (pairs.place same)

end Steps

end Correspondence

end PugTemplate
