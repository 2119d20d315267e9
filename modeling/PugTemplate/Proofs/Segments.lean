import Mathlib.Data.List.Chain
import PugTemplate.Proofs.Interpolation

/-!
# Segments written as text

Segments can be written so that they are found again: a body goes between its delimiters, and in text a
backslash is put in front of what would open an interpolation. Whatever text is taken apart, its segments
are never empty, and no two texts stand side by side.
-/

namespace PugTemplate

open List

namespace Cursor

/-- An expression that is read back when a character that ends it stands behind it. -/
def Recovers (breaks text : List Char) (close : Char) : Prop :=
  ∃ later, readExpression ⟨text ++ [close], .start⟩ breaks = .ok (text, later)

lemma Recovers.accepts (recovers : Recovers breaks text close)
    (behind) : Accepts breaks text (text ++ close :: behind) := by
  obtain ⟨later, read⟩ := recovers
  obtain ⟨⟨rest, split, items, ends⟩, -⟩ := readExpression_ok_iff.1 read
  obtain rfl := append_cancel_left split
  exact ⟨_, rfl, items.behind nofun, ends⟩

end Cursor

namespace Interpolation

/-- Text with a backslash in front of everything that would open an interpolation. -/
def protect : List Char → List Char
  | sigil :: bracket :: rest =>
    if opensInterpolation sigil bracket then '\\' :: sigil :: protect (bracket :: rest)
    else sigil :: protect (bracket :: rest)
  | text => text

namespace Segment

def isText : Segment → Bool
  | text _ => true
  | _ => false

def content : Segment → String
  | text value | echo value _ | tag value => value

def written : Segment → List Char
  | text value => protect value.toList
  | echo value escaped => (if escaped then '#' else '!') :: '{' :: (value.toList ++ ['}'])
  | tag snippet => '#' :: '[' :: (snippet.toList ++ [']'])

end Segment

/-- A body that can be found in front of the character that closes it. -/
def Bounded (body : List Char) (close : Char) : Prop :=
  Text.trim body = body ∧ Cursor.Recovers [close] body close

/-- The body of a segment can be found between its delimiters. -/
def Segment.Bounded : Segment → Prop
  | text _ => True
  | echo value _ => Interpolation.Bounded value.toList '}'
  | tag snippet => Interpolation.Bounded snippet.toList ']'

/-- No segment is empty, and no two texts stand side by side. -/
def Compact (segments : List Segment) : Prop :=
  (∀ segment ∈ segments, segment.content ≠ "") ∧
    segments.IsChain fun first second => first.isText = true → second.isText = false

variable {behind : List Char} {found : List Segment} {sigil bracket close c : Char}

lemma protect_cons (c text) :
    ∃ first tail, protect (c :: text) = first :: tail ∧ (first = c ∨ first = '\\' ∧ opensBody c = false) := by
  cases text with
  | nil => exact ⟨c, [], rfl, .inl rfl⟩
  | cons d text =>
    rw [protect]
    split
    · rename_i opens
      refine ⟨_, _, rfl, .inr ⟨rfl, ?_⟩⟩
      unfold opensInterpolation at opens
      unfold opensBody
      grind
    · exact ⟨_, _, rfl, .inl rfl⟩

lemma protect_front (plain : ∀ d ∈ behind.head?, opensBody d = false) (c text)
    {first second rest}
    (front : protect (c :: text) ++ behind = first :: second :: rest) :
    opensInterpolation first second = false := by
  cases text with
  | nil =>
    obtain ⟨rfl, rfl⟩ := List.cons.inj front
    simp [opensInterpolation, plain second rfl]
  | cons d text =>
    rw [protect] at front
    split at front
    · cases front
      rfl
    · rename_i closed
      obtain ⟨next, tail, shape, isNext⟩ := protect_cons d text
      rw [shape] at front
      cases front
      rcases isNext with rfl | ⟨rfl, -⟩
      · exact Bool.eq_false_iff.2 closed
      · simp [opensInterpolation, opensBody]

lemma segmentsFrom_protect (later : ∀ index, segmentsFrom 0 index behind = .ok found)
    (plain : ∀ d ∈ behind.head?, opensBody d = false) (text)
    (ends : behind ≠ [] → text.getLast? ≠ some '\\') (index) :
    segmentsFrom 0 index (protect text ++ behind) = .ok (text.foldr addChar found) := by
  induction text generalizing index with
  | nil => exact later index
  | cons c text ih =>
    cases text with
    | nil =>
      cases behind with
      | nil =>
        cases later 0
        exact segmentsFrom_last c index
      | cons d behind =>
        have noBackslash : c ≠ '\\' := by simpa using ends
        have closed : opensInterpolation c d = false := protect_front plain c [] rfl
        rw [protect, singleton_append,
          segmentsFrom_char (fun _ _ same => absurd same noBackslash) (close?_none closed), later]
        · rfl
        · simp
    | cons d text =>
      have others := ih (by simpa using ends)
      obtain ⟨next, tail, shape, isNext⟩ := protect_cons d text
      have fronts := @protect_front behind plain c (d :: text)
      by_cases opens : opensInterpolation c d = true
      · have rest : segmentsFrom 1 (index + 1) (c :: (protect (d :: text) ++ behind)) = _ := others (index + 2)
        rw [protect, if_pos opens]
        rw [shape] at rest ⊢
        rcases isNext with rfl | ⟨-, noBody⟩
        · exact (if_pos opens).trans (congrArg _ rest)
        · simp [opensInterpolation, noBody] at opens
      · have whole : protect (c :: d :: text) = c :: protect (d :: text) := if_neg opens
        rw [whole, shape] at fronts ⊢
        have noClose := close?_none (fronts rfl)
        rw [cons_append, cons_append, segmentsFrom_char _ noClose, ← cons_append, ← shape, others]
        · rfl
        · rintro second behindNext - following
          refine @protect_front behind plain d text next second behindNext ?_
          rw [shape, cons_append, following]

lemma foldr_addChar (some : text ≠ []) (apart : ∀ s ∈ found.head?, s.isText = false) :
    text.foldr addChar found = .text (String.ofList text) :: found := by
  induction text with
  | nil => exact absurd rfl some
  | cons c text ih =>
    cases text with
    | nil =>
      cases found with
      | nil => rfl
      | cons segment more =>
        cases segment with
        | text value => cases apart _ rfl
        | _ => rfl
    | cons d text =>
      rw [foldr_cons, ih (cons_ne_nil _ _), addChar, ← String.ofList_append]
      rfl

lemma segmentsFrom_skip (text rest index) :
    segmentsFrom text.length index (text ++ rest) = segmentsFrom 0 (index + text.length) rest := by
  induction text generalizing index with
  | nil => rfl
  | cons c text ih =>
    rw [length_cons, Nat.add_comm text.length, ← Nat.add_assoc, ← ih, Nat.add_comm 1]
    rfl

lemma segmentsFrom_bounded {segment} (opens : close? sigil bracket = some close)
    (made : bodySegment sigil close segment.content.toList = segment)
    (some : segment.content.toList ≠ []) (bounded : Bounded segment.content.toList close)
    (later : ∀ index, segmentsFrom 0 index behind = .ok found)
    (index) : segmentsFrom 0 index (sigil :: bracket :: (segment.content.toList ++ [close]) ++ behind) =
      .ok (segment :: found) := by
  generalize segment.content.toList = body at *
  have balanced := Cursor.balancedLength_accepts (bounded.2.accepts behind)
  have front : Text.trim ((body ++ close :: behind).take body.length) = body := by
    rw [take_left, bounded.1]
  have rest := segmentsFrom_skip (bracket :: (body ++ [close])) behind (index + 1)
  rw [later, cons_append, append_assoc, length_cons, length_append] at rest
  rw [cons_append, cons_append, append_assoc, singleton_append,
    segmentsFrom_body opens balanced (by simp) (by rw [front]; simpa using some), front, made]
  exact congrArg _ rest

/-- Texts that are followed by something do not end with a backslash, which would protect it. -/
def Ended (segments : List Segment) : Prop :=
  segments.IsChain fun first _ => first.isText = true → first.content.toList.getLast? ≠ some '\\'

lemma segmentsFrom_written (compact : Compact found) (ended : Ended found)
    (bounded : ∀ segment ∈ found, segment.Bounded) (index) :
    segmentsFrom 0 index (found.flatMap Segment.written) = .ok found := by
  induction found generalizing index with
  | nil => rfl
  | cons segment more ih =>
    obtain ⟨filled, apart⟩ := compact
    obtain ⟨here, others⟩ := forall_mem_cons.1 bounded
    obtain ⟨isFilled, othersFilled⟩ := forall_mem_cons.1 filled
    have later := ih ⟨othersFilled, apart.tail⟩ ended.tail others
    have content : segment.content.toList ≠ [] := by simpa using isFilled
    rw [flatMap_cons]
    cases segment with
    | text value =>
      have alone : ∀ next ∈ more.head?, next.isText = false := by
        cases more with
        | nil => simp
        | cons next more => rintro _ ⟨⟩; exact (isChain_cons_cons.1 apart).1 rfl
      have plain : ∀ d ∈ (more.flatMap Segment.written).head?, opensBody d = false := by
        cases more with
        | nil => simp
        | cons next more =>
          have noText := alone next rfl
          rcases next with _ | ⟨_, _ | _⟩ | _
          · cases noText
          all_goals
            rintro _ ⟨⟩
            rfl
      have ends : more.flatMap Segment.written ≠ [] → value.toList.getLast? ≠ some '\\' := by
        cases more with
        | nil => simp
        | cons next more => exact fun _ => (isChain_cons_cons.1 ended).1 rfl
      rw [Segment.written, segmentsFrom_protect later plain value.toList ends,
        foldr_addChar (by exact content) alone, String.ofList_toList]
    | echo value escaped =>
      cases escaped with
      | false =>
        exact @segmentsFrom_bounded _ _ '!' '{' '}' _ rfl (congrArg (Segment.echo · false) String.ofList_toList)
          content here later index
      | true =>
        exact @segmentsFrom_bounded _ _ '#' '{' '}' _ rfl (congrArg (Segment.echo · true) String.ofList_toList)
          content here later index
    | tag snippet =>
      exact @segmentsFrom_bounded _ _ '#' '[' ']' _ rfl (congrArg Segment.tag String.ofList_toList)
        content here later index

lemma addChar_compact (compact : Compact found) (c) : Compact (addChar c found) := by
  obtain ⟨filled, apart⟩ := compact
  fun_cases addChar c found with
  | case1 value more =>
    obtain ⟨-, others⟩ := forall_mem_cons.1 filled
    refine ⟨forall_mem_cons.2 ⟨by simp [Segment.content], others⟩, ?_⟩
    cases more with
    | nil => exact .singleton _
    | cons next more => exact .cons_cons (isChain_cons_cons.1 apart).1 apart.tail
  | case2 _ noText =>
    refine ⟨forall_mem_cons.2 ⟨by simp [Segment.content], filled⟩, ?_⟩
    cases found with
    | nil => exact .singleton _
    | cons next more =>
      cases next with
      | text value => exact absurd rfl (noText value more)
      | _ => exact .cons_cons (fun _ => rfl) apart

/-- What may be found in a text: texts grow by one character, and bodies are no longer than what follows
their sigil. -/
inductive Found : List Char → List Segment → Prop
  | nil : Found [] []
  | skipped {rest found} (c : Char) (more : Found rest found) : Found (c :: rest) found
  | char {rest found} (first c : Char) (more : Found rest found) : Found (first :: rest) (addChar c found)
  | body {rest found inner} (sigil close : Char) (filled : inner ≠ []) (short : inner.length ≤ rest.length)
      (more : Found rest found) : Found (sigil :: rest) (bodySegment sigil close inner :: found)

lemma segmentsFrom_found (ok : segmentsFrom skipping index text = .ok found) : Found text found := by
  fun_induction segmentsFrom skipping index text generalizing found with
  | case1 =>
    cases ok
    exact .nil
  | case2 index c rest skipping ih => exact .skipped c (ih ok)
  | case3 index sigil bracket tail opens ih | case4 index sigil bracket tail opens ih =>
    obtain ⟨more, apart, rfl⟩ := ok_of_map ok
    exact .char _ _ (ih apart)
  | case5 index c bracket body noClose notBackslash ih =>
    rw [noClose] at ok
    obtain ⟨more, apart, rfl⟩ := ok_of_map ok
    exact .char c c (ih apart)
  | case6 | case7 => simp_all
  | case8 index c bracket body close opens length balanced closed inner vacant =>
    simp only [opens, balanced, closed] at ok
    rw [if_pos vacant] at ok
    cases ok
  | case9 index c bracket body close opens length balanced closed inner inside notBackslash =>
    rename_i ih
    simp only [opens, balanced, closed] at ok
    rw [if_neg inside] at ok
    obtain ⟨more, apart, rfl⟩ := ok_of_map ok
    have trimmed : inner.length ≤ (body.take length).length :=
      (Cursor.length_trimEnd_le _).trans (dropWhile_sublist _).length_le
    have short := trimmed.trans (take_sublist _ _).length_le
    exact .body c close (mt isEmpty_iff.2 inside) (short.trans (Nat.le_succ _)) (ih apart)
  | case10 index c =>
    cases ok
    exact .char c c .nil

lemma Found.compact (isFound : Found text found) : Compact found := by
  induction isFound with
  | nil => exact ⟨by simp, .nil⟩
  | skipped c more ih => exact ih
  | char first c more ih => exact addChar_compact ih c
  | @body rest found inner sigil close some short more ih =>
    obtain ⟨filled, chained⟩ := ih
    have noText : (bodySegment sigil close inner).isText = false ∧
        (bodySegment sigil close inner).content ≠ "" := by
      unfold bodySegment
      split <;> simpa [Segment.isText, Segment.content] using some
    refine ⟨forall_mem_cons.2 ⟨noText.2, filled⟩, ?_⟩
    cases found with
    | nil => exact .singleton _
    | cons next more => exact .cons_cons (fun isText => by rw [noText.1] at isText; cases isText) chained

/-- Segments that are written as text are found again, wherever the text stands, provided that they are
compact, that no backslash ends a text in front of another segment, and that the bodies can be found between
their delimiters. What is found in any text is compact. -/
theorem written_segments_are_found :
    (∀ segments, Compact segments → Ended segments → (∀ segment ∈ segments, segment.Bounded) →
      ∀ position, interpolate (String.ofList (segments.flatMap Segment.written)) position = .ok segments) ∧
    ∀ text position found, interpolate text position = .ok found → Compact found := by
  constructor
  · intro segments compact ended bounded position
    rw [interpolate, String.toList_ofList, Interpolation.segments, segmentsFrom_written compact ended bounded]
  · intro text position found result
    unfold interpolate at result
    split at result
    · cases result
      exact (segmentsFrom_found ‹_›).compact
    · cases result

/-- Signs and brackets of the text are protected, and a bracket in a string does not end a body. -/
theorem stray_signs_are_found :
    interpolate "#! a\\\\#\x7bb\x7d#\x7b$x['\x7d']\x7d#[em now]" ⟨3, 2⟩ =
      .ok [.text "#! a\\#\x7bb\x7d", .echo "$x['\x7d']" true, .tag "em now"] := by
  have found := written_segments_are_found.1
    [.text "#! a\\#\x7bb\x7d", .echo "$x['\x7d']" true, .tag "em now"]
    ⟨by simp [Segment.content], by simp [Segment.isText]⟩ (by simp [Ended, Segment.isText, Segment.content])
    (List.forall_mem_cons.2 ⟨trivial, List.forall_mem_cons.2 ⟨⟨rfl, _, rfl⟩, by simp; exact ⟨rfl, _, rfl⟩⟩⟩) ⟨3, 2⟩
  exact found

end Interpolation

end PugTemplate
