import PugTemplate.Diagnostic.Excerpt
import PugTemplate.Proofs.Attribution
import PugTemplate.Proofs.Interpolation
import PugTemplate.Proofs.Places

/-!
# Quoted lines

A report quotes the line that a diagnostic names. The lexer ends lines at line feeds, at carriage
returns and at pairs of them, while the report takes a source apart at line feeds. The two agree up to
the first carriage return that stands alone.
-/

namespace PugTemplate

open Interpolation List Text

namespace Token

/-- The physical lines, without an empty piece behind the last line end. -/
def quotableLines (text : List Char) : List (List Char) :=
  if (physicalLines text).getLast? = some [] then (physicalLines text).dropLast else physicalLines text

variable {text : List Char}

lemma quotableLines_cons (lines : physicalLines text = line :: physicalLines rest) :
    quotableLines text = line :: quotableLines rest := by
  obtain ⟨next, others, further, -⟩ := physicalLines_cons rest
  unfold quotableLines
  rw [lines, further, getLast?_cons_cons]
  split
  · rfl
  · rfl

lemma physicalLines_no_return (text) : ∀ line ∈ physicalLines text, '\r' ∉ line := by
  induction text with
  | nil => simp [physicalLines]
  | cons c rest ih =>
    rw [physicalLines]
    split
    · exact ih
    · split
      · simpa using ih
      · rename_i inside
        obtain ⟨next, others, further, -⟩ := physicalLines_cons rest
        rw [further] at ih ⊢
        have other : '\r' ≠ c := by
          rintro rfl
          exact inside rfl
        simpa [other] using ih

lemma physicalLines_append (inside : ∀ c ∈ front, isLineEnd c = false)
    (lines : physicalLines rest = line :: more) :
    physicalLines (front ++ rest) = (front ++ line) :: more := by
  induction front with
  | nil => exact lines
  | cons c front ih =>
    obtain ⟨here, others⟩ := forall_mem_cons.1 inside
    have noReturn : (c == '\r') = false := (Bool.or_eq_false_iff.1 here).2
    rw [cons_append, physicalLines, noReturn, ih others]
    simp [here]

lemma no_line_end (noFeed : '\n' ∉ text) (noReturn : '\r' ∉ text) : ∀ c ∈ text, isLineEnd c = false := by
  intro c mem
  rw [isLineEnd, Bool.or_eq_false_iff, beq_eq_false_iff_ne, beq_eq_false_iff_ne]
  exact ⟨fun same => noFeed (same ▸ mem), fun same => noReturn (same ▸ mem)⟩

lemma physicalLines_feed (noFeed : '\n' ∉ front) (noReturn : '\r' ∉ dropReturn front) (rest) :
    physicalLines (front ++ '\n' :: rest) = dropReturn front :: physicalLines rest := by
  have kept : '\n' ∉ dropReturn front := by
    intro mem
    rcases dropReturn_split front with same | same
    · exact noFeed (same ▸ mem)
    · exact noFeed (same ▸ mem_append_left _ mem)
  have inside := no_line_end kept noReturn
  have feed : physicalLines ('\n' :: rest) = [] :: physicalLines rest := by
    rfl
  have pair : physicalLines ('\r' :: '\n' :: rest) = [] :: physicalLines rest := by
    exact feed
  rcases dropReturn_split front with same | same
  · have lines := physicalLines_append inside feed
    rw [append_nil] at lines
    nth_rewrite 1 [same]
    exact lines
  · have lines := physicalLines_append inside pair
    rw [append_nil] at lines
    nth_rewrite 1 [same]
    rw [append_assoc]
    exact lines

lemma take_lines_eq {count} (noReturn : ∀ line ∈ (lines text).take count, '\r' ∉ line) :
    (lines text).take count = (quotableLines text).take count := by
  induction count generalizing text with
  | zero => rfl
  | succ count ih =>
    by_cases broken : '\n' ∈ text
    · obtain ⟨front, rest, rfl, unbroken⟩ := eq_append_cons_of_mem broken
      rw [lines_append unbroken, take_succ_cons] at noReturn ⊢
      obtain ⟨here, later⟩ := forall_mem_cons.1 noReturn
      rw [quotableLines_cons (physicalLines_feed unbroken here rest), take_succ_cons, ih later]
    · rw [lines_unbroken broken] at noReturn ⊢
      cases text with
      | nil => rfl
      | cons c more =>
        have inside := no_line_end broken (by simpa using noReturn)
        have single := physicalLines_append inside (show physicalLines [] = [[]] from rfl)
        rw [append_nil] at single
        simp [quotableLines, single]

lemma take_lines_eq_iff (text count) : (lines text).take count = (quotableLines text).take count ↔
    ∀ line ∈ (lines text).take count, '\r' ∉ line := by
  refine ⟨fun same line mem => ?_, take_lines_eq⟩
  rw [same] at mem
  have quotable := mem_of_mem_take mem
  apply physicalLines_no_return text
  unfold quotableLines at quotable
  split at quotable
  · exact dropLast_subset _ quotable
  · exact quotable

end Token

/-- A quoted line between two empty margins. Below it a caret marks the offset. -/
def Position.quotation (position : Position) (line : List Char) : String :=
  let number := toString position.line
  let width := max number.length 2
  let margin := String.ofList (List.replicate width ' ')
  margin ++ " |\n" ++ Text.padLeft width number ++ " | " ++ String.ofList line ++ "\n" ++
    margin ++ " | " ++ String.ofList (List.replicate position.offset ' ') ++ "^\n"

namespace Diagnostic

/-- A report without colors, with `quoted` between the message and the advice. -/
def reportWith (diagnostic : Diagnostic) (filename quoted : String) : String :=
  let line := toString diagnostic.position.line
  let column := toString (diagnostic.position.offset + 1)
  let place := s!" {filename}:{line}:{column}\n"
  let title := s!" {diagnostic.kind.heading}: {diagnostic.message}\n"
  let advice := diagnostic.help.elim "" fun help => "\n" ++ adviceLines .plain help
  "\n" ++ (" file:" ++ place) ++ ("error:" ++ title) ++ quoted ++ advice ++ "\n"

lemma excerpt_plain (diag : Diagnostic) (line) :
    diag.excerpt .plain (String.ofList line) = diag.position.quotation line := by
  simp [excerpt, Position.quotation, Palette.plain, padLeft, String.append_assoc]

lemma render_plain {diag : Diagnostic} (own : diag.path = none)
    (counted : 1 ≤ diag.position.line) (contents : Path → String) (source filename) :
    diag.render .plain contents source filename = diag.reportWith filename
      ((lines source.toList)[diag.position.line - 1]?.elim "" diag.position.quotation) := by
  have line : diag.sourceLine? source = (lines source.toList)[diag.position.line - 1]?.map String.ofList := by
    obtain ⟨number, counts⟩ := Nat.exists_eq_add_of_le' counted
    rw [sourceLine?, counts, Nat.add_sub_cancel]
  unfold render reportWith
  rw [own]
  dsimp only
  rw [line]
  -- without colors the pieces of both texts are the same
  cases (lines source.toList)[diag.position.line - 1]? with
  | none => cases diag.help <;> simp [Palette.plain]
  | some text =>
    rw [Option.elim_some, ← excerpt_plain]
    cases diag.help <;> simp [Palette.plain]

lemma tokenize_eq_error (failed : Token.tokenize source = .error diag) :
    (Token.stream source).failure = some diag := by
  unfold Token.tokenize at failed
  dsimp only at failed
  split at failed
  · cases failed
  · rename_i found
    cases failed
    exact found

/-- A diagnostic for a text names a line of it and a place on that line, and the report quotes what
stands at that number among the lines that line feeds end. These are the physical lines, save an empty
one at the end, exactly as long as none of them has a carriage return in it. -/
theorem reports_quote_the_line_they_name {source : String} {diagnostic : Diagnostic}
    (failed : Token.tokenize source = .error diagnostic ∨ Document.parse source = .error diagnostic)
    (contents : Path → String) (filename : String) :
    diagnostic.path = none ∧ 1 ≤ diagnostic.position.line ∧
      (∃ line, (Token.physicalLines source.toList)[diagnostic.position.line - 1]? = some line ∧
        diagnostic.position.offset ≤ line.length) ∧
      diagnostic.render .plain contents source filename = diagnostic.reportWith filename
        ((Text.lines source.toList)[diagnostic.position.line - 1]?.elim "" diagnostic.position.quotation) ∧
      ((Text.lines source.toList).take diagnostic.position.line =
          (Token.quotableLines source.toList).take diagnostic.position.line ↔
        ∀ line ∈ (Text.lines source.toList).take diagnostic.position.line, '\r' ∉ line) := by
  obtain ⟨own, cursor, reached, place⟩ :
      diagnostic.path = none ∧ (Cursor.ofText source).Visits diagnostic.position := by
    rcases failed with read | parsed
    · have found := tokenize_eq_error read
      obtain ⟨cause, position, -, rfl⟩ := Document.stream_failure_lexical found
      exact ⟨rfl, Token.failure_visited found⟩
    · exact ⟨(Document.parse_error_textual parsed).1, Document.parse_visited parsed⟩
  obtain ⟨counted, before, first, more, -, lines, offset⟩ :=
    (Token.tracks_start source).reaches reached
  rw [place] at counted lines offset
  refine ⟨own, counted, ⟨before ++ first, ?_, ?_⟩, render_plain own counted contents source filename,
    Token.take_lines_eq_iff _ _⟩
  · rw [← List.head?_drop, lines]
    rfl
  · rw [← offset, List.length_append]
    exact Nat.le_add_right _ _

def strayStar : Diagnostic :=
  (Cause.unexpectedAtLineStart '*').diagnose ⟨2, 0⟩

/-- The line is quoted behind a pair and not found behind a carriage return. -/
theorem lone_return_hides_the_line :
    (Token.tokenize "p\r\n*" = .error strayStar ∧ ['*'] ∈ Token.quotableLines "p\r\n*".toList ∧
      strayStar.render .plain (fun _ => "") "p\r\n*" "a.pug" =
        strayStar.reportWith "a.pug" "   |\n 2 | *\n   | ^\n") ∧
    Token.tokenize "p\r*" = .error strayStar ∧ ['*'] ∈ Token.quotableLines "p\r*".toList ∧
      strayStar.render .plain (fun _ => "") "p\r*" "a.pug" = strayStar.reportWith "a.pug" "" := by
  have quoted : Token.tokenize "p\r\n*" = .error strayStar := by decide +kernel
  have lost : Token.tokenize "p\r*" = .error strayStar := by decide +kernel
  obtain ⟨-, -, -, shown, -⟩ := reports_quote_the_line_they_name (.inl quoted) (fun _ => "") "a.pug"
  obtain ⟨-, -, -, bare, -⟩ := reports_quote_the_line_they_name (.inl lost) (fun _ => "") "a.pug"
  refine ⟨⟨quoted, by decide, ?_⟩, lost, by decide, bare⟩
  rw [shown]
  exact congrArg _ (by decide +kernel)

end Diagnostic

end PugTemplate
