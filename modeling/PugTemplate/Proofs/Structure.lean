import PugTemplate.Proofs.Nesting

/-!
# The structure of a template

The lexer and the builder fit together: of the faults that a builder can find, only three can
arise from what the lexer reads, and a template that parses leaves no level open. The document
mirrors the indentation of the template.
-/

namespace PugTemplate

open List

variable {closing : List Token} {diagnostic : Diagnostic}

namespace Token

lemma logicalLines_open (inside : ∀ token ∈ closing, token.kind ≠ .newLine) (line) :
    logicalLines line closing = [] := by
  induction closing generalizing line with
  | nil => rfl
  | cons token more ih =>
    obtain ⟨notEnd, later⟩ := forall_mem_cons.1 inside
    rw [logicalLines, beq_false_of_ne notEnd]
    exact ih later _

lemma logicalLines_line (inside : ∀ token ∈ front, token.kind ≠ .newLine)
    (line more pos) : logicalLines line (front ++ ⟨.newLine, pos⟩ :: more) =
      (line ++ front ++ [⟨.newLine, pos⟩]) :: logicalLines [] more := by
  induction front generalizing line with
  | nil => simp [logicalLines]
  | cons token rest ih =>
    obtain ⟨notEnd, later⟩ := forall_mem_cons.1 inside
    rw [cons_append, logicalLines, beq_false_of_ne notEnd]
    have further := ih later (line ++ [token])
    simpa using further

lemma Outlined.logical_lines (outlined : Outlined levels sealed lines final)
    (inside : ∀ token ∈ closing, token.kind ≠ .newLine) :
    logicalLines [] (lines.flatMap Line.tokens ++ closing) = lines.map Line.tokens := by
  induction outlined with
  | nil => exact logicalLines_open inside []
  | @cons levels after final sealed line lines moves shallow joined rest ih =>
    rw [flatMap_cons, map_cons, ← ih, Line.tokens, append_assoc, append_assoc, singleton_append,
      logicalLines_line (Line.no_new_line moves joined)]
    rfl

lemma stream_outlined (source) : ∃ lines final closing, Outlined [] false lines final ∧
    (stream source).tokens = lines.flatMap Line.tokens ++ closing ∧
    Closing (stream source).failure final closing ∧ ∀ line ∈ lines, line.Placed source.toList :=
  lexLines_outlined source.toList .none (Cursor.ofText source) false (tracks_start source)
    (Or.inl rfl) (by simp)

lemma Closing.outdents {failure levels tokens}
    (closing : Closing failure levels tokens) : ∀ token ∈ tokens, token.kind = .outdent := by
  cases failure with
  | none =>
    obtain ⟨pos, rfl⟩ := closing
    intro token mem
    obtain ⟨level, _, rfl⟩ := mem_map.1 mem
    rfl
  | some diagnostic =>
    rw [closing.1]
    simp

end Token

namespace Builder

open Document Token

lemma start_boundary (follows) : Boundary [] [] follows root start where
  fresh := ⟨start_sound, rfl, rfl, rfl⟩
  framed := .root
  settled := fun _ => ⟨rfl, rfl⟩
  hanging := by simp [start]

/-- Behind the last line the open levels are closed, if the lexer did not fail. -/
theorem Boundary.close {failure earlier final anchor builder} (boundary : Boundary earlier final false anchor builder)
    (closes : Closing failure final closing) : ∃ next, builder.run closing = .ok next ∧
      (failure = none → next.frames = [] ∧ next.current = root) := by
  cases failure with
  | some diagnostic =>
    rw [closes.1]
    exact ⟨builder, rfl, by simp⟩
  | none =>
    obtain ⟨pos, rfl⟩ := closes
    rw [← append_nil final] at boundary
    obtain ⟨next, reached, ran, further⟩ := boundary.outdents pos
    refine ⟨next, ?_, ?_⟩
    · rw [map_const', ran]
    · intro _
      have framed := further.framed
      rw [(further.settled rfl).1]
      -- no level is open, so the frames can only be those of the root
      generalize next.frames = frames at framed ⊢
      cases framed with
      | root => exact ⟨rfl, rfl⟩

lemma stream_yields (source) : Yields (stream source).tokens (start.run (stream source).tokens) fun builder =>
    AllNested builder.document [] (layout source) ∧
      ((stream source).failure = none → builder.frames = [] ∧ builder.current = root) := by
  obtain ⟨lines, final, closing, outlined, streamed, closes, placed⟩ := stream_outlined source
  have outdents := closes.outdents
  have inside : ∀ token ∈ closing, token.kind ≠ .newLine := by
    intro token mem
    rw [outdents token mem]
    simp
  have level : closing.head?.any isIndent = false := by
    cases closing with
    | nil => rfl
    | cons token more =>
      simp [isIndent, outdents token (by simp)]
  have rowsOf : layout source = rows source.toList start.document.size (lines.map Line.tokens) := by
    rw [layout, streamed, outlined.logical_lines inside]
    rfl
  have within : lines.flatMap Line.tokens <:+: lines.flatMap Line.tokens ++ closing := (prefix_append _ _).isInfix
  -- outdents may be run apart from the lines, since only an indent changes how a line ends
  rw [streamed, rowsOf, run_append_level start _ level]
  apply ((lines_yield outlined placed (start_boundary _)).widen within).bind
  intro middle ran reached
  obtain ⟨⟨earlier, anchor, boundary⟩, nested⟩ := reached
  obtain ⟨next, closed, atRoot⟩ := boundary.close closes
  rw [closed]
  exact ⟨nested.keep (run_made boundary.fresh.sound closed).keeps, atRoot⟩

end Builder

lemma Diagnostic.Lexical.kind (lexical : diagnostic.Lexical) :
    diagnostic.kind ≠ .strayOutdent ∧ diagnostic.kind ≠ .misplacedAttribute ∧
      diagnostic.kind ≠ .unexpectedToken := by
  obtain ⟨cause, pos, stage, rfl⟩ := lexical
  change cause.kind ≠ .strayOutdent ∧ cause.kind ≠ .misplacedAttribute ∧ cause.kind ≠ .unexpectedToken
  cases cause <;> first | (simp [Cause.kind]; done) | cases stage

namespace Document

open Token

variable {source : String}

lemma parse_eq_error (failed : parse source = .error diagnostic) :
    Builder.start.run (stream source).tokens = .error diagnostic ∨ (stream source).failure = some diagnostic := by
  unfold parse ofStream at failed
  split at failed
  · rename_i found
    cases failed
    exact Or.inl found
  · split at failed
    · rename_i found
      cases failed
      exact Or.inr found
    · cases failed

lemma parse_eq_ok (parsed : parse source = .ok doc) :
    ∃ builder, Builder.start.run (stream source).tokens = .ok builder ∧
      builder.document = doc ∧ (stream source).failure = none := by
  unfold parse ofStream at parsed
  split at parsed
  · cases parsed
  · rename_i builder built
    split at parsed
    · cases parsed
    · rename_i noFailure
      cases parsed
      exact ⟨builder, built, rfl, noFailure⟩

lemma stream_failure_lexical (failed : (stream source).failure = some diagnostic) : diagnostic.Lexical := by
  obtain ⟨lines, final, closing, _, _, closes, _⟩ := stream_outlined source
  rw [failed] at closes
  exact closes.2

/-- What the lexer reads has no stray outdent, no attribute without an owner, no attribute list
closed but not opened and nothing to expand for a colon. A call that closes itself is the only
unexpected token. A template that parses closes every level. -/
theorem lexer_and_builder_agree (source : String) :
    (∀ diagnostic, Builder.start.run (stream source).tokens = .error diagnostic →
      Builder.Fault (stream source).tokens diagnostic) ∧
    (∀ diagnostic, parse source = .error diagnostic →
      diagnostic.kind ≠ .strayOutdent ∧ diagnostic.kind ≠ .misplacedAttribute ∧
      (diagnostic.kind = .unexpectedToken → ∃ name place parts position,
        ⟨.statement (.call name), place⟩ :: parts ++ [⟨.selfClosing, position⟩] <:+:
            (stream source).tokens ∧
          Parts true parts ∧ diagnostic = Cause.selfClosingNonElement.diagnose position)) ∧
    ∀ document, parse source = .ok document →
      ∃ builder, Builder.start.run (stream source).tokens = .ok builder ∧
        builder.document = document ∧ builder.frames = [] ∧ builder.current = root := by
  have yields := Builder.stream_yields source
  have faulty : ∀ diagnostic, Builder.start.run (stream source).tokens = .error diagnostic →
      Builder.Fault (stream source).tokens diagnostic := by
    intro diagnostic failed
    rw [failed] at yields
    exact yields
  refine ⟨faulty, ?_, ?_⟩
  · intro diagnostic failed
    rcases parse_eq_error failed with built | read
    · cases faulty diagnostic built with
      | indentWithoutParent position => simp [Cause.diagnose, Cause.kind]
      | indentUnderLeaf position => simp [Cause.diagnose, Cause.kind]
      | selfClosingCall hasParts written =>
        refine ⟨by simp [Cause.diagnose, Cause.kind], by simp [Cause.diagnose, Cause.kind], ?_⟩
        exact fun _ => ⟨_, _, _, _, written, hasParts, rfl⟩
    · obtain ⟨noOutdent, noAttribute, noToken⟩ := (stream_failure_lexical read).kind
      exact ⟨noOutdent, noAttribute, fun isToken => absurd isToken noToken⟩
  · intro document parsed
    obtain ⟨builder, built, same, noFailure⟩ := parse_eq_ok parsed
    rw [built] at yields
    exact ⟨builder, built, same, yields.2 noFailure⟩

/-- A line with attributes, an expansion and a call with arguments, below another line. -/
def callLine : String := "ul\n  li.a(b=1): +item(2).c"

theorem self_closing_call_rejected :
    (∃ diagnostic, parse (callLine ++ "/\n") = .error diagnostic ∧
      ∃ name place parts position,
        ⟨.statement (.call name), place⟩ :: parts ++ [⟨.selfClosing, position⟩] <:+:
            (stream (callLine ++ "/\n")).tokens ∧
          Parts true parts ∧ diagnostic = Cause.selfClosingNonElement.diagnose position) ∧
    ∃ document, parse (callLine ++ "\n") = .ok document ∧
      ∃ builder, Builder.start.run (stream (callLine ++ "\n")).tokens = .ok builder ∧
        builder.document = document ∧ builder.frames = [] ∧ builder.current = root := by
  have rejects : (((parse (callLine ++ "/\n")).map fun _ => FaultKind.unexpectedIndent).tryCatch
      fun diagnostic => .ok diagnostic.kind).toOption = some .unexpectedToken := by
    decide +kernel
  have accepts : (parse (callLine ++ "\n")).isOk = true := by
    decide +kernel
  constructor
  · cases failed : parse (callLine ++ "/\n") with
    | ok document =>
      rw [failed] at rejects
      cases rejects
    | error diagnostic =>
      rw [failed] at rejects
      have agree := (lexer_and_builder_agree (callLine ++ "/\n")).2.1 diagnostic failed
      exact ⟨diagnostic, rfl, agree.2.2 (Option.some.inj rejects)⟩
  · cases parsed : parse (callLine ++ "\n") with
    | error diagnostic =>
      rw [parsed] at accepts
      cases accepts
    | ok document =>
      exact ⟨document, rfl, (lexer_and_builder_agree (callLine ++ "\n")).2.2 document parsed⟩

/-- The first node of a line goes below the innermost node of the nearest line above that is less
indented, and each further node of the line below the one before, which it names as its outer
node. The nodes are those of the tokens, in their order. -/
theorem nodes_mirror_indentation {source : String} {document : Document}
    (parsed : parse source = .ok document) :
    (∀ before row after, layout source = before ++ row :: after →
      Nested document before.reverse row) ∧
    Builder.Made empty document (stream source).tokens := by
  obtain ⟨builder, built, rfl, _⟩ := parse_eq_ok parsed
  have yields := Builder.stream_yields source
  rw [built] at yields
  refine ⟨?_, Builder.run_made Builder.start_sound built⟩
  intro before row after split
  have nested := yields.1
  rw [split] at nested
  have here := nested.at
  rwa [List.append_nil] at here

/-- Lines with expansions, an attribute list over several lines, blocks of text and of a comment,
blank lines and an outdent over two levels. -/
def mixedLines : String :=
  "ul\n  li: a(\n    href='x'\n    ): b text\n\n      | deep\n      p.\n        raw\n         more\n" ++
    "  // note\n    hidden\n\n  li\n    em: i\np\n"

theorem mixed_lines_mirrored : ∃ document, parse mixedLines = .ok document ∧
    Nested document
      [⟨2, [11]⟩, ⟨2, [10]⟩, ⟨6, [8]⟩, ⟨6, [7]⟩, ⟨2, [2, 3, 5]⟩, ⟨0, [1]⟩] ⟨4, [12, 13]⟩ ∧
    Builder.Made empty document (stream mixedLines).tokens := by
  have accepts : (parse mixedLines).isOk = true := by
    decide +kernel
  have rowsOf : layout mixedLines =
      [⟨0, [1]⟩, ⟨2, [2, 3, 5]⟩, ⟨6, [7]⟩, ⟨6, [8]⟩, ⟨2, [10]⟩, ⟨2, [11]⟩] ++
        ⟨4, [12, 13]⟩ :: [⟨0, [14]⟩] := by
    decide +kernel
  cases parsed : parse mixedLines with
  | error diagnostic =>
    rw [parsed] at accepts
    cases accepts
  | ok document =>
    obtain ⟨nested, made⟩ := nodes_mirror_indentation parsed
    exact ⟨document, rfl, nested _ _ _ rowsOf, made⟩

end Document

end PugTemplate
