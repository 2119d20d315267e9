import PugTemplate.Proofs.LineBreaks

/-!
# Templates with other line ends

A template gives the same tokens at the same positions whatever its lines end with. Only values and
subjects that run over several lines keep the line ends they are written with. A template that is at
fault is so for the same kind of reason and at the same position.
-/

namespace PugTemplate

open Text List

/-- The text with all its line feeds replaced. -/
def LineBreak.text (ending : LineBreak) (text : String) : String :=
  String.ofList (ending.translate text.toList)

lemma LineBreak.text_ofList (ending : LineBreak) (text) :
    ending.text (String.ofList text) = String.ofList (ending.translate text) := by
  rw [LineBreak.text, String.toList_ofList]

def Attribute.translate (ending : LineBreak) (entry : Attribute) : Attribute :=
  { entry with value := entry.value.map ending.text }

def Echo.translate (ending : LineBreak) (echo : Echo) : Echo :=
  { echo with value := ending.text echo.value }

/-- The statement with the line ends of its subject replaced. -/
def Statement.translate (ending : LineBreak) : Statement → Statement
  | .binding name value => .binding name (ending.text value)
  | .conditional kind subject => .conditional kind (subject.map ending.text)
  | .caseOf subject => .caseOf (ending.text subject)
  | .branch subject => .branch (subject.map ending.text)
  | .each item key subject => .each item key (ending.text subject)
  | .whileLoop subject => .whileLoop (ending.text subject)
  | .forLoop subject => .forLoop (ending.text subject)
  | line => line

def TokenKind.translate (ending : LineBreak) : TokenKind → TokenKind
  | .attr entry => .attr (entry.translate ending)
  | .expression echo => .expression (echo.translate ending)
  | .statement line => .statement (line.translate ending)
  | kind => kind

/-- The token with the line ends of its value or subject replaced. -/
def Token.translate (ending : LineBreak) (token : Token) : Token :=
  ⟨token.kind.translate ending, token.position⟩

lemma Statement.translate_eq (ending : LineBreak) (line : Statement) :
    line.translate ending = line.reword ending.text := by
  cases line <;> rfl

lemma TokenKind.translate_name (ending : LineBreak) (kind : TokenKind) :
    (kind.translate ending).name = kind.name := by
  cases kind with
  | statement line => cases line <;> rfl
  | _ => rfl

namespace Token

open Cursor

/-- Diagnostics of the same kind at the same position. -/
structure SameFault (diagnostic diagnostic' : Diagnostic) : Prop where
  kind : diagnostic'.kind = diagnostic.kind
  position : diagnostic'.position = diagnostic.position

lemma fields_inside {separates front text first more} (inside : ∀ c ∈ front, separates c = false)
    (pieces : fields separates text = first :: more) :
    fields separates (front ++ text) = (front ++ first) :: more := by
  induction front with
  | nil => exact pieces
  | cons c front ih =>
    have later := ih (forall_mem_cons.1 inside).2
    rw [cons_append, fields, if_neg (by simp [inside c mem_cons_self]), later]
    rfl

lemma fields_between (between : ∀ c ∈ front, separates c)
    (text) : fields separates (front ++ text) = replicate front.length [] ++ fields separates text := by
  induction front with
  | nil => rfl
  | cons c front ih =>
    have later := ih (forall_mem_cons.1 between).2
    rw [cons_append, fields, if_pos (between c mem_cons_self), later]
    rfl

section Pieces

variable (ending : LineBreak)

lemma fields_translate (feed : separates '\n' = false) (carriage : separates '\r' = false)
    (text) : fields separates (ending.translate text) = (fields separates text).map ending.translate := by
  have alike := ending.spell_alike (carriage.trans feed.symm)
  induction text with
  | nil => rfl
  | cons c rest ih =>
    obtain ⟨first, more, pieces⟩ := exists_cons_of_ne_nil (Interpolation.fields_ne_nil separates rest)
    rw [pieces] at ih
    cases separated : separates c with
    | true =>
      have plain : c ≠ '\n' := by
        rintro rfl
        rw [feed] at separated
        cases separated
      rw [ending.translate_inside plain, fields, if_pos separated, ih, fields, if_pos separated, pieces]
      rfl
    | false =>
      have joined : fields separates (c :: rest) = (c :: first) :: more :=
        @fields_inside separates [c] rest first more (by simpa using separated) pieces
      rw [ending.translate_cons, joined, fields_inside (fun d mem => (alike c d mem).trans separated) ih, map_cons,
        ending.translate_cons]

lemma words_translate : words (ending.translate text) = words text := by
  have pieces : ∃ first more more', fields isBlank text = first :: more ∧
      fields isBlank (ending.translate text) = first :: more' ∧
      more'.filter (fun word => !word.isEmpty) = more.filter fun word => !word.isEmpty := by
    induction text with
    | nil => exact ⟨[], [], [], rfl, rfl, rfl⟩
    | cons c rest ih =>
      obtain ⟨first, more, more', here, here', same⟩ := ih
      rw [ending.translate_cons]
      cases blank : isBlank c with
      | true =>
        obtain ⟨d, others, shape⟩ := exists_cons_of_ne_nil (ending.spell_ne_nil c)
        have areBlank : ∀ d ∈ ending.spell c, isBlank d := fun d mem =>
          (ending.blank_alike c d mem).trans blank
        refine ⟨[], first :: more, replicate others.length [] ++ first :: more', ?_, ?_, ?_⟩
        · rw [fields, if_pos blank, here]
        · rw [fields_between areBlank, here', shape]
          rfl
        · simp [filter_cons, same]
      | false =>
        have plain : c ≠ '\n' := by
          rintro rfl
          cases blank
        have inside : ∀ d ∈ [c], isBlank d = false := by simpa using blank
        refine ⟨c :: first, more, more', ?_, ?_, same⟩
        · exact fields_inside inside here
        · rw [ending.spell_plain plain]
          exact fields_inside inside here'
  obtain ⟨first, more, more', here, here', same⟩ := pieces
  rw [words, words, here, here', filter_cons, filter_cons, same]

lemma bareValues_translate (text) :
    bareValues (ending.translate text) = (bareValues text).map ending.translate := by
  unfold bareValues
  dsimp only
  rw [words_translate]
  split
  · rename_i several
    have plain : ∀ word ∈ words text, ending.translate word = word := by
      intro word mem
      have named := all_eq_true.1 (Bool.and_eq_true_iff.1 several).2 word mem
      apply ending.translate_plain
      intro feed
      have isName := all_eq_true.1 (Bool.and_eq_true_iff.1 named).2 '\n' feed
      cases isName
    exact ((map_congr_left plain).trans (map_id _)).symm
  · rfl

section

variable {word : List Char} (plain : ∀ c ∈ word, isLineEnd c = false) (written : word ≠ [])

include plain written

lemma isPrefixOf_lineEnd (isEnd : isLineEnd c) (text) : word.isPrefixOf (c :: text) = false := by
  obtain ⟨d, more, rfl⟩ := exists_cons_of_ne_nil written
  have inside := plain d mem_cons_self
  have other : (d == c) = false := by
    apply beq_false_of_ne
    rintro rfl
    rw [isEnd] at inside
    cases inside
  rw [isPrefixOf, other, Bool.false_and]

omit ending in
lemma splitOnce_ends {front} (ends : ∀ c ∈ front, isLineEnd c)
    (text) : splitOnce word (front ++ text) =
      (splitOnce word text).map fun parts => (front ++ parts.1, parts.2) := by
  induction front with
  | nil => simp
  | cons c front ih =>
    have noWord := isPrefixOf_lineEnd plain written (ends c mem_cons_self) (front ++ text)
    rw [cons_append, splitOnce, if_neg (by simp [noWord]), ih (forall_mem_cons.1 ends).2, Option.map_map]
    rfl

lemma splitOnce_translate (text) : splitOnce word (ending.translate text) =
      (splitOnce word text).map fun parts => (ending.translate parts.1, ending.translate parts.2) := by
  induction text with
  | nil =>
    rw [ending.translate_nil, splitOnce, if_neg (by simpa using written)]
    rfl
  | cons c rest ih =>
    by_cases isFeed : c = '\n'
    · subst isFeed
      have single := @splitOnce_ends word plain written ['\n'] (by simp [isLineEnd]) rest
      rw [singleton_append] at single
      rw [ending.translate_cons, splitOnce_ends plain written ending.feed_ends, ih, single,
        Option.map_map, Option.map_map]
      congr 1
    · have shape := ending.translate_inside isFeed rest
      have same := ending.translate_isPrefixOf plain (c :: rest)
      rw [shape] at same ⊢
      rw [splitOnce, splitOnce, same]
      split
      · rename_i starts
        obtain ⟨more, split⟩ := isPrefixOf_iff_prefix.1 starts
        rw [← shape, ← split, ending.translate_append, ending.translate_noEnds plain, drop_left, drop_left]
        rfl
      · rw [ih, Option.map_map, Option.map_map]
        congr 1
        funext parts
        simp only [Function.comp_apply, ending.translate_inside isFeed]

end

omit ending in
lemma variableName_lineEnd (mem : c ∈ name) (isEnd : isLineEnd c) : variableName? name = none := by
  simp only [isLineEnd, Bool.or_eq_true, beq_iff_eq] at isEnd
  have noName : isIdentifierChar c = false ∧ c ≠ '$' := by
    rcases isEnd with rfl | rfl
    · decide
    · decide
  have bare : c ∈ (if name.head? == some '$' then name.drop 1 else name) := by
    split
    · rename_i dollar
      obtain ⟨rest, rfl⟩ := head?_eq_some_iff.1 (beq_iff_eq.1 dollar)
      exact (mem_cons.1 mem).resolve_left noName.2
    · exact mem
  apply if_neg
  intro named
  have isName := all_eq_true.1 (Bool.and_eq_true_iff.1 named).2 c bare
  rw [noName.1] at isName
  cases isName

lemma variableName_translate : variableName? (ending.translate name) = variableName? name := by
  by_cases feed : '\n' ∈ name
  · have carriage : '\r' ∈ ending.translate name := mem_flatMap.2 ⟨'\n', feed, by cases ending <;> decide⟩
    rw [variableName_lineEnd feed rfl, variableName_lineEnd carriage rfl]
  · rw [ending.translate_plain feed]

lemma eachStatement_translate : eachStatement? (ending.translate subject) =
    (eachStatement? subject).map (Statement.translate ending) := by
  have plain : " in ".toList.all (fun c => !isLineEnd c) = true := rfl
  have inside : ∀ c ∈ " in ".toList, isLineEnd c = false := by simpa using plain
  unfold eachStatement?
  rw [splitOnce_translate ending inside (by simp)]
  cases splitOnce " in ".toList subject with
  | none => rfl
  | some parts =>
    have names : (fields (· == ',') (ending.translate parts.1)).map
        (fun name => variableName? (trim name)) =
          (fields (· == ',') parts.1).map fun name => variableName? (trim name) := by
      rw [fields_translate ending rfl rfl, map_map]
      congr 1
      funext name
      rw [Function.comp_apply, ending.translate_trim, variableName_translate]
    dsimp only [Option.map_some, Option.bind_eq_bind, Option.bind_some]
    rw [names, ending.translate_trim, ending.translate_isEmpty]
    split
    · rfl
    · split
      iterate 2
        · exact congrArg (fun collection => some (Statement.each _ _ collection)) (ending.text_ofList _).symm
      · rfl

end Pieces

/-- Streams with corresponding tokens that end with the same kind of fault, if any. -/
structure StreamTranslates (ending : LineBreak) (stream stream' : Stream) : Prop where
  tokens : stream'.tokens = stream.tokens.map (Token.translate ending)
  failure : Option.Rel SameFault stream.failure stream'.failure

/-- The texts of a template whose line feeds are replaced. -/
def wording (ending : LineBreak) : Wording where
  text := ending.translate
  isEmpty := ending.translate_isEmpty
  trim := ending.translate_trim
  doubled := fun front back => by
    rw [ending.translate_append, ending.translate_inside (by decide), ending.translate_inside (by decide)]
  values := bareValues_translate ending
  loop := fun subject => by
    rw [eachStatement_translate]
    exact congrArg (Option.map · _) (funext fun line => line.translate_eq ending)

/-- The places of a template and of what it is with other line ends. -/
def pairing (ending : LineBreak) (whole : List Char) : Pairing where
  words := wording ending
  cursors := Translates ending whole
  positions := fun position position' => position' = position
  bound := none

variable {ending : LineBreak} {whole : List Char}

lemma read_alike {α : Type} {change} {result result' : Except ReadFailure (α × Cursor)}
    (read : Concurs (fun failure failure' => failure'.error = failure.error)
      (fun read read' => read'.1 = change read.1 ∧ Translates ending whole read.2 read'.2) result result') :
    Concurs (pairing ending whole).Faults ((pairing ending whole).SameRead change)
      (result.mapError fun failure => failure.error.diagnose)
      (result'.mapError fun failure => failure.error.diagnose) := by
  cases read with
  | ok paired => exact .ok ⟨paired.1, paired.2⟩
  | error sameError =>
    have same := congrArg Cursor.ReadError.diagnose sameError
    exact .error ⟨congrArg Diagnostic.kind same, congrArg Diagnostic.position same⟩

/-- A template and what it is with other line ends correspond in all they say. -/
def correspondence {ending : LineBreak} {whole : List Char} (suits : ending.Suits whole) :
    Correspondence where
  toPairing := pairing ending whole
  place := Translates.position
  step := by
    intro cursor cursor' (same : Translates ending whole cursor cursor')
    have ended : ∀ {cursor : Cursor}, (∀ c ∈ cursor.peek, isLineEnd c = true) →
        cursor.atLineEnd = true := fun {cursor} ends => (atLineEnd_iff cursor).2 ends
    rcases same.peek_cases with ⟨here, here'⟩ | ⟨c, noFeed, here, here'⟩ | ⟨here, here'⟩
    · exact .inl ⟨ended (by simp [here]), ended (by simp [here'])⟩
    · have noReturn : c ≠ '\r' := by
        rintro rfl
        obtain ⟨more, text⟩ := head?_eq_some_iff.1 here
        exact (suits.suffix same.within).noReturn (by simp [text])
      exact .inr ⟨c, by simp [isLineEnd, noFeed, noReturn], here, here', same.advance suits here noFeed⟩
    · exact .inl ⟨ended (by simp [here, isLineEnd]), ended (by simp [here', isLineEnd])⟩
  shorter := fun same further => Translates.shorter_iff same further
  upTo := fun same further reaches => Translates.upTo same reaches further
  gap := fun keep same alike _ => (Translates.readWhile same suits keep alike).2
  line := fun breaks same carriage feed _ => by
    rw [readBalanced_eq, readBalanced_eq]
    exact read_alike (Translates.readExpression same suits (carriage.trans feed.symm))
  value := fun same _ => by
    rw [readBalanced_eq, readBalanced_eq]
    exact read_alike (Translates.readExpression same suits rfl)
  string := fun same _ _ => read_alike (Translates.readString same suits)

lemma correspondence_whole (suits : ending.Suits whole) : (correspondence suits).Whole where
  bound := rfl
  atEnd := Translates.atEnd
  skipBlankLines := fun same => Translates.skipBlankLines same suits
  skipLineEnd := fun same => Translates.skipLineEnd same suits
  readBlock := by
    intro cursor cursor' width same ended
    obtain ⟨block, rest, rest', here, here', further⟩ := Translates.readBlock same suits width ended
    rw [here, here']
    exact ⟨rfl, further⟩

lemma lexLines_translates (suits : ending.Suits whole) {cursor'}
    (same : Translates ending whole cursor cursor') (indentation) :
    StreamTranslates ending (lexLines indentation cursor) (lexLines indentation cursor') := by
  obtain ⟨tokens, failure⟩ := (correspondence_whole suits).lexLines same indentation
  have translated : List.Forall₂ (fun token token' => token.translate ending = token')
      (lexLines indentation cursor).tokens (lexLines indentation cursor').tokens := by
    refine tokens.imp fun token token' paired => ?_
    obtain ⟨kind, pos⟩ := token'
    cases paired.position
    exact congrArg (Token.mk · _) paired.kind.symm
  rw [← forall₂_map_left_iff, forall₂_eq_eq_eq] at translated
  refine ⟨translated.symm, ?_⟩
  generalize (lexLines indentation cursor).failure = found at failure ⊢
  generalize (lexLines indentation cursor').failure = found' at failure ⊢
  cases failure with
  | none => exact .none
  | some same => exact .some ⟨same.kind, same.position⟩

/-- The tokens of a template do not depend on how its lines end. With carriage returns, or with
carriage returns and line feeds, in place of the line feeds it is tokenized exactly if it was before.
The tokens then have the same kinds and positions, and the same fields except for the line ends inside
their values and subjects; a fault has the same kind and position. A line feed right behind a backslash
must not become two characters, since the backslash protects only the first of them. -/
theorem line_ends_do_not_matter (ending : LineBreak) (source : String)
    (noReturn : '\r' ∉ source.toList)
    (unprotected : ending = .pair → ¬ ['\\', '\n'] <:+: source.toList) :
    Concurs SameFault
      (fun tokens tokens' => tokens' = tokens.map (Token.translate ending) ∧
        tokens'.map (fun token => token.kind.name) = tokens.map (fun token => token.kind.name) ∧
        tokens'.map Token.position = tokens.map Token.position)
      (tokenize source) (tokenize (ending.text source)) := by
  have spelled : (ending.text source).toList = ending.translate source.toList := String.toList_ofList
  have same : Translates ending source.toList (ofText source) (ofText (ending.text source)) := by
    rw [ofText, ofText, spelled]
    exact ⟨List.suffix_rfl, rfl, rfl⟩
  have streams := lexLines_translates ⟨noReturn, unprotected⟩ same .none
  unfold tokenize stream
  dsimp only
  generalize lexLines .none (ofText source) = result at streams ⊢
  generalize lexLines .none (ofText (ending.text source)) = result' at streams ⊢
  obtain ⟨tokens, failure⟩ := result
  obtain ⟨tokens', failure'⟩ := result'
  obtain ⟨translated, failures⟩ := streams
  dsimp only at translated failures
  subst translated
  cases failures with
  | none =>
    refine .ok ⟨rfl, ?_, ?_⟩
    · rw [List.map_map]
      exact List.map_congr_left fun token _ => token.kind.translate_name ending
    · rw [List.map_map]
      rfl
  | some sameFault => exact .error sameFault

/-- A value and a subject that run over two lines. -/
theorem pairs_end_lines_alike :
    ('\r' ∉ "a(x=[1,\n2])\np= f(\n3)\n".toList ∧
      ¬ ['\\', '\n'] <:+: "a(x=[1,\n2])\np= f(\n3)\n".toList) ∧
    Concurs SameFault
      (fun tokens tokens' => tokens' = tokens.map (Token.translate .pair) ∧
        tokens'.map (fun token => token.kind.name) = tokens.map (fun token => token.kind.name) ∧
        tokens'.map Token.position = tokens.map Token.position)
      (tokenize "a(x=[1,\n2])\np= f(\n3)\n")
      (tokenize (LineBreak.pair.text "a(x=[1,\n2])\np= f(\n3)\n")) := by
  have noReturn : '\r' ∉ "a(x=[1,\n2])\np= f(\n3)\n".toList := by decide
  have unprotected : ¬ ['\\', '\n'] <:+: "a(x=[1,\n2])\np= f(\n3)\n".toList := by
    simp [List.infix_cons_iff]
  exact ⟨⟨noReturn, unprotected⟩, line_ends_do_not_matter .pair _ noReturn fun _ => unprotected⟩

end Token

end PugTemplate
