import PugTemplate.Proofs.Structure

/-!
# Where tokens stand

The places of a line as the states of an automaton, and the tokens that lead from one to another.
The tokens of every template take this course: attributes stand before content, content before the
end of the line, and no line begins deeper below one that is sealed.
-/

namespace PugTemplate

def TokenKind.isShorthand : TokenKind → Bool
  | classShorthand _ | idShorthand _ => true
  | _ => false

namespace Token

inductive Spot where
  /-- Before a segment or a line. No deeper line begins where the line before is sealed. -/
  | edge (sealed : Bool)
  /-- Behind a head and some of its parts. -/
  | head (kind : TokenKind)
  /-- Behind the name of an assignment. -/
  | assigned (kind : TokenKind)
  /-- Inside an attribute list. -/
  | list (kind : TokenKind)
  /-- Behind the content of a head, or behind a segment that is only content. -/
  | filled (kind : TokenKind)
  deriving DecidableEq, Repr

/-- The segment that a kind of token began may end here. -/
inductive Spot.Behind (kind : TokenKind) : Spot → Prop
  | head : Behind kind (.head kind)
  | filled : Behind kind (.filled kind)

inductive Leads : Spot → TokenKind → Spot → Prop
  | indent : Leads (.edge false) .indent (.edge true)
  | outdent : Leads (.edge sealed) .outdent (.edge true)
  | emptySegment : Leads (.edge sealed) .newLine (.edge true)
  | head {sealed kind} (isHead : kind.isHead) : Leads (.edge sealed) kind (.head kind)
  | inline {sealed kind} (isInline : kind.isInline) : Leads (.edge sealed) kind (.filled kind)
  | shorthand {kind part} (isShorthand : part.isShorthand) : Leads (.head kind) part (.head kind)
  | assignment {kind} (name : String) : Leads (.head kind) (.assignment name) (.assigned kind)
  | list {kind} : Leads (.head kind) .attributeStart (.list kind)
  | assignedList {kind} : Leads (.assigned kind) .attributeStart (.list kind)
  | entry {kind} (entry : Attribute) : Leads (.list kind) (.attr entry) (.list kind)
  | listEnd {kind} : Leads (.list kind) .attributeEnd (.head kind)
  | selfClosing {kind} : Leads (.head kind) .selfClosing (.filled kind)
  | content {kind inner} (isInline : inner.isInline)
      (held : kind.holds inner) : Leads (.head kind) inner (.filled kind)
  | colon {kind spot} (behind : spot.Behind kind)
      (expands : kind.expands) : Leads spot .expansion (.edge true)
  | lineEnd {kind spot} (behind : spot.Behind kind) : Leads spot .newLine (.edge kind.isFilter)

inductive Course : Spot → List Token → Spot → Prop
  | nil : Course spot [] spot
  | cons {spot next final token more}
      (leads : Leads spot token.kind next) (rest : Course next more final) :
      Course spot (token :: more) final

lemma Course.append {first} (early : Course spot first middle)
    (late : Course middle second final) : Course spot (first ++ second) final := by
  induction early with
  | nil => exact late
  | cons leads rest ih => exact .cons leads (ih late)

lemma Course.single {spot next token} (leads : Leads spot token.kind next) : Course spot [token] next :=
  .cons leads .nil

variable {tokens : List Token}

lemma IsList.course (isList : IsList tokens) {kind}
    (opens : Leads spot .attributeStart (.list kind)) : Course spot tokens (.head kind) := by
  obtain ⟨opening, entries, closing, rfl, areEntries⟩ := isList
  have inside : Course (.list kind) entries (.list kind) := by
    induction entries with
    | nil => exact .nil
    | cons entry more ih =>
      obtain ⟨written, isEntry⟩ := areEntries entry (by simp)
      have leads : Leads (.list kind) entry.kind (.list kind) := by
        rw [isEntry]
        exact .entry written
      exact .cons leads (ih fun other mem => areEntries other (by simp [mem]))
  exact .cons opens (inside.append (.single .listEnd))

lemma Part.course (part : Part tagged tokens) (kind) : Course (.head kind) tokens (.head kind) := by
  cases part with
  | classShorthand | idShorthand => exact .single (.shorthand rfl)
  | list isList => exact isList.course .list
  | assignment isTagged name pos isList =>
    exact .cons (.assignment name) (isList.course .assignedList)

lemma Parts.course (parts : Parts tagged tokens) (kind) : Course (.head kind) tokens (.head kind) := by
  induction parts with
  | nil => exact .nil
  | cons part more ih => exact (part.course kind).append ih

lemma Content.course {kind} (content : Content kind tokens) :
    ∃ spot, spot.Behind kind ∧ Course (.head kind) tokens spot := by
  cases content with
  | nothing => exact ⟨_, .head, .nil⟩
  | selfClosing isTagged pos => exact ⟨_, .filled, .single .selfClosing⟩
  | inline isInline held => exact ⟨_, .filled, .single (.content isInline held)⟩

lemma Segmented.course (segmented : Segmented tokens) (written : tokens ≠ []) (sealed) :
    ∃ first ∈ tokens.head?, ∃ spot, spot.Behind first.kind ∧ Course (.edge sealed) tokens spot := by
  cases segmented with
  | bare => exact absurd rfl written
  | @inline token isInline => exact ⟨token, rfl, _, .filled, .single (.inline isInline)⟩
  | @headed head parts content isHead hasParts listed hasContent =>
    obtain ⟨spot, behind, course⟩ := hasContent.course
    exact ⟨head, rfl, spot, behind, .cons (.head isHead) ((hasParts.course _).append course)⟩

lemma Joined.course (joined : Joined tokens sealed) (before pos) :
    Course (.edge before) (tokens ++ [⟨.newLine, pos⟩]) (.edge sealed) := by
  induction joined generalizing before with
  | @last tokens segmented =>
    by_cases nothing : tokens = []
    · rw [nothing]
      exact .single .emptySegment
    · obtain ⟨first, isFirst, spot, behind, course⟩ := segmented.course nothing before
      have seals : seals tokens = first.kind.isFilter := by
        rw [Token.seals, isFirst]
        rfl
      rw [seals]
      exact course.append (.single (.lineEnd behind))
  | @expand tokens more sealed segmented expands colon rest ih =>
    obtain ⟨first, isFirst, spot, behind, course⟩ := segmented.course (written_of_expandable expands) before
    have firstExpands : first.kind.expands := by
      rw [expandable, isFirst] at expands
      exact expands
    rw [List.append_assoc]
    exact course.append (.cons (.colon behind firstExpands) (ih true))

lemma outdents_course (outdents : ∀ token ∈ tokens, token.kind = .outdent) (sealed) :
    ∃ after, Course (.edge sealed) tokens (.edge after) := by
  induction tokens generalizing sealed with
  | nil => exact ⟨sealed, .nil⟩
  | cons token more ih =>
    obtain ⟨after, course⟩ := ih (fun other mem => outdents other (by simp [mem])) true
    have leads : Leads (.edge sealed) token.kind (.edge true) := by
      rw [outdents token (by simp)]
      exact .outdent
    exact ⟨after, .cons leads course⟩

lemma Moves.course {kinds} (moves : Moves levels width kinds after)
    (shallow : sealed = true → width ≤ levels.headD 0) (pos) :
    ∃ behind, Course (.edge sealed) (kinds.map (⟨·, pos⟩)) (.edge behind) := by
  cases moves with
  | opens deeper =>
    cases sealed with
    | true => exact absurd (shallow rfl) (Nat.not_le_of_lt deeper)
    | false => exact ⟨true, .single .indent⟩
  | closes split deeper reached =>
    apply outdents_course
    intro token mem
    obtain ⟨kind, isOutdent, rfl⟩ := List.mem_map.1 mem
    exact List.eq_of_mem_replicate isOutdent

lemma Outlined.course (outlined : Outlined levels sealed lines final) :
    ∃ after, Course (.edge sealed) (lines.flatMap Line.tokens) (.edge after) := by
  induction outlined with
  | nil => exact ⟨_, .nil⟩
  | @cons levels middle final sealed line lines moves shallow joined rest ih =>
    obtain ⟨behind, moved⟩ := moves.course shallow line.start
    obtain ⟨after, later⟩ := ih
    refine ⟨after, ?_⟩
    rw [List.flatMap_cons, Line.tokens, List.append_assoc (line.moves.map _)]
    exact (moved.append (joined.course behind line.finish)).append later

lemma stream_course (source) : ∃ after, Course (.edge false) (stream source).tokens (.edge after) := by
  obtain ⟨lines, final, closing, outlined, tokens, closes, _⟩ := stream_outlined source
  obtain ⟨middle, course⟩ := outlined.course
  obtain ⟨after, closed⟩ := outdents_course closes.outdents middle
  rw [tokens]
  exact ⟨after, course.append closed⟩

end Token

end PugTemplate
