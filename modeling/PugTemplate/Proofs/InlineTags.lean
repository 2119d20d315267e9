import PugTemplate.Proofs.Completeness
import PugTemplate.Proofs.Indices
import PugTemplate.Proofs.Segments

/-!
# Inline tags end

An inline tag is parsed when the text around it is written, and its document may hold texts with inline
tags again. No text of a snippet is longer than the snippet, which is shorter than the text that holds
it. So the rendering of inline tags is a recursion that ends.
-/

namespace PugTemplate

open List

lemma Token.stream_text_le (mem : token ∈ (stream source).tokens) (kind : token.kind = .text value) :
    value.length ≤ source.length := by
  obtain ⟨finish, trail⟩ := lexLines_trail .none (.ofText source)
  have short := trail.text_le token (mem_append_left _ mem)
  rw [kind] at short
  rwa [← String.length_toList]

namespace Interpolation

lemma Found.tag_lt (isFound : Found text found) (mem : .tag snippet ∈ found) : snippet.length < text.length := by
  induction isFound with
  | nil => cases mem
  | skipped c more ih => exact (ih mem).trans (Nat.lt_succ_self _)
  | char first c more ih =>
    refine (ih ?_).trans (Nat.lt_succ_self _)
    unfold addChar at mem
    split at mem
    all_goals simpa using mem
  | body sigil close filled short more ih =>
    rcases mem_cons.1 mem with same | later
    · unfold bodySegment at same
      split at same
      · cases same
        rw [String.length_ofList]
        exact Nat.lt_succ_of_le short
      · cases same
    · exact (ih later).trans (Nat.lt_succ_self _)

lemma tag_lt {text : String} (apart : segments text.toList = .ok found) (mem : .tag snippet ∈ found) :
    snippet.length < text.length := by
  rw [← String.length_toList (s := text)]
  exact (segmentsFrom_found apart).tag_lt mem

end Interpolation

/-- A node of a builder was there before, or one of the tokens made it. -/
lemma Builder.run_source {builder after : Builder} {tokens id} (sound : builder.Sound)
    (ok : builder.run tokens = .ok after) (inside : id < after.document.size) : id < builder.document.size ∨
      ∃ token ∈ tokens, token.kind.node? = some (after.document.kind id).unclosed := by
  induction tokens generalizing builder with
  | nil =>
    cases ok
    exact .inl inside
  | cons token more ih =>
    obtain ⟨next, taken, further⟩ := run_cons ok
    have soundNext := step_sound sound taken
    have grows := step_grows sound taken
    rcases ih soundNext further with old | ⟨later, mem, makes⟩
    · have kept := (run_made soundNext further).keeps.kind id old
      unfold Grows at grows
      split at grows
      · exact .inl (grows.2 ▸ old)
      · rename_i made makes
        rw [grows.size] at old
        rcases Nat.lt_succ_iff_lt_or_eq.1 old with earlier | rfl
        · exact .inl earlier
        · refine .inr ⟨token, mem_cons_self, ?_⟩
          rw [kept, grows.kind, makes, TokenKind.node?_unclosed makes]
    · exact .inr ⟨later, mem_cons_of_mem _ mem, makes⟩

lemma Document.parse_texts {id} (parsed : parse source = .ok doc) (inside : id < doc.size)
    (kind : doc.kind id = .text value verbatim) : value.length ≤ source.length := by
  obtain ⟨builder, ran, rfl, -⟩ := parse_eq_ok parsed
  rcases Builder.run_source Builder.start_sound ran inside with isRoot | ⟨token, mem, makes⟩
  · have kept := (Builder.run_made Builder.start_sound ran).keeps.kind id isRoot
    rw [kind, Nat.lt_one_iff.1 isRoot] at kept
    cases kept
  · rw [kind] at makes
    cases written : token.kind with
    | text =>
      rw [written] at makes
      cases makes
      exact Token.stream_text_le mem written
    | _ =>
      rw [written] at makes
      cases makes

/-- An inline tag that is held by a text of the document of another one. -/
def NestedTag (inner outer : String) : Prop :=
  ∃ doc, Document.parse outer = .ok doc ∧ ∃ node ∈ doc.tree.descendants, node.HoldsTag inner

lemma NestedTag.shorter {inner outer} (nested : NestedTag inner outer) : inner.length < outer.length := by
  obtain ⟨doc, parsed, node, mem, value, pieces, kind, apart, tagged⟩ := nested
  have wf := Document.parse_well_formed parsed
  obtain ⟨id, isBelow, rfl⟩ := Document.mem_tree wf mem
  rw [Document.kind_treeAt] at kind
  have short := Document.parse_texts parsed (wf.descendants_inside wf.root_inside isBelow) kind
  exact (Interpolation.tag_lt apart tagged).trans_le short

/-- Every text token of an inline tag is shorter than the text that holds the tag. So tags are not nested
without end, and never deeper than the outermost of them is long. -/
theorem inline_tags_end :
    (∀ text position pieces snippet, Interpolation.interpolate text position = .ok pieces →
      .tag snippet ∈ pieces → ∀ token ∈ (Token.stream snippet).tokens, ∀ value,
        token.kind = .text value → value.length < text.length) ∧
    WellFounded NestedTag ∧
    ∀ snippet nested, List.IsChain (flip NestedTag) (snippet :: nested) → nested.length ≤ snippet.length := by
  refine ⟨?_, Subrelation.wf NestedTag.shorter (InvImage.wf String.length Nat.lt_wfRel.wf), ?_⟩
  · intro text pos pieces snippet apart tagged token mem value kind
    exact (Token.stream_text_le mem kind).trans_lt
      (Interpolation.tag_lt (Emission.segments_of_interpolate apart) tagged)
  · intro snippet nested chain
    induction nested generalizing snippet with
    | nil => exact Nat.zero_le _
    | cons inner more ih =>
      obtain ⟨isNested, deeper⟩ := isChain_cons_cons.1 chain
      exact (Nat.succ_le_succ (ih inner deeper)).trans (NestedTag.shorter isNested)

end PugTemplate
