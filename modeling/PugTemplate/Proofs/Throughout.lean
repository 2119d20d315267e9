import PugTemplate.Document.Builder
import PugTemplate.Document.Tree
import PugTemplate.Proofs.Interpolation

/-!
# Trees with their inline tags

Text may hold inline tags, which are templates of their own. A property holds throughout a tree
if it holds of all its nodes and, in turn, throughout the documents of the inline tags in its
texts. For a property that can be tested there is a test of the whole.
-/

namespace PugTemplate

namespace Tree

/-- Whether a node is a text that holds an inline tag. -/
def HoldsTag (tree : Tree) (snippet : String) : Prop :=
  ∃ value pieces, tree.kind = .text value false ∧
    Interpolation.segments value.toList = .ok pieces ∧ .tag snippet ∈ pieces

/-- A property of a node, of all nodes below it, and so on for the documents of the inline tags
in their texts. -/
inductive Throughout (property : Tree → Prop) : Tree → Prop where
  | intro (here : property tree) (below : ∀ child ∈ tree.children, Throughout property child)
      (inline : ∀ snippet doc, tree.HoldsTag snippet → Document.parse snippet = .ok doc →
        Throughout property doc.tree) : Throughout property tree

variable {snippet : String}

namespace Throughout

variable {prop : Tree → Prop} {tree : Tree} (throughout : tree.Throughout prop)

include throughout

lemma at_node : prop tree := by
  cases throughout with
  | intro here below inline => exact here

lemma at_child (mem : child ∈ tree.children) : child.Throughout prop := by
  cases throughout with
  | intro here below inline => exact below child mem

lemma at_tag (holds : tree.HoldsTag snippet)
    (parsed : Document.parse snippet = .ok doc) : doc.tree.Throughout prop := by
  cases throughout with
  | intro here below inline => exact inline snippet doc holds parsed

end Throughout

def inlineTags (tree : Tree) : List String :=
  match tree.kind with
  | .text value false =>
    match Interpolation.segments value.toList with
    | .ok pieces => Interpolation.tags pieces
    | .error _ => []
  | _ => []

lemma HoldsTag.listed {tree : Tree} (holds : tree.HoldsTag snippet) : snippet ∈ tree.inlineTags := by
  obtain ⟨value, pieces, kind, apart, tagged⟩ := holds
  unfold inlineTags
  simp only [kind, apart]
  exact Interpolation.mem_tags.2 tagged

mutual

/-- Tests a tree for a property throughout, with a test for the inline tags. -/
def testThroughout (test : Tree → Bool) (testTag : String → Bool) : Tree → Bool
  | .node kind position attributes children =>
    test (.node kind position attributes children) && testEach test testTag children &&
      (inlineTags (.node kind position attributes children)).all testTag

def testEach (test : Tree → Bool) (testTag : String → Bool) : List Tree → Bool
  | [] => true
  | tree :: more => testThroughout test testTag tree && testEach test testTag more

end

/-- Tests the document of an inline tag, with tags nested less than `bound` deep. -/
def testTagWithin (test : Tree → Bool) : Nat → String → Bool
  | 0, _ => false
  | bound + 1, snippet =>
    match Document.parse snippet with
    | .error _ => true
    | .ok doc => testThroughout test (testTagWithin test bound) doc.tree

variable {prop : Tree → Prop} {test : Tree → Bool}

mutual

lemma testThroughout_sound {testTag : String → Bool} (sound : ∀ tree, test tree → prop tree)
    (soundTag : ∀ snippet doc, testTag snippet → Document.parse snippet = .ok doc → doc.tree.Throughout prop) :
    ∀ tree, testThroughout test testTag tree → tree.Throughout prop
  | .node kind pos attrs children, passed => by
    simp only [testThroughout, Bool.and_eq_true, List.all_eq_true] at passed
    obtain ⟨⟨here, below⟩, inline⟩ := passed
    exact .intro (sound _ here) (testEach_sound sound soundTag children below)
      fun snippet doc holds => soundTag snippet doc (inline snippet holds.listed)

lemma testEach_sound {testTag : String → Bool} (sound : ∀ tree, test tree → prop tree)
    (soundTag : ∀ snippet doc, testTag snippet → Document.parse snippet = .ok doc → doc.tree.Throughout prop) :
    ∀ trees, testEach test testTag trees → ∀ tree ∈ trees, tree.Throughout prop
  | [], _ => nofun
  | first :: more, passed => by
    simp only [testEach, Bool.and_eq_true] at passed
    intro tree mem
    rcases List.mem_cons.1 mem with same | mem
    · rw [same]
      exact testThroughout_sound sound soundTag first passed.1
    · exact testEach_sound sound soundTag more passed.2 tree mem

end

lemma testTagWithin_sound (sound : ∀ tree, test tree → prop tree)
    (passed : testTagWithin test bound snippet)
    (parsed : Document.parse snippet = .ok doc) : doc.tree.Throughout prop := by
  induction bound generalizing snippet doc with
  | zero => cases passed
  | succ bound ih =>
    unfold testTagWithin at passed
    rw [parsed] at passed
    exact testThroughout_sound sound (fun _ _ => ih) doc.tree passed

end Tree

end PugTemplate
