import PugTemplate.Proofs.Emission
import PugTemplate.Proofs.Throughout

/-!
# Nesting of the generated code

The grammar of well-nested code, over fragments: elements between their tags, blocks of code between
their head and their closing brace, and switches whose labels stand in the code tag of their head. Code
for a document without blocks of literal code belongs to it: whatever siblings leave open is taken up
or closed, and nothing twice.
-/

namespace PugTemplate

open List

namespace Fragment

/-- A fragment that neither opens nor closes anything. -/
def isAtom : Fragment → Bool
  | line _ | text _ | textBreak | echo _ | raw _ | code (.plain _) => true
  | _ => false

mutual

/-- Code in which everything that is opened is closed, in the reverse order. -/
inductive WellNested (dialect : Dialect) : List Fragment → Prop where
  | nothing : WellNested dialect []
  | append {first second} (left : WellNested dialect first)
      (right : WellNested dialect second) : WellNested dialect (first ++ second)
  | atom {fragment} (atom : fragment.isAtom) : WellNested dialect [fragment]
  /-- Only a void element of HTML goes without a slash. -/
  | lone {tag attributes slash}
      (closed : slash = true ∨ Markup.isVoid tag ∧ dialect = .html) :
      WellNested dialect [.loneTag tag attributes slash]
  | element (tag attributes : String) {content}
      (inside : WellNested dialect content) :
      WellNested dialect (.startTag tag attributes :: content ++ [.endTag tag])
  | conditional (condition : String) {content turns}
      (inside : WellNested dialect content) (turned : Turns dialect turns) :
      WellNested dialect (.code (.ifHead condition) :: content ++ turns)
  | loop (head : String) {content} (inside : WellNested dialect content) :
      WellNested dialect (.code (.loopHead head) :: content ++ [.code .close])
  | doLoop (condition : String) {content}
      (inside : WellNested dialect content) :
      WellNested dialect (.code .doHead :: content ++ [.code (.doTail condition)])
  | switch {subject cases} (labelled : Cases dialect false cases) :
      WellNested dialect (.switchHead subject :: cases)

/-- What follows the content of a condition: further conditions, at most one alternative behind
them, and the closing brace. -/
inductive Turns (dialect : Dialect) : List Fragment → Prop where
  | close : Turns dialect [.code .close]
  | elseIf (condition : String) {content turns}
      (inside : WellNested dialect content) (turned : Turns dialect turns) :
      Turns dialect (.code (.elseIfHead condition) :: content ++ turns)
  | otherwise {content} (inside : WellNested dialect content) :
      Turns dialect (.code .elseHead :: content ++ [.code .close])

/-- What follows the head of a switch or a label, inside the code tag, up to the end of the
switch. The content of a branch stands outside the tag, and a break separates it from the next
label. -/
inductive Cases (dialect : Dialect) : Bool → List Fragment → Prop where
  | finish {breaks} : Cases dialect breaks [.switchEnd]
  | label {breaks} (value : Option String) {cases}
      (following : Cases dialect false cases) :
      Cases dialect breaks (Emission.breakBefore breaks ++ .label value :: cases)
  | branch {breaks} (value : Option String) {content cases}
      (inside : WellNested dialect content) (following : Cases dialect true cases) :
      Cases dialect breaks (Emission.breakBefore breaks ++ .label value :: .leave :: content ++ .enter :: cases)

end

end Fragment

/-- A line of literal code stands by itself. -/
def Tree.NoCodeBlock (tree : Tree) : Prop :=
  ∀ value block, tree.kind = .statement (.code value block) → tree.children = []

/-- The test for it. -/
def Tree.testNoCodeBlock (tree : Tree) : Bool :=
  match tree.kind with
  | .statement (.code _ _) => tree.children.isEmpty
  | _ => true

lemma Tree.testNoCodeBlock_sound (tree : Tree) (passed : tree.testNoCodeBlock) : tree.NoCodeBlock := by
  intro value block kind
  unfold testNoCodeBlock at passed
  rw [kind] at passed
  exact List.isEmpty_iff.1 passed

namespace Emission

open Fragment (WellNested Turns Cases)

variable {target : Target} {inlineTag : InlineTag}

variable {value : String} {pos : Position} {depth : Nat} {fragments : List Fragment} {tree : Tree}

lemma segments_of_interpolate (taken : Interpolation.interpolate value pos = .ok segments) :
    Interpolation.segments value.toList = .ok segments := by
  unfold Interpolation.interpolate at taken
  split at taken
  · rename_i pieces apart
    rw [← Except.ok.inj taken]
    exact apart
  · cases taken

lemma emitTextLines_apart (ok : emitTextLines target inlineTag depth pos lines = .ok fragments) :
    ∀ line ∈ lines, ∃ pieces, Interpolation.segments line = .ok pieces := by
  induction lines generalizing pos fragments with
  | nil => nofun
  | cons first more ih =>
    obtain ⟨start, written, ok⟩ := ok_of_bind ok
    obtain ⟨others, following, ok⟩ := ok_of_bind ok
    intro line mem
    rcases mem_cons.1 mem with rfl | mem
    · obtain ⟨segments, taken, written⟩ := ok_of_bind written
      have apart := segments_of_interpolate taken
      rw [String.toList_ofList] at apart
      exact ⟨segments, apart⟩
    · exact ih following line mem

/-- A property of fragments that holds of atoms and of appended fragments. -/
structure Additive (property : List Fragment → Prop) : Prop where
  nothing : property []
  append : ∀ first second, property first → property second → property (first ++ second)
  atom : ∀ fragment : Fragment, fragment.isAtom → property [fragment]

section Texts

variable {prop : List Fragment → Prop} (additive : Additive prop)

include additive

lemma emitSegments_additive (tags : ∀ snippet content, Interpolation.Segment.tag snippet ∈ segments →
      inlineTag snippet pos = .ok content → prop content)
    (ok : emitSegments target inlineTag pos segments = .ok fragments) : prop fragments := by
  induction segments generalizing fragments with
  | nil =>
    cases ok
    exact additive.nothing
  | cons segment more ih =>
    obtain ⟨first, written, ok⟩ := ok_of_bind ok
    obtain ⟨others, following, rfl⟩ := ok_of_pure ok
    apply additive.append
    · cases segment with
      | text | echo =>
        rw [← Except.ok.inj written]
        exact additive.atom _ rfl
      | tag snippet => exact tags snippet first mem_cons_self written
    · apply ih _ following
      intro snippet content mem
      exact tags snippet content (mem_cons_of_mem _ mem)

lemma emitText_additive (tags : ∀ pieces snippet content, Interpolation.segments value.toList = .ok pieces →
      .tag snippet ∈ pieces → inlineTag snippet pos = .ok content → prop content)
    (ok : emitText target inlineTag value pos = .ok fragments) : prop fragments := by
  obtain ⟨segments, taken, ok⟩ := ok_of_bind ok
  exact emitSegments_additive additive
    (fun snippet content => tags segments snippet content (segments_of_interpolate taken)) ok

lemma emitTextLines_additive (tags : ∀ line ∈ lines, ∀ pieces snippet place content,
      Interpolation.segments line = .ok pieces → .tag snippet ∈ pieces →
      inlineTag snippet place = .ok content → prop content)
    (ok : emitTextLines target inlineTag depth pos lines = .ok fragments) : prop fragments := by
  induction lines generalizing pos fragments with
  | nil =>
    cases ok
    exact additive.nothing
  | cons line more ih =>
    obtain ⟨first, written, ok⟩ := ok_of_bind ok
    obtain ⟨others, following, rfl⟩ := ok_of_pure ok
    have lineProperty : prop first := by
      apply emitText_additive additive _ written
      intro pieces snippet content apart
      rw [String.toList_ofList] at apart
      exact tags line mem_cons_self pieces snippet pos content apart
    have rest : prop others := ih (forall_mem_cons.1 tags).2 following
    exact additive.append _ _ (additive.append _ _ (additive.atom (.line depth) rfl) lineProperty) rest

lemma emitTextNode_additive {inline} (tags : ∀ pieces snippet place content, verbatim = false →
      Interpolation.segments value.toList = .ok pieces → .tag snippet ∈ pieces →
      inlineTag snippet place = .ok content → prop content)
    (ok : emitTextNode target inlineTag opened depth inline value verbatim pos =
      .ok fragments) : prop fragments := by
  unfold emitTextNode at ok
  split at ok
  · split at ok
    · rw [← Except.ok.inj ok]
      exact additive.append [_] [_] (additive.atom _ rfl) (additive.atom _ rfl)
    · rename_i notVerbatim
      -- the tags of the lines are tags of the whole text
      obtain ⟨whole, apart, covered⟩ := Interpolation.segments_lines value.toList (emitTextLines_apart ok)
      apply emitTextLines_additive additive _ ok
      intro line mem pieces snippet place content lineApart tagged
      have known := covered line mem pieces lineApart (Interpolation.mem_tags.2 tagged)
      exact tags whole snippet place content (by simpa using notVerbatim) apart
        (Interpolation.mem_tags.1 known)
  · have lead : prop (if opened == .texts then [.textBreak] else []) := by
      split
      · exact additive.atom _ rfl
      · exact additive.nothing
    dsimp only at ok
    split at ok
    · rw [← Except.ok.inj ok]
      exact additive.append _ _ lead (additive.atom _ rfl)
    · rename_i notVerbatim
      obtain ⟨content, written, rfl⟩ := ok_of_pure ok
      apply additive.append _ _ lead
      apply emitText_additive additive _ written
      intro pieces snippet content
      exact tags pieces snippet pos content (by simpa using notVerbatim)

end Texts

lemma wellNested_additive (dialect) : Additive (WellNested dialect) :=
  ⟨.nothing, fun _ _ => .append, fun _ => .atom⟩

lemma lineAt_nested (dialect depth inline) : WellNested dialect (lineAt depth inline) := by
  unfold lineAt
  split
  · exact .nothing
  · exact .atom rfl

lemma whileFollows_visible (visible : tree.isHidden = false) (follows : whileFollows (tree :: more)) :
    ∃ subject, tree.kind = .statement (.whileLoop subject) := by
  unfold whileFollows at follows
  simp only [find?_cons, visible] at follows
  split at follows
  · rename_i subject kind
    exact ⟨subject, Option.some.inj kind⟩
  · cases follows

lemma whileFollows_false (visible : tree.isHidden = false)
    (other : ∀ subject, tree.kind ≠ .statement (.whileLoop subject)) :
    whileFollows (tree :: more) = false := by
  cases follows : whileFollows (tree :: more) with
  | false => rfl
  | true =>
    obtain ⟨subject, kind⟩ := whileFollows_visible visible follows
    exact absurd kind (other subject)

lemma whileFollows_hidden (more) (hidden : tree.isHidden) : whileFollows (tree :: more) = whileFollows more := by
  simp [whileFollows, hidden]

lemma Single.atom (single : Single target tree fragment) : fragment.isAtom := by
  cases single with
  | doctype kind =>
    unfold doctypeFragment
    dsimp only
    split <;> rfl
  | _ => rfl

/-- A lone tag without a slash is a void element of HTML. -/
theorem elementClosing_lone (closed : elementClosing target tag selfClosing hasContent = .lone slash) :
    slash = true ∨ Markup.isVoid tag ∧ target.dialect = .html := by
  unfold elementClosing at closed
  grind

namespace Task

def trees : Task → List Tree
  | node tree => [tree]
  | siblings _ trees | branches _ _ trees => trees

/-- How the fragments for a task complete what is open before them. Nothing is said about lines
of literal code that opened a block. -/
def Completes (dialect : Dialect) : Task → List Fragment → Prop
  | node _, fragments | siblings .nothing _, fragments | siblings .texts _, fragments =>
    WellNested dialect fragments
  | siblings .condition _, fragments =>
    ∃ content turns rest, fragments = content ++ turns ++ rest ∧ WellNested dialect content ∧
      Turns dialect turns ∧ WellNested dialect rest
  | siblings .code _, _ => True
  | siblings .doBlock trees, fragments => whileFollows trees = true →
    ∃ content condition rest, fragments = content ++ .code (.doTail condition) :: rest ∧
      WellNested dialect content ∧ WellNested dialect rest
  | branches true breaks _, fragments => Cases dialect breaks fragments
  | branches false breaks _, fragments =>
    ∃ content cases, fragments = content ++ .enter :: cases ∧ WellNested dialect content ∧
      Cases dialect breaks cases

end Task

lemma closing_completes (opened trees depth inline) (nested : WellNested dialect rest)
    (closed : opened = .doBlock → whileFollows trees = false) :
    (Task.siblings opened trees).Completes dialect (closing opened depth inline ++ rest) := by
  cases opened with
  | nothing | texts => exact nested
  | condition =>
    exact ⟨lineAt depth inline, [.code .close], rest, rfl, lineAt_nested dialect depth inline, .close, nested⟩
  | code => trivial
  | doBlock =>
    intro follows
    rw [closed rfl] at follows
    cases follows

lemma reenter_completes (inTag trees depth inline) (nested : Cases dialect breaks cases) :
    (Task.branches inTag breaks trees).Completes dialect (reenter inTag depth inline ++ cases) := by
  cases inTag with
  | true => exact nested
  | false => exact ⟨lineAt depth inline, cases, by simp [reenter], lineAt_nested _ _ _, nested⟩

lemma emits_completes {inline}
    (tags : ∀ (tree : Tree) snippet pos content, tree.Throughout Tree.NoCodeBlock →
      tree.HoldsTag snippet → inlineTag snippet pos = .ok content →
      WellNested target.dialect content)
    (emits : Emits target inlineTag task depth inline fragments)
    (plain : ∀ tree ∈ task.trees, tree.Throughout Tree.NoCodeBlock) :
    task.Completes target.dialect fragments := by
  have lines := lineAt_nested target.dialect
  induction emits with
  | transparent kind children inside =>
    exact inside fun _ => (plain _ mem_cons_self).at_child
  | unwritten kind => exact .nothing
  | single single => exact .append (lines _ _) (.atom single.atom)
  | lone kind closed => exact .append (lines _ _) (.lone (elementClosing_lone closed))
  | element kind inner children inside =>
    rename_i inline within depth body tree tag selfClosing
    have content := inside fun _ => (plain _ mem_cons_self).at_child
    have element := WellNested.append (lines depth inline)
      (.element tag ((AttributeSet.ofTrees target tree.attributes).text target)
        (content.append (lines depth within)))
    simpa [Task.Completes] using element
  | loop kind children inside =>
    rename_i head depth inline body tree
    have content := inside fun _ => (plain _ mem_cons_self).at_child
    have loop := WellNested.append (lines depth inline) (.loop head (content.append (lines depth inline)))
    simpa [Task.Completes, codeAt] using loop
  | switch kind children inside =>
    have cases := inside fun _ => (plain _ mem_cons_self).at_child
    exact .append (lines _ _) (.switch cases)
  | done =>
    rename_i opened depth inline
    have completes := closing_completes opened [] depth inline
      (.nothing : WellNested target.dialect []) fun _ => rfl
    simpa using completes
  | hidden hidden following rest =>
    rename_i more depth inline others opened tree
    have completes := rest (forall_mem_cons.1 plain).2
    cases opened with
    | nothing | texts | condition => exact completes
    | code => trivial
    | doBlock =>
      intro follows
      rw [whileFollows_hidden more hidden] at follows
      exact completes follows
  | otherwise kind children following inside rest =>
    rename_i depth inline body more others tree subject
    have content := inside fun _ => (plain _ mem_cons_self).at_child
    have behindNested := rest (forall_mem_cons.1 plain).2
    refine ⟨lineAt depth inline, _, others, ?_, lines depth inline,
      .otherwise (content.append (lines depth inline)), behindNested⟩
    simp [codeAt, conditionHead]
  | doTail kind following rest =>
    rename_i more depth inline others tree subject
    have behindNested := rest (forall_mem_cons.1 plain).2
    intro follows
    refine ⟨lineAt depth inline, unwrapParens subject, others, ?_, lines depth inline, behindNested⟩
    simp [codeAt]
  | text kind written following rest =>
    rename_i opened depth inline value verbatim content more others tree
    have contentNested : WellNested target.dialect content := by
      apply emitTextNode_additive (wellNested_additive _) _ written
      intro pieces snippet place content notVerbatim apart tagged ok
      rw [notVerbatim] at kind
      exact tags tree snippet place content (plain tree mem_cons_self) ⟨value, pieces, kind, apart, tagged⟩ ok
    have behindNested := rest (forall_mem_cons.1 plain).2
    rw [append_assoc]
    apply closing_completes opened _ depth inline (contentNested.append behindNested)
    intro _
    exact whileFollows_false (by simp [Tree.isHidden, kind]) (by simp [kind])
  | heads heads children following inside rest =>
    rename_i opened tree more goesOn line next depth inline body others
    have content := inside fun _ => (plain _ mem_cons_self).at_child
    have behind := rest (forall_mem_cons.1 plain).2
    cases heads with
    | elseIf kind =>
      rename_i subject
      obtain ⟨front, turns, behind, rfl, frontNested, turned, behindNested⟩ := behind
      refine ⟨lineAt depth inline, _, behind, ?_, lines depth inline,
        .elseIf (unwrapParens (subject.getD "")) (content.append frontNested) turned, behindNested⟩
      simp [codeAt, conditionHead]
    | moreCode => trivial
    | condition kind first =>
      rename_i conditionKind subject
      obtain ⟨front, turns, behind, rfl, frontNested, turned, behindNested⟩ := behind
      obtain ⟨condition, head⟩ : ∃ condition, conditionHead conditionKind subject = .ifHead condition := by
        rcases first with rfl | rfl <;> exact ⟨_, rfl⟩
      have nested := (lines depth inline).append
        ((WellNested.conditional condition (content.append frontNested) turned).append behindNested)
      rw [head]
      have completes := closing_completes opened (tree :: more) depth inline nested fun _ =>
        whileFollows_false (by simp [Tree.isHidden, kind]) (by simp [kind])
      simpa [codeAt] using completes
    | codeBlock kind content => exact absurd ((plain _ mem_cons_self).at_node _ _ kind) content
    | doHead kind closed =>
      obtain ⟨front, condition, behind, rfl, frontNested, behindNested⟩ := behind closed
      have nested := (lines depth inline).append
        ((WellNested.doLoop condition (content.append frontNested)).append behindNested)
      have completes := closing_completes opened (tree :: more) depth inline nested fun _ =>
        whileFollows_false (by simp [Tree.isHidden, kind]) (by simp [kind])
      simpa [codeAt] using completes
  | alone fresh node following here rest =>
    rename_i opened tree depth inline first more others
    have nodeNested := here fun other mem => by
      rw [mem_singleton.1 mem]
      exact plain tree mem_cons_self
    have behindNested := rest (forall_mem_cons.1 plain).2
    rw [append_assoc]
    apply closing_completes opened _ depth inline (WellNested.append nodeNested behindNested)
    rintro rfl
    apply whileFollows_false (joint_visible fresh)
    intro subject kind
    simp [joint, joint_visible fresh, kind] at fresh
  | branchesEnd =>
    rename_i inTag breaks depth inline
    cases inTag with
    | true => exact .finish
    | false => exact ⟨lineAt depth inline, [.switchEnd], by simp [reenter], lines _ _, .finish⟩
  | branchHidden hidden following rest =>
    rename_i inTag breaks more depth inline others tree
    have completes := rest (forall_mem_cons.1 plain).2
    cases inTag with
    | true | false => exact completes
  | emptyBranch kind childless following rest =>
    rename_i more depth inline others inTag breaks tree subject
    have cases := rest (forall_mem_cons.1 plain).2
    have completes := reenter_completes inTag (tree :: more) depth inline
      (Cases.label subject cases : Cases target.dialect breaks _)
    simpa using completes
  | branch kind children following inside rest =>
    rename_i depth inline body more others inTag breaks tree subject
    have content := inside fun _ => (plain _ mem_cons_self).at_child
    obtain ⟨front, cases, rfl, frontNested, casesNested⟩ := rest (forall_mem_cons.1 plain).2
    have completes := reenter_completes inTag (tree :: more) depth inline
      (Cases.branch subject (content.append frontNested) casesNested : Cases target.dialect breaks _)
    simpa using completes

lemma inlineTagWithin_nested (plain : tree.Throughout Tree.NoCodeBlock)
    (holds : tree.HoldsTag snippet) (ok : inlineTagWithin target bound snippet pos = .ok content) :
    WellNested target.dialect content := by
  induction bound generalizing tree snippet pos content with
  | zero =>
    cases ok
    exact .nothing
  | succ bound ih =>
    unfold inlineTagWithin at ok
    split at ok
    · cases ok
    · rename_i doc parsed
      have inner := plain.at_tag holds parsed
      have emits := emitChildren_emits doc.tree ok
      exact emits_completes (fun _ _ _ _ => ih) emits fun child => inner.at_child

lemma emit_nested (plain : tree.Throughout Tree.NoCodeBlock)
    (ok : emit target tree = .ok fragments) : WellNested target.dialect fragments :=
  emits_completes (fun _ _ _ _ => inlineTagWithin_nested) (emitChildren_emits tree ok)
    fun _ => plain.at_child

end Emission

namespace Document

def dialectFor (doc : Document) (options : EmissionOptions) : Dialect :=
  (options.dialect <|> doc.dialect?).getD .html

/-- Generated code is well nested. -/
theorem generated_code_nests {document : Document} {filters : Filters} {options : EmissionOptions}
    {code : String} (plain : document.tree.Throughout Tree.NoCodeBlock)
    (result : document.generate filters options = .ok code) :
    ∃ fragments, code = Fragment.render options.format fragments ∧
      Emission.emit ⟨options.format, filters, document.dialectFor options, options.charset⟩
        document.tree = .ok fragments ∧
      Fragment.WellNested (document.dialectFor options) fragments := by
  obtain ⟨fragments, emitted, result⟩ := ok_of_bind result
  exact ⟨fragments, (Except.ok.inj result).symm, emitted, Emission.emit_nested plain emitted⟩

/-- A page with everything that is opened and closed, some of it in an inline tag. -/
def nestedPage : String :=
  "if $a\n  li: br\n//- note\nelse if $b\n  | x #[b: i y]\nelse\n  hr/\ndo\n  each $c in $d\n" ++
    "    case $c\n      when 1\n      when 2\n        p\n      default\n        | w\n" ++
    "while $e\n- $f = 1\n"

def laidOut : EmissionOptions :=
  ⟨{ Format.standard with pretty := true }, some .xhtml, "UTF-8"⟩

theorem nested_page_nests : ∃ document code, parse nestedPage = .ok document ∧
    document.tree.Throughout Tree.NoCodeBlock ∧ document.generate [] laidOut = .ok code ∧
    ∃ fragments, code = Fragment.render laidOut.format fragments ∧
      Fragment.WellNested .xhtml fragments := by
  have accepts : ((parse nestedPage).toOption.any fun document =>
      Tree.testThroughout Tree.testNoCodeBlock (Tree.testTagWithin Tree.testNoCodeBlock 2)
        document.tree && (document.generate [] laidOut).isOk) = true := by
    decide +kernel
  cases parsed : parse nestedPage with
  | error diagnostic =>
    rw [parsed] at accepts
    cases accepts
  | ok document =>
    rw [parsed] at accepts
    obtain ⟨tested, generated⟩ := Bool.and_eq_true_iff.1 accepts
    have plain := Tree.testThroughout_sound Tree.testNoCodeBlock_sound
      (fun _ _ => Tree.testTagWithin_sound Tree.testNoCodeBlock_sound) document.tree tested
    cases result : document.generate [] laidOut with
    | error diagnostic =>
      rw [result] at generated
      cases generated
    | ok code =>
      obtain ⟨fragments, rendered, _, nested⟩ := generated_code_nests plain result
      exact ⟨document, code, rfl, plain, result, fragments, rendered, nested⟩

end Document

end PugTemplate
