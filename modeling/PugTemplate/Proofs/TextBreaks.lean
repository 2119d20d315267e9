import PugTemplate.Proofs.Kinds
import PugTemplate.Proofs.Layout

/-!
# Line breaks behind code tags

A line break right behind the end of a code tag is not part of what the code writes. Texts that keep
their lines apart keep them in the document as well, whatever stands around them. An interpolated
expression swallows the line break behind it.
-/

namespace PugTemplate

open List

def Output.EndsTag (output : Output) : Prop :=
  ['?', '>'] <:+ output.text.toList

namespace Fragment

/-- No line break of the text that a fragment writes comes right behind the end of a code tag. -/
def Survives (output : Output) : Fragment → Prop
  | textBreak => ¬output.EndsTag
  | text value => ∀ line rest, value.toList = line ++ '\n' :: rest → ¬(output.push (String.ofList line)).EndsTag
  | _ => True

def Survive (output : Output) : List Fragment → Prop
  | [] => True
  | fragment :: more => fragment.Survives output ∧ Survive (fragment.write output) more

def isTextual : Fragment → Bool
  | textBreak | text _ => true
  | _ => false

variable {output : Output}

@[simp] lemma survive_append : Survive output (first ++ second) ↔
    Survive output first ∧ Survive (first.foldl write output) second := by
  induction first generalizing output with
  | nil => simp [Survive]
  | cons fragment more ih => simp [Survive, ih, and_assoc]

lemma survive_untextual (plain : fragments.all (!·.isTextual)) : Survive output fragments := by
  induction fragments generalizing output with
  | nil => trivial
  | cons fragment more ih =>
    obtain ⟨here, later⟩ := Bool.and_eq_true_iff.1 plain
    refine ⟨?_, ih later⟩
    cases fragment with
    | textBreak | text => cases here
    | _ => trivial

/-- A line that ends in plain text. -/
def EndsPlain (line : List Char) : Prop :=
  ∃ c, line.getLast? = some c ∧ c ≠ '>'

lemma pushed_not_endsTag (ends : EndsPlain value.toList) : ¬(output.push value).EndsTag := by
  obtain ⟨c, last, other⟩ := ends
  obtain ⟨front, split⟩ := getLast?_eq_some_iff.1 last
  rintro ⟨before, whole⟩
  have ends := congrArg getLast? whole
  simp [Output.push, split, other.symm] at ends

def LinesEndPlain (value : String) : Prop :=
  ∀ line rest, value.toList = line ++ '\n' :: rest → EndsPlain line

lemma linesEndPlain_flat (flat : '\n' ∉ value.toList) : LinesEndPlain value := by
  intro line rest split
  rw [split] at flat
  simp at flat

lemma echo_endsTag (output code) : ((echo code).write output).EndsTag :=
  ⟨(output.text ++ "<?=" ++ code).toList, by simp [write, written, Output.push]⟩

end Fragment

namespace Emission

open Fragment

variable (target : Target) (inlineTag : InlineTag)

/-- The texts among siblings keep their lines apart wherever they are written: no break inside one of them,
and none between it and a text behind it, follows a code tag. `behind` says that a text comes before. -/
def Firm (behind : Bool) : List Tree → Prop
  | [] => True
  | tree :: more =>
    (∀ value verbatim content, tree.kind = .text value verbatim →
      emitTextNode target inlineTag .nothing 0 true value verbatim tree.position = .ok content →
      ∀ output : Output, (behind → ¬output.EndsTag) → Survive output content ∧
          (more.head?.any (·.kind.isText) → ¬(content.foldl write output).EndsTag)) ∧
    Firm tree.kind.isText more

variable {target inlineTag}

/-- The trees of a task keep their lines apart. -/
structure Task.Firm (target : Target) (inlineTag : InlineTag) (task : Task) : Prop where
  texts : ∀ opened trees, task = .siblings opened trees → Emission.Firm target inlineTag (opened == .texts) trees
  below : ∀ tree ∈ task.trees, tree.Everywhere fun node => Emission.Firm target inlineTag false node.children

section Firm

variable {task : Task} {tree : Tree} {next : Opened} {inline : Bool}

lemma Task.Firm.children (firm : task.Firm target inlineTag) (mem : tree ∈ task.trees) :
    (Task.siblings .nothing tree.children).Firm target inlineTag := by
  obtain ⟨here, below⟩ := Tree.everywhere_iff.1 (firm.below tree mem)
  exact ⟨fun _ _ same => by cases same; exact here, below⟩

lemma Task.Firm.later (firm : (Task.siblings opened (tree :: more)).Firm target inlineTag)
    (same : (next == .texts) = tree.kind.isText) : (Task.siblings next more).Firm target inlineTag := by
  refine ⟨fun _ _ isMore => ?_, (forall_mem_cons.1 firm.below).2⟩
  cases isMore
  rw [same]
  exact (firm.texts _ _ rfl).2

lemma Emits.not_text (emits : Emits target inlineTag (.node tree) depth inline fragments) :
    tree.kind.isText = false := by
  obtain ⟨kind, pos, attrs, children⟩ := tree
  cases kind with
  | text value verbatim =>
    cases emits with
    | single single => cases single <;> contradiction
    | loop head =>
      change LoopHead (.text value verbatim) _ at head
      cases head
    | _ => contradiction
  | _ => rfl

lemma Heads.no_texts (heads : Heads opened tree more goesOn opener next) :
    next ≠ .texts ∧ tree.kind.isText = false := by
  cases heads with
  | elseIf kind | moreCode kind | condition kind | codeBlock kind | doHead kind =>
    rw [kind]
    exact ⟨nofun, rfl⟩

@[simp] lemma survive_lineAt (output) : Survive output (lineAt depth inline) :=
  survive_untextual (by cases inline <;> rfl)

@[simp] lemma survive_codeAt (output line) : Survive output (codeAt depth inline line) :=
  survive_untextual (by cases inline <;> rfl)

@[simp] lemma survive_closing (output) : Survive output (closing opened depth inline) :=
  survive_untextual (by cases opened <;> cases inline <;> rfl)

@[simp] lemma survive_reenter (output inTag) : Survive output (reenter inTag depth inline) :=
  survive_untextual (by cases inTag <;> cases inline <;> rfl)

@[simp] lemma survive_breakBefore (output breaks) : Survive output (breakBefore breaks) :=
  survive_untextual (by cases breaks <;> rfl)

lemma emitTextNode_inline (compact : inline = true ∨ target.format.pretty = false)
    (written : emitTextNode target inlineTag opened depth inline value verbatim pos = .ok fragments) :
    ∃ content, emitTextNode target inlineTag .nothing 0 true value verbatim pos = .ok content ∧
      fragments = (if opened == .texts then [.textBreak] else []) ++ content := by
  have flat : (target.format.pretty && !inline) = false := by
    rcases compact with isInline | notPretty
    · simp [isInline]
    · simp [notPretty]
  unfold emitTextNode at written ⊢
  rw [if_neg (by simp [flat])] at written
  rw [if_neg (by simp)]
  cases verbatim with
  | true => exact ⟨_, rfl, (Except.ok.inj written).symm⟩
  | false =>
    obtain ⟨content, read, ok⟩ := ok_of_bind written
    refine ⟨content, ?_, (Except.ok.inj ok).symm⟩
    simp [read]

lemma emits_survive (emits : Emits target inlineTag task depth inline fragments)
    (compact : inline = true ∨ target.format.pretty = false) (firm : task.Firm target inlineTag)
    (output) (free : ∀ tree more, task = .siblings .texts (tree :: more) → tree.kind.isText →
      ¬output.EndsTag) : Survive output fragments := by
  induction emits generalizing output with
  | transparent kind children inside =>
    have body := inside compact (firm.children mem_cons_self)
    simp [body]
  | unwritten kind => trivial
  | single single =>
    refine survive_append.2 ⟨survive_lineAt _, survive_untextual ?_⟩
    cases single with
    | doctype =>
      unfold doctypeFragment
      dsimp only
      split <;> rfl
    | _ => rfl
  | lone kind closed => simp [Survive, Survives]
  | element kind inner children inside =>
    have body := inside (compact.imp_left inner) (firm.children mem_cons_self)
    simp [Survive, Survives, body]
  | loop kind children inside =>
    have body := inside compact (firm.children mem_cons_self)
    simp [body]
  | switch kind children inside =>
    have body := inside compact ⟨by simp, (firm.children mem_cons_self).below⟩
    simp [Survive, Survives, body]
  | done => simp
  | hidden hidden following rest =>
    rename_i more depth inline others opened tree
    have later : (opened.passHidden == .texts) = tree.kind.isText := by
      unfold Tree.isHidden at hidden
      split at hidden
      · rename_i kind
        rw [kind]
        cases opened <;> rfl
      · cases hidden
    refine rest compact (firm.later later) output ?_
    cases opened <;> simp [Opened.passHidden]
  | otherwise kind children following inside rest =>
    have body := inside compact (firm.children mem_cons_self)
    have others := rest compact (firm.later (by rw [kind]; rfl))
    simp [body, others]
  | doTail kind following rest =>
    have others := rest compact (firm.later (by rw [kind]; rfl))
    simp [others]
  | text kind written following rest =>
    rename_i opened depth inline value verbatim content more others tree
    obtain ⟨piece, alone, rfl⟩ := emitTextNode_inline compact written
    have texts := (firm.texts _ _ rfl).1 value verbatim piece kind alone
    obtain ⟨broken, apart⟩ : Survive output
        (closing opened depth inline ++ if opened == .texts then [textBreak] else []) ∧
        (opened == .texts → ¬((closing opened depth inline ++
          if opened == .texts then [textBreak] else []).foldl write output).EndsTag) := by
      cases opened with
      | texts =>
        have ended := free tree more rfl (by rw [kind]; rfl)
        exact ⟨⟨ended, trivial⟩, fun _ => pushed_not_endsTag ⟨_, rfl, by decide⟩⟩
      | _ => simp
    obtain ⟨here, ends⟩ := texts _ apart
    rw [← append_assoc, append_assoc]
    refine survive_append.2 ⟨broken, survive_append.2 ⟨here, ?_⟩⟩
    refine rest compact (firm.later (by rw [kind]; rfl)) _ fun next others isMore isText => ?_
    cases isMore
    exact ends (by simpa using isText)
  | @heads _ _ _ goesOn _ _ _ _ _ _ heads children following inside rest =>
    obtain ⟨noTexts, noText⟩ := heads.no_texts
    have body := inside compact (firm.children mem_cons_self)
    have others := rest compact (firm.later (by simp [noTexts, noText]))
    cases goesOn <;> simp [body, others, noTexts]
  | alone fresh node following inside rest =>
    have body := inside compact ⟨by simp, by simp [Task.trees, (forall_mem_cons.1 firm.below).1]⟩
    have others := rest compact (firm.later (by rw [node.not_text]; rfl))
    simp [body, others]
  | branchesEnd => simp [Survive, Survives]
  | branchHidden hidden following rest =>
    have others := rest compact ⟨by simp, (forall_mem_cons.1 firm.below).2⟩
    simp [others]
  | emptyBranch kind childless following rest =>
    have others := rest compact ⟨by simp, (forall_mem_cons.1 firm.below).2⟩
    simp [others, Survive, Survives]
  | branch kind children following inside rest =>
    have body := inside compact (firm.children mem_cons_self)
    have others := rest compact ⟨by simp, (forall_mem_cons.1 firm.below).2⟩
    simp [body, others, Survive, Survives]

/-- Segments of a text whose lines end in plain text. -/
def Settled : List Interpolation.Segment → Prop
  | [] | .tag _ :: _ => False
  | .echo _ _ :: more => Settled more
  | .text value :: more => LinesEndPlain value ∧ (more = [] ∧ EndsPlain value.toList ∨ Settled more)

lemma Settled.survive (settled : Settled segments)
    (written : emitSegments target inlineTag pos segments = .ok fragments) (output : Output) :
    Survive output fragments ∧ ¬(fragments.foldl write output).EndsTag := by
  induction segments generalizing output fragments with
  | nil => cases settled
  | cons segment more ih =>
    cases segment with
    | tag snippet => cases settled
    | echo value escaped =>
      obtain ⟨others, rest, rfl⟩ := ok_of_pure written
      exact (ih settled rest _).imp_left fun survive => ⟨trivial, survive⟩
    | text value =>
      obtain ⟨others, rest, rfl⟩ := ok_of_pure written
      obtain ⟨lines, ending⟩ := settled
      have here : (Fragment.text value).Survives output :=
        fun line rest split => pushed_not_endsTag (by simpa using lines line rest split)
      rcases ending with ⟨rfl, ends⟩ | settled
      · cases rest
        exact ⟨⟨here, trivial⟩, pushed_not_endsTag ends⟩
      · exact (ih settled rest _).imp_left fun survive => ⟨here, survive⟩

/-- Texts keep their lines apart if these end in plain text. -/
lemma firm_of_settled {trees} (settled : ∀ tree ∈ trees, ∀ value verbatim, tree.kind = .text value verbatim →
      verbatim = false ∧ ∃ segments, Interpolation.segments value.toList = .ok segments ∧ Settled segments)
    (behind) : Firm target inlineTag behind trees := by
  induction trees generalizing behind with
  | nil => trivial
  | cons tree more ih =>
    obtain ⟨here, later⟩ := forall_mem_cons.1 settled
    refine ⟨fun value verbatim content kind written output _ => ?_, ih later _⟩
    obtain ⟨rfl, segments, apart, settled⟩ := here value verbatim kind
    rw [emitTextNode, if_neg (by simp), if_neg Bool.false_ne_true, emitText, Interpolation.interpolate,
      apart] at written
    obtain ⟨_, read, rfl⟩ := ok_of_pure written
    exact (settled.survive read output).imp_right fun ends _ => ends

end Firm

/-- Line breaks of texts that keep their lines apart survive, whatever stands around the texts. A line break
behind an interpolated expression is lost, in the same text or in front of the next one. -/
theorem text_breaks_survive_unless_behind_expressions (target : Target) (inlineTag : InlineTag) :
    (∀ tree depth inline fragments, emitChildren target inlineTag depth inline tree = .ok fragments →
      inline = true ∨ target.format.pretty = false →
      tree.Everywhere (fun node => Firm target inlineTag false node.children) →
      ∀ output, Survive output fragments) ∧
    ∀ text position front value escaped back fragments,
      Interpolation.segments text.toList = .ok (front ++ .echo value escaped :: back) →
      emitText target inlineTag text position = .ok fragments →
      (back = [] → ∀ output others, ¬Survive output (fragments ++ .textBreak :: others)) ∧
      ∀ line more, back = .text (String.ofList ('\n' :: line)) :: more → ∀ output, ¬Survive output fragments := by
  constructor
  · intro tree depth inline fragments written compact firm output
    obtain ⟨here, below⟩ := Tree.everywhere_iff.1 firm
    refine emits_survive (emitChildren_emits tree written) compact ⟨?_, below⟩ output (by simp)
    intro opened trees same
    cases same
    exact here
  · intro text position front value escaped back fragments apart written
    simp only [emitText, Interpolation.interpolate, apart] at written
    change emitSegments target inlineTag position _ = _ at written
    rw [emitSegments_append] at written
    obtain ⟨left, -, written⟩ := ok_of_bind written
    obtain ⟨right, others, written⟩ := ok_of_bind written
    obtain ⟨echoed, read, others⟩ := ok_of_bind others
    obtain ⟨behind, later, others⟩ := ok_of_bind others
    cases read
    rw [← Except.ok.inj written, ← Except.ok.inj others]
    constructor
    · rintro rfl output others survive
      cases later
      simp only [append_nil, survive_append, foldl_append] at survive
      exact survive.2.1 (echo_endsTag _ _)
    · rintro line more rfl output survive
      obtain ⟨first, read, later⟩ := ok_of_bind later
      obtain ⟨last, -, later⟩ := ok_of_bind later
      cases read
      rw [← Except.ok.inj later] at survive
      simp only [cons_append, survive_append] at survive
      refine survive.2.2.1 [] line (by simp) ?_
      simpa [Output.push] using echo_endsTag _ _

def twoTexts (value : String) : Tree :=
  .node .document .start [] [.node (.text value false) .start [] [], .node (.text "b" false) .start [] []]

/-- The break between two texts survives behind a full stop. Without the stop it is lost. -/
theorem break_behind_expression_is_lost :
    ∃ code, emit ⟨.standard, [], .html, ""⟩ (twoTexts "#\x7b$x\x7d.") =
        .ok [.echo code, .text ".", .textBreak, .text "b"] ∧
      emit ⟨.standard, [], .html, ""⟩ (twoTexts "#\x7b$x\x7d") = .ok [.echo code, .textBreak, .text "b"] ∧
      ∀ output, Survive output [.echo code, .text ".", .textBreak, .text "b"] ∧
        ¬Survive output [.echo code, .textBreak, .text "b"] := by
  let target : Target := ⟨.standard, [], .html, ""⟩
  let code := target.echoCode ⟨"$x", true, true⟩
  obtain ⟨survive, lose⟩ := text_breaks_survive_unless_behind_expressions target (inlineTag target)
  have stops : emit target (twoTexts "#\x7b$x\x7d.") = .ok [.echo code, .text ".", .textBreak, .text "b"] := by
    decide +kernel
  have lost := (lose "#\x7b$x\x7d" .start [] "$x" true [] [.echo code] (by decide +kernel) (by decide +kernel)).1 rfl
  refine ⟨code, stops, by decide +kernel, fun output => ⟨survive _ 0 false _ stops (.inr rfl) ?_ output, lost output _⟩⟩
  intro below mem
  change below ∈ [_, _, _] at mem
  simp only [mem_cons, not_mem_nil, or_false] at mem
  rcases mem with rfl | rfl | rfl
  · refine firm_of_settled (forall_mem_cons.2 ⟨?_, forall_mem_cons.2 ⟨?_, by simp⟩⟩) _
    · rintro value verbatim ⟨⟩
      exact ⟨rfl, [.echo "$x" true, .text "."], by decide +kernel,
        linesEndPlain_flat (by decide), .inl ⟨rfl, '.', rfl, by decide⟩⟩
    · rintro value verbatim ⟨⟩
      exact ⟨rfl, [.text "b"], by decide +kernel, linesEndPlain_flat (by decide), .inl ⟨rfl, 'b', rfl, by decide⟩⟩
  · trivial
  · trivial

end Emission

end PugTemplate
