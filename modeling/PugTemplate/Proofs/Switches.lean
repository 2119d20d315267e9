import Mathlib.Data.List.Forall2
import PugTemplate.Proofs.Emission

/-!
# Branches of a switch

The code of a switch is a sequence of labels, bodies and breaks. A body stands between the places where the
code tag is left and entered again. Running the sequence from a label passes further labels and ends at a
break.
-/

namespace PugTemplate

open List

namespace Emission

inductive SwitchPart where
  | label (value : Option String)
  | body (content : List Fragment)
  | breakOut
  deriving DecidableEq

namespace SwitchPart

def written : SwitchPart → List Fragment
  | label value => [.label value]
  | body content => .leave :: content ++ [.enter]
  | breakOut => [.breakOut]

def label? : SwitchPart → Option (Option String)
  | label value => some value
  | _ => none

/-- The bodies that run from a place in a switch on: all up to the first break. -/
def run : List SwitchPart → List (List Fragment)
  | [] => []
  | label _ :: more => run more
  | body content :: more => content :: run more
  | breakOut :: _ => []

/-- The parts from a label on, by the number of labels before it. -/
def fromLabel : Nat → List SwitchPart → List SwitchPart
  | _, [] => []
  | 0, label value :: more => label value :: more
  | index + 1, label _ :: more => fromLabel index more
  | index, _ :: more => fromLabel index more

end SwitchPart

open SwitchPart (run fromLabel)

/-- A branch as its label and what its body writes, if it has one. -/
abbrev Branch := Option String × Option (List Fragment)

/-- What a child of a case is to the switch. The line on which the code tag goes on belongs to the body. -/
def IsBranch (target : Target) (depth : Nat) (inline : Bool) (tree : Tree) (branch : Branch) : Prop :=
  tree.kind = .statement (.branch branch.1) ∧ (if tree.children.isEmpty then .ok none else
      (emitChildren target (inlineTag target) (depth + 1) inline tree).map fun body =>
        some (body ++ lineAt depth inline)) = .ok branch.2

/-- The parts of a switch with these branches. A body breaks out if another branch follows. -/
def branchParts : List Branch → List SwitchPart
  | [] => []
  | (subject, none) :: more => .label subject :: branchParts more
  | (subject, some body) :: more =>
    .label subject :: .body body :: ((if more.isEmpty then [] else [.breakOut]) ++ branchParts more)

variable {target : Target} {fragments : List Fragment} {depth : Nat} {inline : Bool}

lemma branchParts_labels (branches : List Branch) :
    (branchParts branches).filterMap SwitchPart.label? = branches.map Prod.fst := by
  induction branches with
  | nil => rfl
  | cons branch more ih =>
    obtain ⟨subject, _ | body⟩ := branch
    · exact congrArg (subject :: ·) ih
    · cases more <;> exact congrArg (subject :: ·) ih

lemma branchParts_head (branches : List Branch) :
    (branchParts branches).head? = branches.head?.map fun branch => .label branch.1 := by
  obtain _ | ⟨⟨subject, _ | body⟩, more⟩ := branches <;> rfl

lemma branchParts_run (branches : List Branch) (index) :
    run (fromLabel index (branchParts branches)) = ((branches.drop index).findSome? Prod.snd).toList := by
  induction branches generalizing index with
  | nil => cases index <;> rfl
  | cons branch more ih =>
    obtain ⟨subject, _ | body⟩ := branch
    · cases index with
      | zero =>
        refine Eq.trans ?_ (ih 0)
        obtain _ | ⟨⟨subject, _ | body⟩, more⟩ := more <;> rfl
      | succ index => exact ih index
    · cases index with
      | zero => obtain _ | ⟨⟨subject, _ | body⟩, more⟩ := more <;> rfl
      | succ index =>
        refine Eq.trans ?_ (ih index)
        cases more <;> cases index <;> rfl

/-- The branches of a case write the parts of a switch, behind a break for the body before them. -/
theorem emitBranches_parts {children}
    (ok : emitBranches target (inlineTag target) inTag breaks depth inline children = .ok fragments) :
    ∃ branches, Forall₂ (IsBranch target depth inline) (children.filter fun tree => !tree.isHidden) branches ∧
      fragments = reenter inTag depth inline ++ (breakBefore (breaks && !branches.isEmpty) ++
        (branchParts branches).flatMap SwitchPart.written ++ [.switchEnd]) := by
  induction children generalizing inTag breaks fragments with
  | nil =>
    rw [emitBranches] at ok
    refine ⟨[], .nil, (Except.ok.inj ok).symm.trans ?_⟩
    rw [isEmpty_nil, Bool.not_true, Bool.and_false]
    rfl
  | cons tree more ih =>
    rw [emitBranches] at ok
    split at ok
    · rename_i hidden
      rw [filter_cons_of_neg (by simp [hidden])]
      exact ih ok
    · rename_i visible
      rw [filter_cons_of_pos (by simpa using visible)]
      split at ok
      · rename_i subject kind
        dsimp only at ok
        split at ok
        · rename_i childless
          obtain ⟨others, written, ok⟩ := ok_of_bind ok
          obtain ⟨branches, each, rfl⟩ := ih written
          refine ⟨(subject, none) :: branches, .cons ⟨kind, if_pos childless⟩ each, (Except.ok.inj ok).symm.trans ?_⟩
          simp [reenter, breakBefore, branchParts, SwitchPart.written]
        · rename_i content
          obtain ⟨body, inner, ok⟩ := ok_of_bind ok
          obtain ⟨others, written, ok⟩ := ok_of_bind ok
          obtain ⟨branches, each, rfl⟩ := ih written
          refine ⟨(subject, some (body ++ lineAt depth inline)) :: branches,
            .cons ⟨kind, by rw [if_neg content, inner]; rfl⟩ each, (Except.ok.inj ok).symm.trans ?_⟩
          cases branches <;> simp [reenter, breakBefore, branchParts, SwitchPart.written]
      · cases ok

/-- A switch runs one branch: from each label the body of the first branch with content at or behind it, and
no other one. Every branch has its label, in order, and a label comes first. -/
theorem one_branch_runs (target : Target) (depth : Nat) (inline : Bool) (subject : String)
    (position : Position) (attributes children : List Tree) (fragments : List Fragment)
    (written : emitNode target (inlineTag target) depth inline
      (.node (.statement (.caseOf subject)) position attributes children) = .ok fragments) :
    ∃ parts branches,
      fragments = lineAt depth inline ++ .switchHead (unwrapParens subject) ::
        (parts.flatMap SwitchPart.written ++ [.switchEnd]) ∧
      Forall₂ (IsBranch target depth inline) (children.filter fun tree => !tree.isHidden) branches ∧
      parts.filterMap SwitchPart.label? = branches.map Prod.fst ∧
      parts.head? = branches.head?.map (fun branch => .label branch.1) ∧
      ∀ index, run (fromLabel index parts) = ((branches.drop index).findSome? Prod.snd).toList := by
  rw [emitNode] at written
  obtain ⟨tail, branched, ok⟩ := ok_of_bind written
  obtain ⟨branches, each, rfl⟩ := emitBranches_parts branched
  exact ⟨branchParts branches, branches, (Except.ok.inj ok).symm, each, branchParts_labels branches,
    branchParts_head branches, branchParts_run branches⟩

/-- An empty branch leads to the default behind it, across a hidden comment. -/
theorem default_in_the_middle_runs :
    let html : Target := ⟨.standard, .standard, .html, "UTF-8"⟩
    let branch (subject : Option String) (children : List Tree) : Tree :=
      .node (.statement (.branch subject)) .start [] children
    let text (value : String) : Tree := .node (.text value false) .start [] []
    let children := [branch (some "1") [], .node (.statement (.comment "c" false)) .start [] [],
      branch none [text "a"], branch (some "2") [text "b"]]
    ∃ parts branches,
      [.switchHead "$x", .label (some "1"), .label none, .leave, .text "a", .enter, .breakOut,
        .label (some "2"), .leave, .text "b", .enter, .switchEnd] =
        .switchHead "$x" :: (parts.flatMap SwitchPart.written ++ [.switchEnd]) ∧
      Forall₂ (IsBranch html 0 true) (children.filter fun tree => !tree.isHidden) branches ∧
      run (fromLabel 0 parts) = ((branches.drop 0).findSome? Prod.snd).toList := by
  intro html branch text children
  obtain ⟨parts, branches, shape, each, -, -, runs⟩ :=
    one_branch_runs html 0 true "($x)" .start [] children _ rfl
  exact ⟨parts, branches, shape, each, runs 0⟩

end Emission

end PugTemplate
