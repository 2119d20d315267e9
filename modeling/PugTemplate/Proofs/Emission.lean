import PugTemplate.Fragment.Emission
import PugTemplate.Proofs.Success

/-!
# Rules of emission

The four functions that write a tree call each other, and each can fail in many places. `Emits` says
once what a success looks like, by rules for a node that stands alone, siblings behind what is open,
and the branches of a switch. What holds of all written fragments is shown by induction on these rules.
-/

namespace PugTemplate.Emission

inductive Task where
  | node (tree : Tree)
  | siblings (opened : Opened) (trees : List Tree)
  | branches (inTag breaks : Bool) (trees : List Tree)

/-- The fragment of a node that writes one and does not look at its children otherwise. -/
inductive Single (target : Target) : Tree → Fragment → Prop where
  | echo (kind : tree.kind = .expression echo) : Single target tree (.echo (target.echoCode echo))
  | code (kind : tree.kind = .statement (.code value block)) (childless : tree.children = []) :
      Single target tree (.code (.plain value))
  | binding (kind : tree.kind = .statement (.binding name value)) :
      Single target tree (.code (.plain s!"{name} = {value};"))
  | comment (kind : tree.kind = .statement (.comment content true)) :
      Single target tree (.raw s!"<!-- {content} -->")
  | doctype (kind : tree.kind = .statement (.doctype name)) : Single target tree (doctypeFragment target name)
  | filter (kind : tree.kind = .statement (.filter name))
      (found : target.filters.get? name = some filter) :
      Single target tree (.raw (filter (filterText tree.children)
        ⟨target.dialect, target.format.pretty, none⟩ (filterOptions tree.attributes)))

/-- The head of the loop that a node is. -/
inductive LoopHead : NodeKind → String → Prop where
  | each {item subject key} : LoopHead (.statement (.each item key subject)) (eachHead item key subject)
  | whileLoop : LoopHead (.statement (.whileLoop subject)) ("while (" ++ unwrapParens subject ++ ")")
  | forLoop : LoopHead (.statement (.forLoop subject)) ("for (" ++ unwrapParens subject ++ ")")

def isTransparent : NodeKind → Bool
  | .document | .statement (.block _ _) => true
  | _ => false

def isUnwritten : NodeKind → Bool
  | .attr _ | .assignment _ | .statement (.mixin _) => true
  | _ => false

/-- Whether a node is written by itself, whatever its siblings are. -/
def standsAlone (tree : Tree) : Bool :=
  match tree.kind with
  | .text _ _ => false
  | .statement (.code _ _) => tree.children.isEmpty
  | _ => !tree.isHidden

/-- Back into the code tag of a switch, if it was left. -/
def reenter (inTag : Bool) (depth : Nat) (inline : Bool) : List Fragment :=
  if inTag then [] else lineAt depth inline ++ [.enter]

def breakBefore (breaks : Bool) : List Fragment :=
  if breaks then [.breakOut] else []

/-- The line with which a node opens a block behind what is open, and what is open then. Where it goes
on with what is open, that is not closed before. -/
inductive Heads : Opened → Tree → List Tree → Bool → CodeLine → Opened → Prop where
  | elseIf (kind : tree.kind = .statement (.conditional .elseIf subject)) :
      Heads .condition tree more true (conditionHead .elseIf subject) .condition
  | moreCode (kind : tree.kind = .statement (.code value block)) :
      Heads .code tree more true (.codeHead (codeHead value true)) .code
  | condition (kind : tree.kind = .statement (.conditional conditionKind subject))
      (first : conditionKind = .ifTrue ∨ conditionKind = .ifFalse) :
      Heads opened tree more false (conditionHead conditionKind subject) .condition
  | codeBlock (kind : tree.kind = .statement (.code value block)) (content : tree.children ≠ []) :
      Heads opened tree more false (.codeHead (codeHead value false)) .code
  | doHead (kind : tree.kind = .statement .doLoop) (closed : whileFollows more) :
      Heads opened tree more false .doHead .doBlock

/-- The fragments that are written for a task at a depth, on the current line or not. -/
inductive Emits (target : Target) (inlineTag : InlineTag) :
    Task → Nat → Bool → List Fragment → Prop where
  | transparent (kind : isTransparent tree.kind)
      (children : Emits target inlineTag (.siblings .nothing tree.children) depth flat body) :
      Emits target inlineTag (.node tree) depth flat body
  | unwritten (kind : isUnwritten tree.kind) : Emits target inlineTag (.node tree) depth flat []
  | single (single : Single target tree fragment) :
      Emits target inlineTag (.node tree) depth flat (lineAt depth flat ++ [fragment])
  | lone (kind : tree.kind = .element tag selfClosing) (closed : elementClosing target tag selfClosing
        (tree.children.any fun child => !child.isHidden) = .lone slash) :
      Emits target inlineTag (.node tree) depth flat (lineAt depth flat ++
        [.loneTag tag ((AttributeSet.ofTrees target tree.attributes).text target) slash])
  | element (kind : tree.kind = .element tag selfClosing) (inner : flat = true → within = true)
      (children : Emits target inlineTag (.siblings .nothing tree.children) (depth + 1) within body) :
      Emits target inlineTag (.node tree) depth flat (lineAt depth flat ++
        .startTag tag ((AttributeSet.ofTrees target tree.attributes).text target) :: body ++
        lineAt depth within ++ [.endTag tag])
  | loop (kind : LoopHead tree.kind head) (children :
        Emits target inlineTag (.siblings .nothing tree.children) (depth + 1) flat body) :
      Emits target inlineTag (.node tree) depth flat
        (codeAt depth flat (.loopHead head) ++ body ++ codeAt depth flat .close)
  | switch (kind : tree.kind = .statement (.caseOf subject)) (children :
        Emits target inlineTag (.branches true false tree.children) depth flat branches) :
      Emits target inlineTag (.node tree) depth flat
        (lineAt depth flat ++ .switchHead (unwrapParens subject) :: branches)
  | done : Emits target inlineTag (.siblings opened []) depth flat (closing opened depth flat)
  | hidden (hidden : tree.isHidden)
      (following : Emits target inlineTag (.siblings opened.passHidden more) depth flat others) :
      Emits target inlineTag (.siblings opened (tree :: more)) depth flat others
  | otherwise (kind : tree.kind = .statement (.conditional .otherwise subject)) (children :
        Emits target inlineTag (.siblings .nothing tree.children) (depth + 1) flat body)
      (following : Emits target inlineTag (.siblings .nothing more) depth flat others) :
      Emits target inlineTag (.siblings .condition (tree :: more)) depth flat
        (codeAt depth flat (conditionHead .otherwise subject) ++ body ++ codeAt depth flat .close ++ others)
  | doTail (kind : tree.kind = .statement (.whileLoop subject))
      (following : Emits target inlineTag (.siblings .nothing more) depth flat others) :
      Emits target inlineTag (.siblings .doBlock (tree :: more)) depth flat
        (codeAt depth flat (.doTail (unwrapParens subject)) ++ others)
  | text (kind : tree.kind = .text value verbatim)
      (written : emitTextNode target inlineTag opened depth flat value verbatim
        tree.position = .ok content)
      (following : Emits target inlineTag (.siblings .texts more) depth flat others) :
      Emits target inlineTag (.siblings opened (tree :: more)) depth flat
        (closing opened depth flat ++ content ++ others)
  | heads (heads : Heads opened tree more goesOn line next)
      (children : Emits target inlineTag (.siblings .nothing tree.children) (depth + 1) flat body)
      (following : Emits target inlineTag (.siblings next more) depth flat others) :
      Emits target inlineTag (.siblings opened (tree :: more)) depth flat
        ((if goesOn then [] else closing opened depth flat) ++ (codeAt depth flat line ++ body) ++ others)
  | alone (fresh : joint opened tree = .fresh)
      (node : Emits target inlineTag (.node tree) depth flat first)
      (following : Emits target inlineTag (.siblings .nothing more) depth flat others) :
      Emits target inlineTag (.siblings opened (tree :: more)) depth flat
        (closing opened depth flat ++ first ++ others)
  | branchesEnd : Emits target inlineTag (.branches inTag breaks []) depth flat
        (reenter inTag depth flat ++ [.switchEnd])
  | branchHidden (hidden : tree.isHidden)
      (following : Emits target inlineTag (.branches inTag breaks more) depth flat others) :
      Emits target inlineTag (.branches inTag breaks (tree :: more)) depth flat others
  | emptyBranch (kind : tree.kind = .statement (.branch subject)) (childless : tree.children = [])
      (following : Emits target inlineTag (.branches true false more) depth flat others) :
      Emits target inlineTag (.branches inTag breaks (tree :: more)) depth flat
        (reenter inTag depth flat ++ breakBefore breaks ++ [.label subject] ++ others)
  | branch (kind : tree.kind = .statement (.branch subject)) (children :
        Emits target inlineTag (.siblings .nothing tree.children) (depth + 1) flat body)
      (following : Emits target inlineTag (.branches false true more) depth flat others) :
      Emits target inlineTag (.branches inTag breaks (tree :: more)) depth flat
        (reenter inTag depth flat ++ breakBefore breaks ++ [.label subject] ++ .leave :: body ++ others)

section Joints

variable {opened : Opened} {tree : Tree}

lemma joint_passed (joined : joint opened tree = .passed) : tree.isHidden := by
  unfold joint at joined
  split at joined
  · assumption
  · split at joined <;> (try split at joined) <;> cases joined

lemma joint_elseIf (joined : joint opened tree = .elseIf subject) :
    opened = .condition ∧ tree.kind = .statement (.conditional .elseIf subject) := by
  unfold joint at joined
  grind

lemma joint_otherwise (joined : joint opened tree = .otherwise subject) :
    opened = .condition ∧ tree.kind = .statement (.conditional .otherwise subject) := by
  unfold joint at joined
  grind

lemma joint_moreCode (joined : joint opened tree = .moreCode value) :
    opened = .code ∧ ∃ block, tree.kind = .statement (.code value block) := by
  unfold joint at joined
  grind

lemma joint_doCondition (joined : joint opened tree = .doCondition subject) :
    opened = .doBlock ∧ tree.kind = .statement (.whileLoop subject) := by
  unfold joint at joined
  grind

lemma joint_visible (fresh : joint opened tree = .fresh) : tree.isHidden = false := by
  unfold joint at fresh
  grind

end Joints

variable {target : Target} {inlineTag : InlineTag}

lemma ok_of_followed {inline} (ok : (do
      let start ← (pure (first, next) : Except Diagnostic (List Fragment × Opened))
      match start with
      | (first, next) => do
        let others ← emitSiblings target inlineTag next depth inline more
        pure (closing opened depth inline ++ first ++ others)) = .ok fragments) :
    ∃ others, emitSiblings target inlineTag next depth inline more = .ok others ∧
      closing opened depth inline ++ first ++ others = fragments := by
  obtain ⟨start, same, ok⟩ := ok_of_bind ok
  cases same
  obtain ⟨others, following, ok⟩ := ok_of_bind ok
  exact ⟨others, following, Except.ok.inj ok⟩

mutual

lemma emitChildren_emits {inline} : ∀ tree : Tree, emitChildren target inlineTag depth inline tree = .ok fragments →
      Emits target inlineTag (.siblings .nothing tree.children) depth inline fragments
  | .node _ _ _ children, ok => by
    rw [emitChildren] at ok
    exact emitSiblings_emits children ok

lemma emitNode_emits {inline} :
    ∀ tree : Tree, standsAlone tree → emitNode target inlineTag depth inline tree = .ok fragments →
      Emits target inlineTag (.node tree) depth inline fragments
  | .node kind pos attrs children, alone, ok => by
    unfold emitNode at ok
    dsimp only at ok
    cases kind with
    | document => exact .transparent rfl (emitSiblings_emits children ok)
    | element tag selfClosing =>
      dsimp only at ok
      split at ok
      · cases ok
      · rename_i slash closed
        cases ok
        exact .lone rfl closed
      · obtain ⟨content, written, rfl⟩ := ok_of_pure ok
        exact .element rfl (fun isInline => by simp [isInline]) (emitSiblings_emits children written)
    | text value verbatim => cases alone
    | expression echo =>
      cases ok
      exact .single (.echo rfl)
    | attr | assignment =>
      cases ok
      exact .unwritten rfl
    | statement statement =>
      cases statement with
      | code value block =>
        cases ok
        exact .single (.code rfl (List.isEmpty_iff.1 alone))
      | comment content rendered =>
        cases rendered with
        | false => cases alone
        | true =>
          cases ok
          exact .single (.comment rfl)
      | doctype name =>
        cases ok
        exact .single (.doctype rfl)
      | filter name =>
        dsimp only at ok
        unfold emitFilter at ok
        split at ok
        · cases ok
        · rename_i filter found
          cases ok
          exact .single (.filter rfl found)
      | binding name value =>
        cases ok
        exact .single (.binding rfl)
      | importing kind path filter => cases ok
      | block name mode => exact .transparent rfl (emitSiblings_emits children ok)
      | mixin name =>
        cases ok
        exact .unwritten rfl
      | call | conditional => cases ok
      | caseOf subject =>
        obtain ⟨branches, written, rfl⟩ := ok_of_pure ok
        exact .switch rfl (emitBranches_emits children written)
      | branch subject => cases ok
      | each | whileLoop | forLoop =>
        obtain ⟨body, written, rfl⟩ := ok_of_pure ok
        exact .loop (by constructor) (emitSiblings_emits children written)
      | doLoop => cases ok

lemma emitSiblings_emits {inline} :
    ∀ trees : List Tree, emitSiblings target inlineTag opened depth inline trees = .ok fragments →
      Emits target inlineTag (.siblings opened trees) depth inline fragments
  | [], ok => by
    rw [emitSiblings] at ok
    cases ok
    exact .done
  | tree :: more, ok => by
    rw [emitSiblings] at ok
    split at ok
    · rename_i passed
      exact .hidden (joint_passed passed) (emitSiblings_emits more ok)
    · rename_i subject joined
      obtain ⟨rfl, kind⟩ := joint_elseIf joined
      obtain ⟨body, written, ok⟩ := ok_of_bind ok
      obtain ⟨others, following, rfl⟩ := ok_of_pure ok
      exact .heads (.elseIf kind) (emitChildren_emits tree written) (emitSiblings_emits more following)
    · rename_i subject joined
      obtain ⟨rfl, kind⟩ := joint_otherwise joined
      obtain ⟨body, written, ok⟩ := ok_of_bind ok
      obtain ⟨others, following, rfl⟩ := ok_of_pure ok
      exact .otherwise kind (emitChildren_emits tree written) (emitSiblings_emits more following)
    · rename_i value joined
      obtain ⟨rfl, block, kind⟩ := joint_moreCode joined
      obtain ⟨body, written, ok⟩ := ok_of_bind ok
      obtain ⟨others, following, rfl⟩ := ok_of_pure ok
      exact .heads (.moreCode kind) (emitChildren_emits tree written) (emitSiblings_emits more following)
    · rename_i subject joined
      obtain ⟨rfl, kind⟩ := joint_doCondition joined
      obtain ⟨others, following, rfl⟩ := ok_of_pure ok
      exact .doTail kind (emitSiblings_emits more following)
    · rename_i fresh
      dsimp only at ok
      split at ok
      · rename_i value verbatim kind
        obtain ⟨content, written, ok⟩ := ok_of_bind ok
        obtain ⟨others, following, rfl⟩ := ok_of_followed ok
        exact .text kind written (emitSiblings_emits more following)
      iterate 2
        · rename_i subject kind
          obtain ⟨body, written, ok⟩ := ok_of_bind ok
          obtain ⟨others, following, rfl⟩ := ok_of_followed ok
          exact .heads (.condition kind (by simp)) (emitChildren_emits tree written) (emitSiblings_emits more following)
      · rename_i value block kind
        split at ok
        · rename_i childless
          obtain ⟨line, written, ok⟩ := ok_of_bind ok
          obtain ⟨others, following, rfl⟩ := ok_of_followed ok
          have alone : standsAlone tree := by
            unfold standsAlone
            rw [kind]
            exact childless
          exact .alone fresh (emitNode_emits tree alone written) (emitSiblings_emits more following)
        · rename_i content
          obtain ⟨body, written, ok⟩ := ok_of_bind ok
          obtain ⟨others, following, rfl⟩ := ok_of_followed ok
          exact .heads (.codeBlock kind (mt List.isEmpty_iff.2 content))
            (emitChildren_emits tree written) (emitSiblings_emits more following)
      · rename_i kind
        split at ok
        · rename_i closed
          obtain ⟨body, written, ok⟩ := ok_of_bind ok
          obtain ⟨others, following, rfl⟩ := ok_of_followed ok
          exact .heads (.doHead kind closed) (emitChildren_emits tree written) (emitSiblings_emits more following)
        · cases ok
      · rename_i notText notIf notUnless notCode notDo
        obtain ⟨node, written, ok⟩ := ok_of_bind ok
        obtain ⟨others, following, rfl⟩ := ok_of_followed ok
        have alone : standsAlone tree := by
          unfold standsAlone
          split
          · rename_i value verbatim kind
            exact absurd kind (notText value verbatim)
          · rename_i value block kind
            exact absurd kind (notCode value block)
          · rw [joint_visible fresh]
            rfl
        exact .alone fresh (emitNode_emits tree alone written) (emitSiblings_emits more following)

lemma emitBranches_emits {inline} :
    ∀ trees : List Tree, emitBranches target inlineTag inTag breaks depth inline trees = .ok fragments →
      Emits target inlineTag (.branches inTag breaks trees) depth inline fragments
  | [], ok => by
    rw [emitBranches] at ok
    cases ok
    exact .branchesEnd
  | tree :: more, ok => by
    rw [emitBranches] at ok
    split at ok
    · rename_i hidden
      exact .branchHidden hidden (emitBranches_emits more ok)
    · split at ok
      · rename_i subject kind
        dsimp only at ok
        split at ok
        · rename_i childless
          obtain ⟨others, following, rfl⟩ := ok_of_pure ok
          exact .emptyBranch kind (List.isEmpty_iff.1 childless) (emitBranches_emits more following)
        · obtain ⟨body, written, ok⟩ := ok_of_bind ok
          obtain ⟨others, following, rfl⟩ := ok_of_pure ok
          exact .branch kind (emitChildren_emits tree written) (emitBranches_emits more following)
      · cases ok

end

end PugTemplate.Emission
