import PugTemplate.Proofs.Furnishing
import PugTemplate.Proofs.Kinds
import PugTemplate.Proofs.WellNested

/-!
# Every node is written once

The fragments for a document are those of its nodes in preorder, with nothing between them but line
beginnings and what closes or separates. Hidden comments are left out, and a filter stands for the
texts inside it. Of the `while` at the end of a `do` only the condition is written.
-/

namespace PugTemplate

open List

namespace NodeKind

def isDo : NodeKind → Bool
  | statement .doLoop => true
  | _ => false

def isWhile : NodeKind → Bool
  | statement (.whileLoop _) => true
  | _ => false

end NodeKind

variable {tree : Tree} {value : String} {target : Target}

namespace Tree

def text? (tree : Tree) : Option String :=
  match tree.kind with
  | .text value _ => some value
  | _ => none

lemma text_kind (isText : tree.text? = some value) : ∃ verbatim, tree.kind = .text value verbatim := by
  unfold text? at isText
  split at isText
  · rename_i text verbatim kind
    cases isText
    exact ⟨verbatim, kind⟩
  · cases isText

mutual

/-- The nodes of a tree in preorder, without hidden comments and what is inside of filters. -/
def visible : Tree → List Tree
  | node kind position attributes children =>
    (if (node kind position attributes children).isHidden then []
      else [node kind position attributes children]) ++
      if kind.isFilter then [] else visibleAll children

def visibleAll : List Tree → List Tree
  | [] => []
  | tree :: more => tree.visible ++ visibleAll more

end

/-- The loops among siblings that end a `do`. `afterDo` says whether the siblings follow one. -/
def doTails (afterDo : Bool) : List Tree → List Tree
  | [] => []
  | tree :: more =>
    if tree.isHidden then
      doTails afterDo more
    else
      (if afterDo && tree.kind.isWhile then [tree] else []) ++ doTails tree.kind.isDo more

def Plain (tree : Tree) : Prop :=
  ∀ value ∈ tree.text?, ∀ c ∈ value.toList, c ≠ '#' ∧ c ≠ '!'

/-- The loops that end a `do` among the children of a node have nothing inside of them. -/
def BareTails (tree : Tree) : Prop :=
  ∀ tail ∈ doTails false tree.children, ∀ child ∈ tail.children, child.isHidden = true

instance (tree : Tree) : Decidable tree.Plain :=
  decidable_of_iff
    ((tree.text?.all fun value => value.toList.all fun c => c != '#' && c != '!') = true)
    (by cases isText : tree.text? <;> simp [Plain, isText])

instance (tree : Tree) : Decidable tree.BareTails :=
  decidable_of_iff
    (((doTails false tree.children).all fun tail => tail.children.all isHidden) = true)
    (by simp [BareTails])

lemma visible_eq : tree.visible = (if tree.isHidden then [] else [tree]) ++
    if tree.kind.isFilter then [] else visibleAll tree.children := by
  obtain ⟨kind, pos, attrs, children⟩ := tree
  rfl

lemma open_shown (isOpen : tree.kind.isOpen) : tree.isHidden = false ∧ tree.kind.isFilter = false := by
  refine ⟨?_, ?_⟩
  · unfold isHidden
    split
    · rename_i content kind
      rw [kind] at isOpen
      cases isOpen
    · rfl
  · exact Bool.not_eq_true' _ ▸ (Bool.and_eq_true_iff.1 isOpen).2

lemma visibleAll_cons (isOpen : tree.kind.isOpen) (more) :
    visibleAll (tree :: more) = [tree] ++ visibleAll tree.children ++ visibleAll more := by
  obtain ⟨shown, noFilter⟩ := open_shown isOpen
  rw [visibleAll, visible_eq, shown, noFilter]
  rfl

lemma visibleAll_leaf (shown : tree.isHidden = false)
    (nothing : tree.kind.isFilter ∨ visibleAll tree.children = []) (more) :
    visibleAll (tree :: more) = [tree] ++ visibleAll more := by
  rw [visibleAll, visible_eq, shown]
  rcases nothing with isFilter | nothing
  · rw [isFilter]
    rfl
  · rw [nothing, ite_self]
    rfl

lemma doTails_mono {tail} (mem : tail ∈ doTails false trees)
    (afterDo) : tail ∈ doTails afterDo trees := by
  induction trees with
  | nil => cases mem
  | cons tree more ih =>
    unfold doTails at mem ⊢
    split
    · rename_i hidden
      rw [if_pos hidden] at mem
      exact ih mem
    · rename_i shown
      rw [if_neg shown] at mem
      exact mem_append_right _ mem

lemma doTails_behind {tail} (mem : tail ∈ doTails false more)
    (afterDo tree) : tail ∈ doTails afterDo (tree :: more) := by
  unfold doTails
  split
  · exact doTails_mono mem afterDo
  · exact mem_append_right _ (doTails_mono mem _)

end Tree

def Fragment.isGap : Fragment → Bool
  | line _ | textBreak | endTag _ | code .close | leave | enter | breakOut | switchEnd => true
  | _ => false

namespace Emission

open Fragment

/-- The fragments that stand for a node. -/
inductive Shows (target : Target) : Tree → List Fragment → Prop where
  | transparent {tree : Tree} (kind : isTransparent tree.kind) : Shows target tree []
  | verbatim {tree : Tree} {value : String} (kind : tree.kind = .text value true) : Shows target tree [.raw value]
  | text {tree : Tree} {value : String} (kind : tree.kind = .text value false)
      (written : value ≠ "") : Shows target tree [.text value]
  | noText {tree : Tree} (kind : tree.kind = .text "" false) : Shows target tree []
  | single {tree : Tree} {fragment : Fragment} (single : Single target tree fragment) : Shows target tree [fragment]
  | lone {tree : Tree} {tag : String} {selfClosing : Bool}
      (kind : tree.kind = .element tag selfClosing) (slash : Bool) :
      Shows target tree
        [.loneTag tag ((AttributeSet.ofTrees target tree.attributes).text target) slash]
  | element {tree : Tree} {tag : String} {selfClosing : Bool}
      (kind : tree.kind = .element tag selfClosing) :
      Shows target tree
        [.startTag tag ((AttributeSet.ofTrees target tree.attributes).text target)]
  | condition {tree : Tree} {conditionKind : ConditionKind} {subject : Option String}
      (kind : tree.kind = .statement (.conditional conditionKind subject)) :
      Shows target tree [.code (conditionHead conditionKind subject)]
  | codeBlock {tree : Tree} {value : String} {block : Bool}
      (kind : tree.kind = .statement (.code value block)) (continues : Bool) :
      Shows target tree [.code (.codeHead (codeHead value continues))]
  | loop {tree : Tree} {head : String} (kind : LoopHead tree.kind head) : Shows target tree [.code (.loopHead head)]
  | doHead {tree : Tree} (kind : tree.kind = .statement .doLoop) : Shows target tree [.code .doHead]
  | doTail {tree : Tree} {subject : String} (kind : tree.kind = .statement (.whileLoop subject)) :
      Shows target tree [.code (.doTail (unwrapParens subject))]
  | switch {tree : Tree} {subject : String} (kind : tree.kind = .statement (.caseOf subject)) :
      Shows target tree [.switchHead (unwrapParens subject)]
  | branch {tree : Tree} {subject : Option String}
      (kind : tree.kind = .statement (.branch subject)) :
      Shows target tree [.label subject]

/-- The fragments stand for the nodes one after the other, with gaps between them. -/
inductive Accounts (target : Target) : List Tree → List Fragment → Prop where
  | nil : Accounts target [] []
  | gap (isGap : fragment.isGap) {nodes}
      {fragments : List Fragment} (rest : Accounts target nodes fragments) :
      Accounts target nodes (fragment :: fragments)
  | node {tree : Tree} {piece : List Fragment} (shows : Shows target tree piece)
      {nodes : List Tree} {fragments : List Fragment} (rest : Accounts target nodes fragments) :
      Accounts target (tree :: nodes) (piece ++ fragments)

namespace Accounts

lemma append (front : Accounts target first early) (back : Accounts target second late) :
    Accounts target (first ++ second) (early ++ late) := by
  induction front with
  | nil => exact back
  | gap isGap rest ih => exact .gap isGap ih
  | node shows rest ih =>
    rw [append_assoc]
    exact .node shows ih

lemma noMore : Accounts target (Tree.visibleAll []) [] := .nil

lemma headed {more} {gaps early body late : List Fragment}
    (isOpen : tree.kind.isOpen) (front : Accounts target [] gaps) (head : Accounts target [tree] early)
    (content : Accounts target (Tree.visibleAll tree.children) body)
    (others : Accounts target (Tree.visibleAll more) late) :
    Accounts target (Tree.visibleAll (tree :: more)) (gaps ++ (early ++ body) ++ late) := by
  rw [Tree.visibleAll_cons isOpen]
  exact (front.append (head.append content)).append others

lemma leaf (shown : tree.isHidden = false)
    (nothing : tree.kind.isFilter ∨ Tree.visibleAll tree.children = [])
    (node : Accounts target [tree] early) (others : Accounts target (Tree.visibleAll more) late) :
    Accounts target (Tree.visibleAll (tree :: more)) (early ++ late) := by
  rw [Tree.visibleAll_leaf shown nothing]
  exact node.append others

lemma lineAt (depth inline) : Accounts target [] (lineAt depth inline) := by
  cases inline with
  | true => exact .nil
  | false => exact .gap rfl .nil

lemma codeAt {line : CodeLine} (shows : Shows target tree [.code line])
    (depth inline) : Accounts target [tree] (codeAt depth inline line) :=
  (lineAt depth inline).append (.node shows .nil)

lemma close (depth inline) : Accounts target [] (Emission.codeAt depth inline .close) :=
  (lineAt depth inline).append (.gap rfl .nil)

lemma closing (opened depth inline) : Accounts target [] (closing opened depth inline) := by
  cases opened with
  | condition | code => exact close depth inline
  | nothing | texts | doBlock => exact .nil

lemma reenter (inTag depth inline) : Accounts target [] (reenter inTag depth inline) := by
  cases inTag with
  | true => exact .nil
  | false => exact (lineAt depth inline).append (.gap rfl .nil)

lemma breakBefore (breaks) : Accounts target [] (breakBefore breaks) := by
  cases breaks with
  | true => exact .gap rfl .nil
  | false => exact .nil

end Accounts

/-- A node that is written with all that is below it. -/
structure Orderly (tree : Tree) : Prop where
  kind : isUnwritten tree.kind = false
  childless : tree.kind.acceptsChildren = false → tree.children = []
  plain : tree.Plain
  bare : tree.BareTails

variable {kind : NodeKind} {opened : Opened}

lemma written_kind (noAttribute : kind.isAttribute = false) (noMixin : kind.isMixin = false) :
    isUnwritten kind = false := by
  unfold isUnwritten
  split
  · cases noAttribute
  · cases noAttribute
  · cases noMixin
  · rfl

lemma Orderly.hidden_visible (orderly : Orderly tree) (hidden : tree.isHidden) : tree.visible = [] := by
  have comment : tree.kind.acceptsChildren = false ∧ tree.kind.isFilter = false := by
    unfold Tree.isHidden at hidden
    split at hidden
    · rename_i content kind
      rw [kind]
      exact ⟨rfl, rfl⟩
    · cases hidden
  rw [Tree.visible_eq, hidden, orderly.childless comment.1, comment.2]
  rfl

lemma hidden_visibleAll (orderly : ∀ tree ∈ trees, tree.Everywhere Orderly)
    (hidden : ∀ tree ∈ trees, tree.isHidden) : Tree.visibleAll trees = [] := by
  induction trees with
  | nil => rfl
  | cons tree more ih =>
    have here := (Tree.everywhere_iff.1 (orderly tree (by simp))).1
    rw [Tree.visibleAll, here.hidden_visible (hidden tree (by simp)),
      ih (forall_mem_cons.1 orderly).2 (forall_mem_cons.1 hidden).2]
    rfl

lemma segmentsFrom_plain {text} (plain : ∀ c ∈ text, c ≠ '#' ∧ c ≠ '!')
    (written : text ≠ []) (index) :
    Interpolation.segmentsFrom 0 index text = .ok [.text (String.ofList text)] := by
  have closed : ∀ c ∈ text, ∀ other, Interpolation.opensInterpolation c other = false := by
    intro c mem other
    obtain ⟨noHash, noBang⟩ := plain c mem
    simp [Interpolation.opensInterpolation, noHash, noBang]
  induction text generalizing index with
  | nil => exact absurd rfl written
  | cons c rest ih =>
    cases rest with
    | nil => exact Interpolation.segmentsFrom_last c index
    | cons next more =>
      have later := ih (fun other mem => plain other (by simp [mem])) (by simp)
        (index + 1) fun other mem => closed other (by simp [mem])
      have single := Interpolation.close?_none (closed c (by simp) next)
      rw [Interpolation.segmentsFrom_char ?_ single, later]
      · change Except.ok [Interpolation.Segment.text (String.ofList [c] ++ String.ofList (next :: more))] = _
        rw [← String.ofList_append]
        rfl
      · intro bracket tail _ _
        exact closed next (by simp) bracket

lemma emitTextNode_accounts {inlineTag} (compact : target.format.pretty = false)
    {depth : Nat} {inline verbatim : Bool} {content : List Fragment}
    (kind : tree.kind = .text value verbatim) (plain : ∀ c ∈ value.toList, c ≠ '#' ∧ c ≠ '!')
    (ok : emitTextNode target inlineTag opened depth inline value verbatim tree.position =
      .ok content) : Accounts target [tree] content := by
  have separated : Accounts target [] (if opened == .texts then [textBreak] else []) := by
    split
    · exact .gap rfl .nil
    · exact .nil
  unfold emitTextNode at ok
  rw [compact, Bool.false_and, if_neg Bool.false_ne_true] at ok
  dsimp only at ok
  split at ok
  · rename_i isVerbatim
    rw [isVerbatim] at kind
    cases ok
    exact separated.append (.node (.verbatim kind) .nil)
  · rename_i notVerbatim
    rw [Bool.eq_false_iff.2 notVerbatim] at kind
    obtain ⟨piece, written, ok⟩ := ok_of_bind ok
    obtain ⟨pieces, taken, rendered⟩ := ok_of_bind written
    have apart := segments_of_interpolate taken
    cases ok
    refine separated.append ?_
    by_cases empty : value.toList = []
    · rw [empty] at apart
      cases apart
      cases rendered
      have noText : value = "" := String.toList_eq_nil_iff.1 empty
      rw [noText] at kind
      exact .node (.noText kind) .nil
    · rw [Interpolation.segments, segmentsFrom_plain plain empty] at apart
      cases apart
      cases rendered
      rw [String.ofList_toList]
      refine .node (.text kind ?_) .nil
      intro noText
      exact empty (by rw [noText]; rfl)

lemma transparent_open (transparent : isTransparent kind) : kind.isOpen := by
  unfold isTransparent at transparent
  split at transparent
  · rfl
  · rfl
  · cases transparent

lemma LoopHead.is_open {head} (loop : LoopHead kind head) : kind.isOpen := by
  cases loop <;> rfl

lemma single_shown (single : Single target tree fragment) (orderly : Orderly tree) :
    tree.isHidden = false ∧ (tree.kind.isFilter ∨ Tree.visibleAll tree.children = []) := by
  have leaf : tree.kind.acceptsChildren = false → Tree.visibleAll tree.children = [] := by
    intro accepts
    rw [orderly.childless accepts]
    rfl
  unfold Tree.isHidden
  cases single with
  | echo kind | binding kind | comment kind | doctype kind =>
    rw [kind] at leaf ⊢
    exact ⟨rfl, .inr (leaf rfl)⟩
  | code kind childless =>
    rw [kind, childless]
    exact ⟨rfl, .inr rfl⟩
  | filter kind found =>
    rw [kind]
    exact ⟨rfl, .inl rfl⟩

lemma lone_hidden {tag} {selfClosing slash : Bool} {children : List Tree}
    (closed : elementClosing target tag selfClosing (children.any fun child => !child.isHidden) =
      .lone slash) : ∀ child ∈ children, child.isHidden = true := by
  have empty : (children.any fun child => !child.isHidden) = false := by
    unfold elementClosing at closed
    grind
  intro child mem
  have each := any_eq_false.1 empty child mem
  simpa using each

/-- The loops that end a `do` among the siblings of a task are bare. -/
def Task.Bare : Task → Prop
  | siblings opened trees => ∀ tail ∈ Tree.doTails (opened == .doBlock) trees,
      ∀ child ∈ tail.children, child.isHidden = true
  | _ => True

/-- What is written for the task stands for its trees. -/
structure Task.Fit (task : Task) : Prop where
  orderly : ∀ tree ∈ task.trees, tree.Everywhere Orderly
  bare : task.Bare

namespace Task.Fit

variable {task : Task} {more : List Tree}

lemma here (fit : task.Fit) (mem : tree ∈ task.trees) : Orderly tree :=
  (Tree.everywhere_iff.1 (fit.orderly tree mem)).1

lemma below (fit : task.Fit) (mem : tree ∈ task.trees) : ∀ child ∈ tree.children, child.Everywhere Orderly :=
  (Tree.everywhere_iff.1 (fit.orderly tree mem)).2

lemma children (fit : task.Fit) (mem : tree ∈ task.trees) : (siblings .nothing tree.children).Fit :=
  ⟨fit.below mem, (fit.here mem).bare⟩

lemma laterBranches
    (fit : (branches inTag breaks (tree :: more)).Fit) : (branches nextInTag nextBreaks more).Fit :=
  ⟨(forall_mem_cons.1 fit.orderly).2, trivial⟩

variable (fit : (siblings opened (tree :: more)).Fit)

include fit

lemma first : (node tree).Fit := by
  refine ⟨fun other mem => ?_, trivial⟩
  rw [mem_singleton.1 mem]
  exact fit.orderly tree mem_cons_self

lemma later {next} (notDo : next ≠ .doBlock) : (siblings next more).Fit := by
  refine ⟨(forall_mem_cons.1 fit.orderly).2, ?_⟩
  intro tail mem
  rw [beq_eq_false_iff_ne.2 notDo] at mem
  exact fit.bare tail (Tree.doTails_behind mem _ tree)

lemma afterDo (kind : tree.kind = .statement .doLoop) : (siblings .doBlock more).Fit := by
  refine ⟨(forall_mem_cons.1 fit.orderly).2, ?_⟩
  intro tail mem
  refine fit.bare tail ?_
  have shown : tree.isHidden = false := (Tree.open_shown (by rw [kind]; rfl)).1
  simp only [Tree.doTails, shown, kind]
  exact mem_append_right _ mem

lemma afterHidden (hidden : tree.isHidden) : (siblings opened.passHidden more).Fit := by
  refine ⟨(forall_mem_cons.1 fit.orderly).2, ?_⟩
  intro tail mem
  refine fit.bare tail ?_
  rw [Tree.doTails, if_pos hidden]
  cases opened with
  | _ => exact mem

lemma behind {next} (heads : Heads opened tree more goesOn opener next) : (siblings next more).Fit := by
  cases heads with
  | doHead kind => exact fit.afterDo kind
  | _ => exact fit.later (by decide)

end Task.Fit

lemma Heads.shows {next} (heads : Heads opened tree more goesOn opener next) :
    Shows target tree [.code opener] ∧ tree.kind.isOpen := by
  cases heads with
  | elseIf kind | condition kind => exact ⟨.condition kind, by rw [kind]; rfl⟩
  | moreCode kind | codeBlock kind => exact ⟨.codeBlock kind _, by rw [kind]; rfl⟩
  | doHead kind => exact ⟨.doHead kind, by rw [kind]; rfl⟩

lemma emits_accounts {inlineTag} {task : Task} {depth : Nat} {inline : Bool}
    {fragments : List Fragment} (compact : target.format.pretty = false)
    (emits : Emits target inlineTag task depth inline fragments) (fit : task.Fit) :
    Accounts target (Tree.visibleAll task.trees) fragments := by
  induction emits with
  | transparent kind children inside =>
    have whole := Accounts.headed (transparent_open kind) .nil (.node (.transparent kind) .nil)
      (inside (fit.children mem_cons_self)) .noMore
    rw [append_nil] at whole
    exact whole
  | unwritten kind =>
    have written := (fit.here mem_cons_self).kind
    rw [kind] at written
    cases written
  | @single tree _ _ _ single =>
    obtain ⟨shown, nothing⟩ := single_shown single (fit.here mem_cons_self)
    change Accounts target (Tree.visibleAll [tree]) _
    rw [Tree.visibleAll_leaf shown nothing]
    exact (Accounts.lineAt _ _).append (.node (.single single) .nil)
  | @lone _ _ slash tree _ _ kind closed =>
    have nothing := hidden_visibleAll (fit.below mem_cons_self) (lone_hidden closed)
    change Accounts target (Tree.visibleAll [tree]) _
    rw [Tree.visibleAll_leaf (by simp [Tree.isHidden, kind]) (.inr nothing)]
    exact (Accounts.lineAt _ _).append (.node (.lone kind slash) .nil)
  | @element inline within depth _ tree tag _ kind inner children inside =>
    have content := inside (fit.children mem_cons_self)
    have closing : Accounts target (Tree.visibleAll []) _ :=
      (Accounts.lineAt depth within).append (@Accounts.gap target (.endTag tag) rfl [] [] .nil)
    have whole := Accounts.headed (by rw [kind]; rfl) (.lineAt depth inline)
      (.node (.element kind) .nil) content closing
    change Accounts target (Tree.visibleAll [tree]) _
    simpa using whole
  | loop kind children inside =>
    exact .headed kind.is_open .nil (.codeAt (.loop kind) _ _) (inside (fit.children mem_cons_self)) (.close _ _)
  | @switch depth inline _ _ _ kind children inside =>
    have whole := Accounts.headed (by rw [kind]; rfl) (.lineAt depth inline) (.node (.switch kind) .nil)
      (inside ⟨fit.below mem_cons_self, trivial⟩) .noMore
    rw [append_nil] at whole
    exact whole
  | done => exact .closing _ _ _
  | @hidden more _ _ _ _ tree hidden following rest =>
    have nothing := (fit.here mem_cons_self).hidden_visible hidden
    change Accounts target (tree.visible ++ Tree.visibleAll more) _
    rw [nothing]
    exact rest (fit.afterHidden hidden)
  | @otherwise depth inline _ _ _ _ _ kind children following inside rest =>
    have later := (Accounts.close depth inline).append (rest (fit.later (by decide)))
    have whole := Accounts.headed (by rw [kind]; rfl) .nil
      (.codeAt (.condition kind) depth inline) (inside (fit.children mem_cons_self)) later
    rw [← append_assoc] at whole
    exact whole
  | @doTail more _ _ _ tree _ kind following rest =>
    have shown : tree.isHidden = false := by simp [Tree.isHidden, kind]
    have isTail : tree ∈ Tree.doTails (Opened.doBlock == .doBlock) (tree :: more) := by
      simp [Tree.doTails, shown, NodeKind.isWhile, kind]
    have nothing := hidden_visibleAll (fit.below mem_cons_self) (fit.bare tree isTail)
    exact .leaf shown (.inr nothing) (.codeAt (.doTail kind) _ _) (rest (fit.later (by decide)))
  | @text _ _ _ value _ _ _ _ _ kind written following rest =>
    have orderlyText := fit.here mem_cons_self
    have childless := orderlyText.childless (by rw [kind]; rfl)
    have plain := orderlyText.plain value (by simp [Tree.text?, kind])
    exact .leaf (by simp [Tree.isHidden, kind]) (.inr (by rw [childless]; rfl))
      ((Accounts.closing _ _ _).append (emitTextNode_accounts compact kind plain written))
      (rest (fit.later (by decide)))
  | @heads opened _ _ goesOn _ _ depth inline _ _ heads children following inside rest =>
    have front : Accounts target [] (if goesOn then [] else Emission.closing opened depth inline) := by
      cases goesOn with
      | true => exact .nil
      | false => exact .closing opened depth inline
    obtain ⟨shows, isOpen⟩ : Shows target _ _ ∧ _ := heads.shows
    exact .headed isOpen front (.codeAt shows _ _) (inside (fit.children mem_cons_self))
      (rest (fit.behind heads))
  | @alone opened tree depth inline first more others fresh node following written rest =>
    have node := written fit.first
    have nodes : Tree.visibleAll (Task.node tree).trees = tree.visible := append_nil _
    rw [nodes] at node
    exact ((Accounts.closing opened depth inline).append node).append (rest (fit.later (by decide)))
  | branchesEnd => exact (Accounts.reenter _ _ _).append (.gap rfl .nil)
  | @branchHidden _ _ more _ _ _ tree hidden following rest =>
    have nothing := (fit.here mem_cons_self).hidden_visible hidden
    change Accounts target (tree.visible ++ Tree.visibleAll more) _
    rw [nothing]
    exact rest fit.laterBranches
  | emptyBranch kind childless following rest =>
    exact .leaf (by simp [Tree.isHidden, kind]) (.inr (by rw [childless]; rfl))
      (((Accounts.reenter _ _ _).append (.breakBefore _)).append (.node (.branch kind) .nil))
      (rest fit.laterBranches)
  | @branch depth inline body more others inTag breaks tree subject kind children following inside
        rest =>
    have content : Accounts target (Tree.visibleAll tree.children) (.leave :: body) :=
      .gap rfl (inside (fit.children mem_cons_self))
    have others : Accounts target (Tree.visibleAll more) others := rest fit.laterBranches
    have whole := Accounts.headed (by rw [kind]; rfl)
      ((Accounts.reenter inTag depth inline).append (.breakBefore breaks))
      (.node (.branch kind) .nil) content others
    change Accounts target (Tree.visibleAll (tree :: more)) _
    simpa using whole

lemma emit_accounts {fragments : List Fragment} (compact : target.format.pretty = false)
    (kind : isTransparent tree.kind) (orderly : tree.Everywhere Orderly)
    (ok : emit target tree = .ok fragments) : Accounts target tree.visible fragments := by
  obtain ⟨here, below⟩ := Tree.everywhere_iff.1 orderly
  have content := emits_accounts compact (emitChildren_emits tree ok) ⟨below, here.bare⟩
  obtain ⟨shown, noFilter⟩ := Tree.open_shown (transparent_open kind)
  rw [Tree.visible_eq, shown, noFilter]
  exact .node (.transparent kind) content

end Emission

/-- The texts appear in the code one after the other. -/
inductive AppearIn : List String → String → Prop
  | nil (code : String) : AppearIn [] code
  | cons (gap value : String) {more rest} (later : AppearIn more rest) :
      AppearIn (value :: more) (gap ++ value ++ rest)

lemma AppearIn.behind (appear : AppearIn values code) (front) : AppearIn values (front ++ code) := by
  cases appear with
  | nil => exact .nil _
  | @cons gap value more rest later =>
    have moved := AppearIn.cons (front ++ gap) value later
    simpa [String.append_assoc] using moved

namespace Fragment

lemma write_compact (compact : output.format.pretty = false)
    (fragment) : (write output fragment).text = output.text ++ fragment.written ∧
      (write output fragment).format.pretty = false := by
  cases fragment with
  | line depth =>
    have unchanged : write output (line depth) = output := by
      change output.line depth = output
      rw [Output.line, compact]
      rfl
    rw [unchanged]
    exact ⟨String.append_empty.symm, compact⟩
  | _ => exact ⟨rfl, compact⟩

lemma render_compact {format} (compact : format.pretty = false) (fragments) :
    render format fragments = String.join (fragments.map written) := by
  have each : ∀ (fragments : List Fragment) {output : Output}, output.format.pretty = false →
      (fragments.foldl write output).text = output.text ++ String.join (fragments.map written) := by
    intro fragments
    induction fragments with
    | nil => exact fun _ => String.append_empty.symm
    | cons fragment more ih =>
      intro output compact
      obtain ⟨text, still⟩ := write_compact compact fragment
      rw [foldl_cons, ih still, text, map_cons, String.join_cons, String.append_assoc]
  have whole := @each fragments (Output.start format) compact
  exact whole.trans String.empty_append

end Fragment

namespace Emission

lemma Shows.text_written (shows : Shows target tree piece)
    (isText : tree.text? = some value) : String.join (piece.map Fragment.written) = value := by
  obtain ⟨verbatim, isValue⟩ := Tree.text_kind isText
  cases shows with
  | transparent kind =>
    rw [isValue] at kind
    cases kind
  | verbatim kind | text kind =>
    cases isValue.symm.trans kind
    change String.join [value] = value
    rw [String.join_cons, String.join_nil, String.append_empty]
  | noText kind =>
    cases isValue.symm.trans kind
    rfl
  | single single =>
    cases single with
    | echo kind | code kind | binding kind | comment kind | doctype kind | filter kind =>
      cases isValue.symm.trans kind
  | loop kind =>
    rw [isValue] at kind
    cases kind
  | lone kind | element kind | condition kind | codeBlock kind | doHead kind | doTail kind
  | switch kind | branch kind => cases isValue.symm.trans kind

lemma Accounts.appear (accounts : Accounts target nodes fragments) :
    AppearIn (nodes.filterMap Tree.text?) (String.join (fragments.map Fragment.written)) := by
  induction accounts with
  | nil => exact .nil _
  | gap isGap rest ih =>
    rw [map_cons, String.join_cons]
    exact ih.behind _
  | @node tree piece shows nodes fragments rest ih =>
    rw [map_append, String.join_append, filterMap_cons]
    cases isText : tree.text? with
    | none => exact ih.behind _
    | some value =>
      rw [shows.text_written isText]
      have appear := AppearIn.cons "" value ih
      exact appear

end Emission

namespace Document

variable {doc : Document} (wf : doc.WellFormed) {below : Tree} (mem : below ∈ doc.tree.descendants)

include wf mem

lemma mem_tree : ∃ id ∈ doc.descendants root, doc.treeAt id = below := by
  change below ∈ (doc.treeAt root).descendants at mem
  rw [← wf.descendants_treeAt] at mem
  exact mem_map.1 mem

lemma tree_no_attribute : below.kind.isAttribute = false := by
  obtain ⟨id, isBelow, rfl⟩ := mem_tree wf mem
  rw [kind_treeAt]
  refine wf.descendants_closed (fun id => (doc.kind id).isAttribute = false)
    ?_ (fun _ _ child isChild => wf.child_kind isChild) id isBelow
  rw [wf.root_kind]
  rfl

lemma Furnished.tree_takes (furnished : doc.Furnished) : ∀ child ∈ below.children, below.kind.takes child.kind := by
  obtain ⟨id, isBelow, rfl⟩ := mem_tree wf mem
  intro child isChild
  rw [children_treeAt wf] at isChild
  obtain ⟨childId, isOwned, rfl⟩ := mem_map.1 isChild
  rw [kind_treeAt, kind_treeAt]
  exact furnished childId id (wf.child_parent isOwned) (wf.child_kind isOwned)

end Document

namespace Compiler

open Document

/-- What the code for a document is written for. -/
def targetFor (compiler : Compiler) (doc : Document) : Target :=
  let options := compiler.options
  ⟨options.format, compiler.filters,
    doc.dialectFor ⟨options.format, options.dialect, options.charset⟩, options.charset⟩

variable {compiler : Compiler} {disk : Disk} {source : String} {doc : Document}

lemma Finishes.furnished (finishes : Finishes compiler disk source doc) : doc.WellFormed ∧ doc.Furnished ∧
    ∀ below ∈ doc.tree.descendants, below.kind.isMixin = false := by
  obtain ⟨origin, loaded, loading, expansion⟩ := finishes.loaded
  have expansion := ok_of_mapError expansion
  have wf := loadWithin_well_formed loading
  have furnished := loadWithin_lasting furnished_lasting (fun _ _ => parse_furnished) loading
  obtain ⟨finalWf, finalFurnished⟩ := furnished_lasting.expandMixins wf furnished expansion
  have kinds := (loaded.expandMixins_tree wf _ _ expansion).2
  exact ⟨finalWf, finalFurnished, fun below mem => (kinds below mem).1⟩

lemma Finishes.childless (finishes : Finishes compiler disk source doc) {below}
    (mem : below ∈ doc.tree.descendants) (leaf : below.kind.acceptsChildren = false) :
    below.children = [] := by
  obtain ⟨wf, furnished, _⟩ := finishes.furnished
  rw [eq_nil_iff_forall_not_mem]
  intro child isChild
  have takes := furnished.tree_takes wf mem child isChild
  rw [NodeKind.accepts_of_takes takes] at leaf
  cases leaf

lemma Finishes.filter_texts (finishes : Finishes compiler disk source doc) {below}
    (mem : below ∈ doc.tree.descendants) (isFilter : below.kind.isFilter) :
    ∀ child ∈ below.children, child.text?.isSome ∧ child.children = [] := by
  obtain ⟨wf, furnished, _⟩ := finishes.furnished
  intro child isChild
  have takes := furnished.tree_takes wf mem child isChild
  have isText := NodeKind.text_of_takes takes isFilter
  have leaf : child.text?.isSome = true ∧ child.kind.acceptsChildren = false := by
    unfold Tree.text?
    cases kind : child.kind with
    | text value verbatim => exact ⟨rfl, rfl⟩
    | _ =>
      rw [kind] at isText
      cases isText
  exact ⟨leaf.1, finishes.childless (Tree.descendants_child mem isChild) leaf.2⟩

/-- The nodes of a finished document are all written, once and in order, if every `while` that ends
a `do` has nothing inside of it. Texts appear as they are, those of a filter as what it makes of
them. -/
theorem every_node_is_written (compiler : Compiler) (disk : Disk) (source : String)
    (document : Document) (code : String) (finishes : Finishes compiler disk source document)
    (compact : compiler.options.format.pretty = false)
    (plain : document.tree.Everywhere Tree.Plain) (bare : document.tree.Everywhere Tree.BareTails)
    (result : compiler.generate document = .ok code) :
    (∃ fragments, Emission.emit (compiler.targetFor document) document.tree = .ok fragments ∧
      code = String.join (fragments.map Fragment.written) ∧
      Emission.Accounts (compiler.targetFor document) document.tree.visible fragments) ∧
    AppearIn (document.tree.visible.filterMap Tree.text?) code ∧
    ∀ below ∈ document.tree.descendants, below.kind.isFilter = true → ∀ child ∈ below.children,
      child.text?.isSome = true ∧ child.children = [] := by
  obtain ⟨wellFormed, furnished, noMixin⟩ := finishes.furnished
  have orderly : document.tree.Everywhere Emission.Orderly := fun below member =>
    { kind := Emission.written_kind (tree_no_attribute wellFormed member) (noMixin below member)
      childless := finishes.childless member
      plain := plain below member
      bare := bare below member }
  have rootKind : Emission.isTransparent document.tree.kind = true := by
    rw [tree, kind_treeAt, wellFormed.root_kind]
    rfl
  obtain ⟨fragments, emitted, rendered⟩ := ok_of_bind (ok_of_mapError result)
  have accounts := Emission.emit_accounts compact rootKind orderly emitted
  have joined := (Except.ok.inj rendered).symm.trans (Fragment.render_compact compact fragments)
  refine ⟨⟨fragments, emitted, joined, accounts⟩, ?_, fun below => finishes.filter_texts⟩
  rw [joined]
  exact accounts.appear

/-- A page with chains of siblings, among them hidden comments, and with a filter and a mixin. -/
def chainedSource : String :=
  "mixin note\n  p mixed\n  block\nif $a\n  | one\n//- hidden\nelse\n  | two\n  | three\n" ++
    "case $b\n  when 1\n    | four\ndo\n  | five\n//- hidden\nwhile $c\n  //- hidden\n" ++
    "+note\n  li: b six\n:cdata\n  filtered\n- if ($d)\n  | seven\n"

def chainedTexts : List String :=
  ["one", "two", "three", "four", "five", "mixed", "six", "seven"]

theorem chained_page_is_written : ∃ document code,
    Finishes pageCompiler siteDisk chainedSource document ∧
    pageCompiler.options.format.pretty = false ∧ document.tree.Everywhere Tree.Plain ∧
    document.tree.Everywhere Tree.BareTails ∧ pageCompiler.generate document = .ok code ∧
    (∃ fragments, code = String.join (fragments.map Fragment.written) ∧
      Emission.Accounts (pageCompiler.targetFor document) document.tree.visible fragments) ∧
    document.tree.visible.filterMap Tree.text? = chainedTexts ∧ AppearIn chainedTexts code := by
  have accepts : ((pageCompiler.document siteDisk chainedSource).toOption.any fun document =>
      (document.tree.descendants.all fun below => decide (below.Plain ∧ below.BareTails)) &&
      (document.tree.visible.filterMap Tree.text? == chainedTexts &&
        (pageCompiler.generate document).isOk)) = true := by
    decide +kernel
  cases made : pageCompiler.document siteDisk chainedSource with
  | error failure =>
    rw [made] at accepts
    cases accepts
  | ok document =>
    rw [made] at accepts
    obtain ⟨tested, accepts⟩ := Bool.and_eq_true_iff.1 accepts
    obtain ⟨texts, generated⟩ := Bool.and_eq_true_iff.1 accepts
    have nodes := List.all_eq_true.1 tested
    have plain : document.tree.Everywhere Tree.Plain := fun below member =>
      (of_decide_eq_true (nodes below member)).1
    have bare : document.tree.Everywhere Tree.BareTails := fun below member =>
      (of_decide_eq_true (nodes below member)).2
    have texts := beq_iff_eq.1 texts
    cases result : pageCompiler.generate document with
    | error failure =>
      rw [result] at generated
      cases generated
    | ok code =>
      obtain ⟨⟨fragments, _, joined, accounts⟩, appear, _⟩ :=
        every_node_is_written pageCompiler siteDisk chainedSource document code (.source made)
          rfl plain bare result
      rw [texts] at appear
      exact ⟨document, code, .source made, rfl, plain, bare, result,
        ⟨fragments, joined, accounts⟩, texts, appear⟩

/-- What is inside of a `while` that ends a `do` is lost. -/
example : pageCompiler.compile siteDisk "do\n  p a\nwhile $x\n  p b\n" =
    .ok "<?php do \x7b?><p>a</p><?php \x7d while ($x);?>" := by
  decide +kernel

end Compiler

end PugTemplate
