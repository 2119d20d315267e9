import PugTemplate.Proofs.WellNested

/-!
# Layout and content

The same tree is written with its lines laid out and without. The two runs of the emitter write the
same but for blanks, and where one of them succeeds the other does, with one exception: interpolations
in a text that is laid out have to close on the line they begin on.
-/

namespace PugTemplate

open Text List

/-- Two computations of which the second succeeds with the first, and the first with the second
under a condition, with results that are alike. -/
structure Parity {ε α β : Type} (condition : Prop) (alike : α → β → Prop) (first : Except ε α)
    (second : Except ε β) : Prop where
  follows : ∀ left, first = .ok left → condition ∧ ∃ right, second = .ok right ∧ alike left right
  leads : condition → ∀ right, second = .ok right → ∃ left, first = .ok left

namespace Parity

variable {ε α β α' β' : Type}

lemma ok {left right} (same : alike left right) : Parity True alike (.ok left : Except ε α) (.ok right) := by
  constructor
  · rintro _ ⟨⟩
    exact ⟨trivial, right, rfl, same⟩
  · intro _ _ _
    exact ⟨left, rfl⟩

lemma error {failure failure' : ε} : Parity condition alike (.error failure) (.error failure') := ⟨nofun, nofun⟩

lemma congr {other} (parity : Parity condition alike first second)
    (same : condition ↔ other) : Parity other alike first second :=
  ⟨fun left ok => (parity.follows left ok).imp_left same.1, fun holds => parity.leads (same.2 holds)⟩

lemma given (parity : condition → Parity True alike first second)
    (needed : ∀ left, first = .ok left → condition) : Parity condition alike first second := by
  constructor
  · intro left ok
    have holds := needed left ok
    exact ⟨holds, ((parity holds).follows left ok).2⟩
  · intro holds
    exact (parity holds).leads trivial

lemma bind {further next next'}
    (start : Parity condition alike first second)
    (rest : ∀ left right, alike left right → Parity further alike' (next left) (next' right)) :
    Parity (condition ∧ further) alike' (first >>= next) (second >>= next') := by
  constructor
  · intro ok success
    obtain ⟨left, begun, done⟩ := ok_of_bind success
    obtain ⟨holds, right, begun', same⟩ := start.follows left begun
    obtain ⟨holdsToo, result', done', sameResult⟩ := (rest left right same).follows ok done
    refine ⟨⟨holds, holdsToo⟩, result', ?_, sameResult⟩
    rw [begun']
    exact done'
  · rintro ⟨holds, holdsToo⟩ result' success
    obtain ⟨right, begun', done'⟩ := ok_of_bind success
    obtain ⟨left, begun⟩ := start.leads holds right begun'
    obtain ⟨-, other, begunToo, same⟩ := start.follows left begun
    cases begun'.symm.trans begunToo
    obtain ⟨ok, done⟩ := (rest left right same).leads holdsToo result' done'
    refine ⟨ok, ?_⟩
    rw [begun]
    exact done

lemma map {make : α → α'} {make' : β → β'} (start : Parity condition alike first second)
    (same : ∀ left right, alike left right → alike' (make left) (make' right)) :
    Parity condition alike' (do let left ← first; pure (make left))
      (do let right ← second; pure (make' right)) :=
  (start.bind fun left right alike => ok (same left right alike)).congr (iff_of_eq (and_true _))

lemma trans {γ : Type} {third alike'} {through : α → γ → Prop}
    (left : Parity condition alike first second) (right : Parity True alike' second third)
    (both : ∀ a b c, alike a b → alike' b c → through a c) : Parity condition through first third := by
  constructor
  · intro a ok
    obtain ⟨holds, b, result', same⟩ := left.follows a ok
    obtain ⟨-, c, result'', same'⟩ := right.follows b result'
    exact ⟨holds, c, result'', both a b c same same'⟩
  · intro holds c ok
    obtain ⟨b, result'⟩ := right.leads trivial c ok
    exact left.leads holds b result'

lemma symm {alike'} (parity : Parity True alike first second)
    (back : ∀ a b, alike a b → alike' b a) : Parity True alike' second first := by
  constructor
  · intro b ok
    obtain ⟨a, result'⟩ := parity.leads trivial b ok
    obtain ⟨-, b', again, same⟩ := parity.follows a result'
    cases ok.symm.trans again
    exact ⟨trivial, a, result', back a b same⟩
  · intro _ a ok
    obtain ⟨-, b, result', -⟩ := parity.follows a ok
    exact ⟨b, result'⟩

end Parity

/-- A way to look at written text that does not see blanks. -/
structure Look (look : String → List Char) : Prop where
  append : ∀ first second, look (first ++ second) = look first ++ look second
  blank : ∀ text : String, (∀ c ∈ text.toList, isBlank c) → look text = []

namespace Look

lemma ink : Look fun text => ink text.toList where
  append first second := by rw [String.toList_append, ink_append]
  blank _ blank := ink_blank blank

lemma nothing : Look fun _ => [] := ⟨fun _ _ => rfl, fun _ _ => rfl⟩

variable {look : String → List Char}

lemma lineEnd (isLook : Look look) : look "\n" = [] := isLook.blank _ (all_eq_true.1 rfl)

lemma empty (isLook : Look look) : look "" = [] := isLook.blank _ (all_eq_true.1 rfl)

lemma chars (isLook : Look look) (text) :
    look (String.ofList text) = (Text.ink text).flatMap fun c => look (String.ofList [c]) := by
  induction text with
  | nil => exact isLook.blank _ (by simp)
  | cons c rest ih =>
    have split : String.ofList (c :: rest) = String.ofList [c] ++ String.ofList rest := by
      rw [← String.ofList_append]
      rfl
    rw [split, isLook.append, ih]
    cases blank : isBlank c with
    | false => simp [Text.ink, blank]
    | true =>
      rw [isLook.blank _ (by simpa using blank)]
      simp [Text.ink, blank]

lemma lines (isLook : Look look) (texts) : look ("\n".intercalate texts) = texts.flatMap look := by
  induction texts with
  | nil => exact isLook.empty
  | cons first more ih =>
    cases more with
    | nil => rw [String.intercalate_singleton, flatMap_cons, flatMap_nil, append_nil]
    | cons second others =>
      rw [String.intercalate_cons_cons, isLook.append, isLook.append, isLook.lineEnd, append_nil,
        ih, ← flatMap_cons]

end Look

namespace Fragment

def seen (look : String → List Char) (fragments : List Fragment) : List Char :=
  fragments.flatMap fun fragment => look fragment.written

variable {look : String → List Char}

lemma seen_append : seen look (first ++ second) = seen look first ++ seen look second := flatMap_append

lemma seen_cons : seen look (fragment :: more) = look fragment.written ++ seen look more := flatMap_cons

lemma seen_nil : seen look [] = [] := rfl

end Fragment

def Format.withPretty (format : Format) (pretty : Bool) : Format :=
  { format with pretty := pretty }

def EmissionOptions.withPretty (options : EmissionOptions) (pretty : Bool) : EmissionOptions :=
  { options with format := options.format.withPretty pretty }

namespace Target

def withPretty (target : Target) (pretty : Bool) : Target :=
  { target with format := target.format.withPretty pretty }

variable (target : Target) (pretty pretty' : Bool)

lemma echoCode_withPretty (echo) :
    (target.withPretty pretty).echoCode echo = (target.withPretty pretty').echoCode echo :=
  rfl

lemma attributes_withPretty (attrs) :
    (AttributeSet.ofTrees (target.withPretty pretty) attrs).text (target.withPretty pretty) =
      (AttributeSet.ofTrees (target.withPretty pretty') attrs).text (target.withPretty pretty') :=
  rfl

end Target

namespace Emission

open Fragment

variable {look : String → List Char} (isLook : Look look)

/-- Two results that look the same, where the first may need a condition to succeed. -/
abbrev Even (look : String → List Char) (condition : Prop)
    (first second : Except Diagnostic (List Fragment)) : Prop :=
  Parity condition (fun left right => seen look left = seen look right) first second

lemma Even.symm (even : Even look True first second) : Even look True second first :=
  Parity.symm even fun _ _ => Eq.symm

lemma Even.trans {condition} (left : Even look condition first second)
    (right : Even look True second third) : Even look condition first third :=
  Parity.trans left right fun _ _ _ => Eq.trans

section Segments

variable {target target' : Target} {tag tag' : InlineTag}

lemma emitSegments_append : emitSegments target tag pos (first ++ second) = do
    let left ← emitSegments target tag pos first
    let right ← emitSegments target tag pos second
    return left ++ right := by
  induction first with
  | nil =>
    rw [nil_append]
    cases emitSegments target tag pos second with
    | error | ok => rfl
  | cons segment more ih =>
    rw [cons_append, emitSegments, emitSegments, ih]
    cases emitSegment target tag pos segment with
    | error failure => rfl
    | ok start =>
      cases emitSegments target tag pos more with
      | error failure => rfl
      | ok others =>
        cases emitSegments target tag pos second with
        | error failure => rfl
        | ok last => exact congrArg Except.ok (append_assoc start others last).symm

variable (echoes : ∀ echo, target.echoCode echo = target'.echoCode echo)
  (tags : ∀ snippet place place', Even look True (tag snippet place) (tag' snippet place'))

include isLook echoes tags

omit isLook echoes tags in
lemma emitSegments_chars (pos) (chars : List Char) :
    emitSegments target tag pos (chars.map fun c => .text (String.ofList [c])) =
      .ok (chars.map fun c => .text (String.ofList [c])) := by
  induction chars with
  | nil => rfl
  | cons c rest ih =>
    rw [map_cons, emitSegments, ih]
    rfl

/-- The characters of a text can be written one by one, and its blanks left out. -/
theorem emitSegment_even (pos position') (segment : Interpolation.Segment) :
    Even look True (emitSegment target tag pos segment)
      (emitSegments target' tag' position' segment.substance) := by
  cases segment with
  | text value =>
    rw [emitSegment, Interpolation.Segment.substance, emitSegments_chars]
    refine .ok ?_
    rw [seen_cons, seen_nil, append_nil, seen, flatMap_map]
    exact (congrArg look String.ofList_toList.symm).trans (isLook.chars value.toList)
  | echo value escaped =>
    rw [emitSegment, echoes]
    exact .ok rfl
  | tag snippet =>
    have single : emitSegments target' tag' position' [.tag snippet] =
        (tag' snippet position' >>= fun first => pure (first ++ [])) := rfl
    simp only [append_nil, bind_pure] at single
    change Even look True _ (emitSegments target' tag' position' [.tag snippet])
    rw [single]
    exact tags snippet pos position'

lemma emitSegments_even (pos position' segments) : Even look True (emitSegments target tag pos segments)
    (emitSegments target' tag' position' (Interpolation.substance segments)) := by
  induction segments with
  | nil => exact .ok rfl
  | cons segment more ih =>
    rw [Interpolation.substance_cons, emitSegments_append]
    refine ((emitSegment_even isLook echoes tags pos position' segment).bind
      fun left right same => ih.map fun others others' sameOthers => ?_).congr (and_self_iff)
    rw [seen_append, seen_append, same, sameOthers]

lemma emitSegments_same {segments'}
    (same : Interpolation.substance segments = Interpolation.substance segments')
    (pos position') : Even look True (emitSegments target tag pos segments)
      (emitSegments target' tag' position' segments') := by
  have elsewhere : ∀ snippet place place', Even look True (tag' snippet place) (tag' snippet place') :=
    fun snippet place place' => (tags snippet place place).symm.trans (tags snippet place place')
  have even := emitSegments_even isLook echoes tags pos position' segments
  rw [same] at even
  exact even.trans (emitSegments_even isLook (fun _ => rfl) elsewhere position' position' segments').symm

omit isLook echoes tags in
lemma emitText_apart (apart : Interpolation.segments value = .ok pieces) (pos) :
    emitText target tag (String.ofList value) pos = emitSegments target tag pos pieces := by
  rw [emitText, Interpolation.interpolate, String.toList_ofList, apart]
  rfl

lemma emitText_even (value pos position') :
    Even look True (emitText target tag value pos) (emitText target' tag' value position') := by
  rw [← @String.ofList_toList value]
  cases apart : Interpolation.segments value.toList with
  | error fault =>
    rw [emitText, emitText, Interpolation.interpolate, Interpolation.interpolate, String.toList_ofList, apart]
    exact .error
  | ok pieces =>
    rw [emitText_apart apart, emitText_apart apart]
    exact emitSegments_same isLook echoes tags rfl pos position'

lemma emitTextLines_even (depth pos position' lines)
    (apart : ∀ line ∈ lines, ∃ found, Interpolation.segments line = .ok found) :
    Even look True (emitTextLines target tag depth pos lines) (emitSegments target' tag' position'
        (lines.flatMap fun line => Interpolation.substance (Interpolation.pieces line))) := by
  induction lines generalizing pos with
  | nil => exact .ok rfl
  | cons line more ih =>
    obtain ⟨found, lineApart⟩ := apart line mem_cons_self
    rw [flatMap_cons, emitSegments_append, emitTextLines, emitText_apart lineApart,
      Interpolation.pieces_of_ok lineApart]
    have others := ih ⟨pos.line + 1, pos.offset⟩ (forall_mem_cons.1 apart).2
    refine ((emitSegments_even isLook echoes tags pos position' found).bind
      fun left right same => others.map fun rest rest' sameRest => ?_).congr and_self_iff
    have begun : look (Fragment.line depth).written = [] := isLook.blank _ (by simp [written])
    rw [cons_append, seen_cons, seen_append, seen_append, same, sameRest, begun]
    rfl

end Segments

end Emission

/-- Kinds that differ at most in a verbatim text, which looks the same. -/
inductive NodeKind.Akin (look : String → List Char) : NodeKind → NodeKind → Prop
  | same (kind : NodeKind) : Akin look kind kind
  | verbatim (seen : look value = look value') : Akin look (.text value true) (.text value' true)

mutual

/-- Trees that differ at most in verbatim texts, which look the same. -/
inductive Tree.Akin (look : String → List Char) : Tree → Tree → Prop
  | node {kind kind' position attributes children children'}
      (kinds : kind.Akin look kind') (below : Tree.AllAkin look children children') :
      Tree.Akin look (.node kind position attributes children)
        (.node kind' position attributes children')

inductive Tree.AllAkin (look : String → List Char) : List Tree → List Tree → Prop
  | nil : Tree.AllAkin look [] []
  | cons (first : Tree.Akin look tree tree')
      (others : Tree.AllAkin look more more') : Tree.AllAkin look (tree :: more) (tree' :: more')

end

namespace Tree

variable {look : String → List Char}

mutual

lemma Akin.refl : ∀ tree : Tree, Akin look tree tree
  | .node kind _ _ children => .node (.same kind) (AllAkin.refl children)

lemma AllAkin.refl : ∀ trees : List Tree, AllAkin look trees trees
  | [] => .nil
  | tree :: more => .cons (Akin.refl tree) (AllAkin.refl more)

end

section Akin

variable {tree tree' : Tree} (akin : Akin look tree tree')

include akin

lemma Akin.children : AllAkin look tree.children tree'.children := by
  cases akin with
  | node kinds below => exact below

lemma Akin.isHidden_eq : tree'.isHidden = tree.isHidden := by
  cases akin with
  | node kinds below =>
    cases kinds with
    | same | verbatim => rfl

lemma Akin.joint_eq (opened) : Emission.joint opened tree' = Emission.joint opened tree := by
  cases akin with
  | node kinds below =>
    cases kinds with
    | same kind => rfl
    | verbatim seen => cases opened <;> rfl

lemma Akin.isInlineContent_eq : Emission.isInlineContent tree' = Emission.isInlineContent tree := by
  cases akin with
  | node kinds below =>
    cases kinds with
    | same | verbatim => rfl

end Akin

section AllAkin

variable {trees trees' : List Tree} (akin : AllAkin look trees trees')

include akin

lemma AllAkin.isEmpty_eq : trees'.isEmpty = trees.isEmpty := by
  cases akin with
  | nil | cons => rfl

lemma AllAkin.all_eq (same : ∀ tree tree', Akin look tree tree' → test tree' = test tree) :
    trees'.all test = trees.all test := by
  induction trees generalizing trees' with
  | nil =>
    cases akin
    rfl
  | cons tree more ih =>
    cases akin with
    | cons first others => rw [all_cons, all_cons, same _ _ first, ih others]

lemma AllAkin.any_eq (same : ∀ tree tree', Akin look tree tree' → test tree' = test tree) :
    trees'.any test = trees.any test := by
  rw [any_eq_not_all_not, any_eq_not_all_not,
    akin.all_eq fun tree tree' first => congrArg (!·) (same tree tree' first)]

lemma AllAkin.whileFollows_eq : Emission.whileFollows trees' = Emission.whileFollows trees := by
  induction trees generalizing trees' with
  | nil =>
    cases akin
    rfl
  | cons tree more ih =>
    cases akin with
    | @cons _ tree' _ more' first others =>
      have hidden := first.isHidden_eq
      unfold Emission.whileFollows at ih ⊢
      rw [find?_cons, find?_cons, hidden]
      cases isHidden : tree.isHidden with
      | true => exact ih others
      | false =>
        cases first with
        | node kinds below =>
          cases kinds with
          | same | verbatim => rfl

end AllAkin

end Tree

namespace Emission

/-- Whether all interpolations of a text close on the line that they begin on. -/
def closesOnLines (value : String) : Bool :=
  (Text.lines value.toList).all fun line => (Interpolation.segments line).isOk

def laidText (inline : Bool) (value : String) (verbatim : Bool) : List String :=
  if inline || verbatim then [] else [value]

mutual

/-- The texts that are laid out below a node. -/
def laidBelow (inline : Bool) : Tree → List String
  | .node _ _ _ children => laidAmong .nothing inline children

/-- The texts that are laid out for a node that stands on its own. -/
def laidAt (inline : Bool) : Tree → List String
  | .node kind _ _ children =>
    match kind with
    | .document | .statement (.block _ _) | .statement (.each _ _ _) | .statement (.whileLoop _)
    | .statement (.forLoop _) => laidAmong .nothing inline children
    | .element tag _ =>
      let within := inline || Markup.isPreformatted tag || children.all isInlineContent
      laidAmong .nothing within children
    | .text value verbatim => laidText inline value verbatim
    | .statement (.caseOf _) => laidBranches inline children
    | _ => []

/-- The texts that are laid out among siblings, given what those before them left open. -/
def laidAmong (opened : Opened) (inline : Bool) : List Tree → List String
  | [] => []
  | tree :: more =>
    match joint opened tree with
    | .passed => laidAmong opened.passHidden inline more
    | .elseIf _ => laidBelow inline tree ++ laidAmong .condition inline more
    | .otherwise _ => laidBelow inline tree ++ laidAmong .nothing inline more
    | .moreCode _ => laidBelow inline tree ++ laidAmong .code inline more
    | .doCondition _ => laidAmong .nothing inline more
    | .fresh =>
      match tree.kind with
      | .text value verbatim => laidText inline value verbatim ++ laidAmong .texts inline more
      | .statement (.conditional .ifTrue _) | .statement (.conditional .ifFalse _) =>
        laidBelow inline tree ++ laidAmong .condition inline more
      | .statement (.code _ _) =>
        if tree.children.isEmpty then laidAmong .nothing inline more
        else laidBelow inline tree ++ laidAmong .code inline more
      | .statement .doLoop => laidBelow inline tree ++ laidAmong .doBlock inline more
      | _ => laidAt inline tree ++ laidAmong .nothing inline more

/-- The texts that are laid out in the branches of a case. -/
def laidBranches (inline : Bool) : List Tree → List String
  | [] => []
  | tree :: more =>
    (if tree.isHidden then [] else laidBelow inline tree) ++ laidBranches inline more

end

def laidOut (tree : Tree) : List String :=
  laidBelow false tree

def Closed (values : List String) : Prop :=
  ∀ value ∈ values, closesOnLines value = true

lemma closed_append (first second) : Closed (first ++ second) ↔ Closed first ∧ Closed second := forall_mem_append

lemma closed_nil : Closed [] ↔ True := iff_true_intro nofun

mutual

lemma laidBelow_inline : ∀ tree : Tree, laidBelow true tree = []
  | .node _ _ _ children => laidAmong_inline .nothing children

lemma laidAt_inline : ∀ tree : Tree, laidAt true tree = []
  | .node kind pos attrs children => by
    unfold laidAt
    dsimp only
    split
    any_goals exact laidAmong_inline .nothing children
    · rfl
    · exact laidBranches_inline children
    · rfl

lemma laidAmong_inline (opened) : ∀ trees : List Tree, laidAmong opened true trees = []
  | [] => rfl
  | tree :: more => by
    have below := laidBelow_inline tree
    have alone := laidAt_inline tree
    have others := fun opened => laidAmong_inline opened more
    unfold laidAmong
    grind [laidText]

lemma laidBranches_inline : ∀ trees : List Tree, laidBranches true trees = []
  | [] => rfl
  | tree :: more => by
    have below := laidBelow_inline tree
    have others := laidBranches_inline more
    unfold laidBranches
    rw [below, others, ite_self]
    rfl

end

/-- Filters whose results look the same, whether lines are laid out or not. -/
def Fair (look : String → List Char) (filters : Filters) : Prop :=
  ∀ name filter, filters.get? name = some filter → ∀ text text' dialect path options,
    look text = look text' → look (filter text ⟨dialect, true, path⟩ options) =
        look (filter text' ⟨dialect, false, path⟩ options)

open Fragment

section Runs

variable {look : String → List Char} (isLook : Look look) {target : Target} {tag tag' : InlineTag}
  (tags : ∀ snippet place place', Even look True (tag snippet place) (tag' snippet place'))

include isLook

lemma seen_line (depth) : look (line depth).written = [] := isLook.blank _ (by simp [written])

lemma seen_textBreak (opened : Opened) : seen look (if opened == .texts then [.textBreak] else []) = [] := by
  split
  · have broken : look textBreak.written = [] := isLook.lineEnd
    rw [seen_cons, broken]
    rfl
  · rfl

include tags

/-- A text that is laid out looks like one that is not, if its lines can be taken apart. -/
theorem emitTextLines_whole (depth pos position' value)
    (closed : closesOnLines value) :
    Even look True (emitTextLines (target.withPretty true) tag depth pos
      (Text.lines value.toList)) (emitText (target.withPretty false) tag' value position') := by
  have apart : ∀ line ∈ Text.lines value.toList, ∃ found, Interpolation.segments line = .ok found := by
    intro line mem
    have passes := all_eq_true.1 closed line mem
    cases result : Interpolation.segments line with
    | error fault =>
      rw [result] at passes
      cases passes
    | ok found => exact ⟨found, rfl⟩
  obtain ⟨whole, read, held⟩ := Interpolation.lines_read value.toList apart 0
  have lines : Even look True (emitTextLines (target.withPretty true) tag depth pos (Text.lines value.toList))
      (emitSegments (target.withPretty false) tag' position' _) :=
    emitTextLines_even isLook (target.echoCode_withPretty true false) tags depth pos position' _ apart
  rw [← held] at lines
  have elsewhere : ∀ snippet place place', Even look True (tag' snippet place) (tag' snippet place') :=
    fun snippet place place' => (tags snippet place place).symm.trans (tags snippet place place')
  have written : emitText (target.withPretty false) tag' value position' =
      emitSegments (target.withPretty false) tag' position' whole := by
    rw [← emitText_apart read, String.ofList_toList]
  rw [written]
  exact lines.trans (emitSegments_even isLook (fun _ => rfl) elsewhere position' position' whole).symm

lemma emitTextNode_even (opened : Opened) (depth inline) {value'}
    (pos) (akin : NodeKind.Akin look (.text value verbatim) (.text value' verbatim)) :
    Even look (Closed (laidText inline value verbatim))
      (emitTextNode (target.withPretty true) tag opened depth inline value verbatim pos)
      (emitTextNode (target.withPretty false) tag' opened depth inline value' verbatim pos) := by
  have broken := seen_textBreak isLook opened
  cases verbatim with
  | true =>
    have same : look value = look value' := by
      cases akin with
      | same kind => rfl
      | verbatim seen => exact seen
    rw [laidText, Bool.or_true]
    refine Parity.congr ?_ closed_nil.symm
    cases inline with
    | true =>
      refine .ok ?_
      rw [seen_append, seen_append, broken]
      exact congrArg (· ++ []) same
    | false =>
      refine .ok ?_
      rw [seen_append, broken, seen_cons, seen_line isLook]
      exact congrArg (· ++ []) same
  | false =>
    cases akin
    cases inline with
    | true =>
      refine ((emitText_even isLook (target.echoCode_withPretty true false) tags value pos
        pos).map fun left right same => ?_).congr closed_nil.symm
      rw [seen_append, seen_append, same]
    | false =>
      have closed : Closed (laidText false value false) ↔ closesOnLines value := by
        simp [Closed, laidText]
      refine Parity.congr (.given (fun closes => ?_) fun fragments ok => ?_) closed.symm
      · rw [← bind_pure (emitTextNode (target.withPretty true) tag opened depth false value false pos)]
        refine (emitTextLines_whole isLook tags depth pos pos value closes).map fun left right same => ?_
        rw [seen_append, broken, same]
        rfl
      · rw [closesOnLines, all_eq_true]
        intro line mem
        obtain ⟨found, apart⟩ := emitTextLines_apart ok line mem
        rw [apart]
        rfl

omit tags in
lemma seen_filterText {trees'} (akin : Tree.AllAkin look trees trees') :
    look (filterText trees) = look (filterText trees') := by
  rw [filterText, filterText, isLook.lines, isLook.lines]
  induction trees generalizing trees' with
  | nil =>
    cases akin
    rfl
  | cons tree more ih =>
    cases akin with
    | cons first others =>
      have rest := ih others
      cases first with
      | @node kind kind' pos attrs children children' kinds below =>
        cases kinds with
        | same =>
          cases kind with
          | text value verbatim => exact congrArg (look value ++ ·) rest
          | _ => exact rest
        | @verbatim value value' seen =>
          change look value ++ _ = look value' ++ _
          rw [seen]
          exact congrArg (look value' ++ ·) rest

omit tags in
lemma emitFilter_even (fair : Fair look target.filters) (name) {tree'}
    (akin : tree.Akin look tree') (depth inline) :
    Even look True (emitFilter (target.withPretty true) name tree depth inline)
      (emitFilter (target.withPretty false) name tree' depth inline) := by
  have known : ∀ pretty, (target.withPretty pretty).filters.get? name = target.filters.get? name := fun _ => rfl
  unfold emitFilter
  rw [known, known]
  cases found : target.filters.get? name with
  | none => exact .error
  | some filter =>
    refine .ok ?_
    have same := fair name filter found _ _ target.dialect none (filterOptions tree.attributes)
      (seen_filterText isLook akin.children)
    cases akin with
    | node kinds below =>
      rw [seen_append, seen_append, seen_cons, seen_cons]
      exact congrArg (fun ok => seen look (lineAt depth inline) ++ (ok ++ [])) same

omit isLook tags in
lemma followed_even (opened) {next depth inline more more' begins behind start start'} (before)
    (begun : Even look (Closed begins) start start') (others : Even look (Closed behind)
      (emitSiblings (target.withPretty true) tag next depth inline more)
      (emitSiblings (target.withPretty false) tag' next depth inline more')) :
    Even look (Closed (begins ++ behind)) (do
        let body ← start
        let others ← emitSiblings (target.withPretty true) tag next depth inline more
        pure (closing opened depth inline ++ (before ++ body) ++ others))
      (do
        let body ← start'
        let others ← emitSiblings (target.withPretty false) tag' next depth inline more'
        pure (closing opened depth inline ++ (before ++ body) ++ others)) := by
  refine (begun.bind fun left right same => others.map fun rest rest' sameRest => ?_).congr
    (closed_append begins behind).symm
  simp only [seen_append, same, sameRest]

omit isLook tags in
lemma seen_around (before after) (same : seen look left = seen look right) :
    seen look (before ++ left ++ after) = seen look (before ++ right ++ after) := by
  rw [seen_append, seen_append, seen_append, seen_append, same]

omit isLook tags in
lemma lone_inline {name selfClosing slash} {children : List Tree}
    (closed : elementClosing target name selfClosing
      (children.any fun child => !child.isHidden) = .lone slash) : children.all isInlineContent = true := by
  have hidden : (children.any fun child => !child.isHidden) = false := by
    rw [Bool.eq_false_iff]
    intro content
    unfold elementClosing at closed
    grind
  rw [all_eq_true]
  intro child mem
  have childHidden := any_eq_false.1 hidden child mem
  unfold isInlineContent
  simp only [Bool.not_eq_true, Bool.not_eq_false'] at childHidden
  rw [childHidden, Bool.true_or]

end Runs

/-- Inline tags and filters that look the same in both runs. -/
structure Paired (look : String → List Char) (target : Target) (tag tag' : InlineTag) : Prop where
  isLook : Look look
  tags : ∀ snippet place place', Even look True (tag snippet place) (tag' snippet place')
  fair : Fair look target.filters

namespace Paired

variable {look : String → List Char} {target : Target} {tag tag' : InlineTag}

mutual

lemma emitChildren_even (paired : Paired look target tag tag') (depth inline) :
    ∀ (tree : Tree) {tree' : Tree}, tree.Akin look tree' → Even look (Closed (laidBelow inline tree))
        (emitChildren (target.withPretty true) tag depth inline tree)
        (emitChildren (target.withPretty false) tag' depth inline tree')
  | .node _ _ _ children, tree', akin => by
    cases akin with
    | node kinds below =>
      rw [emitChildren, emitChildren, laidBelow]
      exact paired.emitSiblings_even .nothing depth inline children below
termination_by structural tree => tree

lemma emitNode_even (paired : Paired look target tag tag') (depth inline) :
    ∀ (tree : Tree) {tree' : Tree}, tree.Akin look tree' → Even look (Closed (laidAt inline tree))
        (emitNode (target.withPretty true) tag depth inline tree)
        (emitNode (target.withPretty false) tag' depth inline tree')
  | .node kind pos attrs children, tree', akin => by
    have whole := akin
    have nothing : ∀ {fragments : List Fragment}, Even look (Closed []) (.ok fragments) (.ok fragments) :=
      Parity.congr (.ok rfl) closed_nil.symm
    cases akin with
    | @node _ kind' _ _ _ children' kinds below =>
      have loop : ∀ head : String, Even look (Closed (laidAmong .nothing inline children)) (do
            let body ← emitSiblings (target.withPretty true) tag .nothing (depth + 1) inline children
            return codeAt depth inline (.loopHead head) ++ body ++ codeAt depth inline .close)
          (do
            let body ← emitSiblings (target.withPretty false) tag' .nothing (depth + 1) inline children'
            return codeAt depth inline (.loopHead head) ++ body ++ codeAt depth inline .close) :=
        fun head => (paired.emitSiblings_even .nothing (depth + 1) inline children below).map
          fun left right same => seen_around _ _ same
      cases kinds with
      | @verbatim value value' seen =>
        exact emitTextNode_even paired.isLook paired.tags .nothing depth inline pos (.verbatim seen)
      | same =>
        cases kind with
        | document => exact paired.emitSiblings_even .nothing depth inline children below
        | element name selfClosing =>
          have hidden : (children'.any fun child => !child.isHidden) = children.any fun child => !child.isHidden :=
            below.any_eq fun _ _ first => congrArg (!·) first.isHidden_eq
          have onLine : children'.all isInlineContent = children.all isInlineContent :=
            below.all_eq fun _ _ first => first.isInlineContent_eq
          rw [emitNode, emitNode, laidAt]
          dsimp only
          rw [hidden, onLine, target.attributes_withPretty true false attrs]
          change Even look _ (match elementClosing target name selfClosing _ with
            | .overfull => _ | .lone _ => _ | .endTag => _)
            (match elementClosing target name selfClosing _ with
            | .overfull => _ | .lone _ => _ | .endTag => _)
          cases closed : elementClosing target name selfClosing
              (children.any fun child => !child.isHidden) with
          | overfull => exact .error
          | lone slash =>
            rw [lone_inline closed, Bool.or_true, laidAmong_inline]
            exact nothing
          | endTag =>
            refine (paired.emitSiblings_even .nothing (depth + 1) _ children below).map
              fun left right same => ?_
            simp only [seen_append, seen_cons, same]
        | text value verbatim =>
          exact emitTextNode_even paired.isLook paired.tags .nothing depth inline pos (.same _)
        | expression | attr | assignment => exact nothing
        | statement statement =>
          cases statement with
          | code | comment | doctype => exact nothing
          | filter name =>
            exact (emitFilter_even paired.isLook paired.fair name whole depth inline).congr closed_nil.symm
          | binding name value => exact nothing
          | importing kind path filter => exact .error
          | block name mode => exact paired.emitSiblings_even .nothing depth inline children below
          | mixin name => exact nothing
          | call | conditional => exact .error
          | caseOf subject =>
            refine (paired.emitBranches_even true false depth inline children below).map
              fun left right same => ?_
            rw [seen_append, seen_append, seen_cons, seen_cons, same]
          | branch subject => exact .error
          | each | whileLoop => exact loop _
          | doLoop => exact .error
          | forLoop subject => exact loop _
termination_by structural tree => tree

lemma emitSiblings_even (paired : Paired look target tag tag')
    (opened depth inline) : ∀ (trees : List Tree) {trees' : List Tree}, Tree.AllAkin look trees trees' →
      Even look (Closed (laidAmong opened inline trees))
        (emitSiblings (target.withPretty true) tag opened depth inline trees)
        (emitSiblings (target.withPretty false) tag' opened depth inline trees')
  | [], trees', akin => by
    cases akin
    rw [emitSiblings, emitSiblings]
    exact Parity.congr (.ok rfl) closed_nil.symm
  | tree :: more, trees', akin => by
    cases akin with
    | @cons _ tree' _ more' first others =>
      have behind := fun next => paired.emitSiblings_even next depth inline more others
      have below := paired.emitChildren_even (depth + 1) inline tree first
      have alone := paired.emitNode_even depth inline tree first
      have empty := first.children.isEmpty_eq
      rw [emitSiblings, emitSiblings, laidAmong, first.joint_eq opened]
      cases joint opened tree with
      | passed => exact behind _
      | elseIf | otherwise | moreCode =>
        refine (below.bind fun left right same => (behind _).map fun rest rest' sameRest => ?_).congr
          (closed_append _ _).symm
        simp only [seen_append, same, sameRest]
      | doCondition subject =>
        refine (behind .nothing).map fun rest rest' sameRest => ?_
        rw [seen_append, seen_append, sameRest]
      | fresh =>
        have solo := followed_even opened [] alone (behind .nothing)
        have headed := fun line next =>
          followed_even opened (codeAt depth inline line) below (behind next)
        have follows := others.whileFollows_eq
        cases first with
        | @node kind kind' pos attrs children children' kinds _ =>
          cases kinds with
          | verbatim seen =>
            exact followed_even opened [] (emitTextNode_even paired.isLook paired.tags opened depth inline
              pos (.verbatim seen)) (behind .texts)
          | same =>
            cases kind with
            | text value verbatim =>
              exact followed_even opened [] (emitTextNode_even paired.isLook paired.tags opened depth inline
                pos (.same _)) (behind .texts)
            | document | element | attr | expression | assignment => exact solo
            | statement statement =>
              cases statement with
              | conditional kind subject =>
                cases kind with
                | ifTrue | ifFalse => exact headed _ .condition
                | elseIf | otherwise => exact solo
              | code value block =>
                change Even look (Closed (if children.isEmpty then _ else _))
                  (if children.isEmpty then _ else _) (if children'.isEmpty then _ else _)
                rw [show children'.isEmpty = children.isEmpty from empty]
                split
                · exact solo
                · exact headed _ .code
              | doLoop =>
                change Even look _ (if whileFollows more then _ else _) (if whileFollows more' then _ else _)
                rw [follows]
                cases whileFollows more with
                | true => exact headed _ .doBlock
                | false => exact .error
              | _ => exact solo
termination_by structural trees => trees

lemma emitBranches_even (paired : Paired look target tag tag') (inTag breaks depth)
    (inline) : ∀ (trees : List Tree) {trees' : List Tree}, Tree.AllAkin look trees trees' →
      Even look (Closed (laidBranches inline trees))
        (emitBranches (target.withPretty true) tag inTag breaks depth inline trees)
        (emitBranches (target.withPretty false) tag' inTag breaks depth inline trees')
  | [], trees', akin => by
    cases akin
    rw [emitBranches, emitBranches]
    exact Parity.congr (.ok rfl) closed_nil.symm
  | tree :: more, trees', akin => by
    cases akin with
    | @cons _ tree' _ more' first others =>
      have below := paired.emitChildren_even (depth + 1) inline tree first
      have behind := fun inTag breaks =>
        paired.emitBranches_even inTag breaks depth inline more others
      rw [emitBranches, emitBranches, laidBranches, first.isHidden_eq]
      cases hidden : tree.isHidden with
      | true => exact behind inTag breaks
      | false =>
        cases first with
        | @node kind kind' pos attrs children children' kinds akin =>
          cases kinds with
          | verbatim seen => exact .error
          | same =>
            cases kind with
            | statement statement =>
              cases statement with
              | branch subject =>
                cases akin with
                | nil =>
                  refine (behind true false).map fun rest rest' sameRest => ?_
                  simp only [seen_append, sameRest]
                | cons child siblings =>
                  refine (below.bind fun left right same => (behind false true).map
                    fun rest rest' sameRest => ?_).congr (closed_append _ _).symm
                  simp only [seen_append, seen_cons, same, sameRest]
              | _ => exact .error
            | _ => exact .error
termination_by structural trees => trees

end

end Paired

section Emit

variable {look : String → List Char} (isLook : Look look) {target : Target}
  (fair : Fair look target.filters)

include isLook fair

lemma inlineTagWithin_even (bound snippet place place') :
    Even look True (inlineTagWithin (target.withPretty true) bound snippet place)
      (inlineTagWithin (target.withPretty false) bound snippet place') := by
  induction bound generalizing snippet place place' with
  | zero => exact .ok rfl
  | succ bound ih =>
    have paired : Paired look target (inlineTagWithin (target.withPretty true) bound)
        (inlineTagWithin (target.withPretty false) bound) := ⟨isLook, ih, fair⟩
    rw [inlineTagWithin, inlineTagWithin]
    cases Document.parse snippet with
    | error diag => exact .error
    | ok doc =>
      have below := paired.emitChildren_even 0 true doc.tree (.refl _)
      rw [laidBelow_inline] at below
      exact below.congr closed_nil

/-- A tree that is laid out looks like one that is not, and it is written if and only if that is,
but for texts that do not close their interpolations on their lines. -/
theorem emit_even {tree'} (akin : tree.Akin look tree') :
    Even look (Closed (laidOut tree)) (emit (target.withPretty true) tree)
      (emit (target.withPretty false) tree') := by
  have paired : Paired look target (inlineTag (target.withPretty true))
      (inlineTag (target.withPretty false)) :=
    ⟨isLook, fun snippet => inlineTagWithin_even isLook fair _ snippet, fair⟩
  exact paired.emitChildren_even 0 false tree akin

end Emit

end Emission

lemma Format.indent_blank (format : Format) (depth) : ∀ c ∈ (format.indent depth).toList, isBlank c := by
  have unit : ∀ c ∈ format.unit.toList, isBlank c := by
    unfold Format.unit
    split
    · intro c mem
      rw [String.toList_ofList] at mem
      rw [eq_of_mem_replicate mem]
      rfl
    · exact all_eq_true.1 rfl
  induction depth with
  | zero => simp [Format.indent]
  | succ depth ih =>
    intro c mem
    rw [Format.indent, replicate_succ, String.join_cons, String.toList_append, mem_append] at mem
    rcases mem with here | further
    · exact unit c here
    · exact ih c further

namespace Fragment

variable {format : Format} (blank : ∀ c ∈ format.lineBreak.toList, isBlank c)

include blank

lemma ink_line {output : Output} (same : output.format = format) (depth) :
    Text.ink (output.line depth).text.toList = Text.ink output.text.toList ∧
      (output.line depth).format = format := by
  unfold Output.line
  split
  · refine ⟨?_, same⟩
    have blankLine : Text.ink (output.format.lineBreak ++ output.format.indent depth).toList = [] := by
      rw [same]
      apply Text.ink_blank
      intro c mem
      rw [String.toList_append, mem_append] at mem
      rcases mem with inBreak | inIndent
      · exact blank c inBreak
      · exact format.indent_blank depth c inIndent
    rw [Output.push, String.toList_append, Text.ink_append, blankLine, append_nil]
  · exact ⟨rfl, same⟩

lemma ink_write (same : output.format = format) (fragment) : Text.ink (write output fragment).text.toList =
      Text.ink output.text.toList ++ Text.ink fragment.written.toList ∧
    (write output fragment).format = format := by
  have pushed : ∀ text : String, Text.ink (output.push text).text.toList =
      Text.ink output.text.toList ++ Text.ink text.toList := fun text => by
    rw [Output.push, String.toList_append, Text.ink_append]
  cases fragment with
  | line depth =>
    obtain ⟨ink, still⟩ := ink_line blank same depth
    exact ⟨ink.trans (append_nil _).symm, still⟩
  | _ => exact ⟨pushed _, same⟩

lemma ink_render (fragments) : Text.ink (render format fragments).toList =
    seen (fun text => Text.ink text.toList) fragments := by
  have each : ∀ (fragments : List Fragment) {output : Output}, output.format = format →
      Text.ink (fragments.foldl write output).text.toList =
        Text.ink output.text.toList ++ seen (fun text => Text.ink text.toList) fragments := by
    intro fragments
    induction fragments with
    | nil => exact fun _ => (append_nil _).symm
    | cons fragment more ih =>
      intro output same
      obtain ⟨ink, still⟩ := ink_write blank same fragment
      rw [foldl_cons, ih still, ink, seen_cons, append_assoc]
  exact each fragments rfl

end Fragment

namespace Look

variable {look : String → List Char} (isLook : Look look)

include isLook

lemma trimEnd (text) : look (String.ofList (Text.trimEnd text.toList)) = look text := by
  have split : text.toList = Text.trimEnd text.toList ++ (text.toList.reverse.takeWhile isBlank).reverse := by
    rw [Text.trimEnd, ← reverse_append, takeWhile_append_dropWhile, reverse_reverse]
  have ending : look (String.ofList (text.toList.reverse.takeWhile isBlank).reverse) = [] := by
    apply isLook.blank
    intro c mem
    rw [String.toList_ofList, mem_reverse] at mem
    exact all_eq_true.1 all_takeWhile c mem
  have whole := congrArg look (congrArg String.ofList split)
  rw [String.ofList_append, isLook.append, ending, append_nil, String.ofList_toList] at whole
  exact whole.symm

end Look

/-- Filters that are built in, under any names. -/
def Filters.BuiltIn (filters : Filters) : Prop :=
  ∀ entry ∈ filters, entry.2 ∈ Filters.standard.map Prod.snd

lemma Filters.BuiltIn.fair (builtIn : filters.BuiltIn) (isLook : Look look) : Emission.Fair look filters := by
  intro name filter found text text' dialect path options same
  have listed : (name, filter) ∈ filters := by
    obtain ⟨before, after, split, -⟩ := lookup_eq_some_iff.1 found
    rw [split]
    exact mem_append_right _ mem_cons_self
  have known := builtIn _ listed
  have element : ∀ tag type : String, look (Filter.element tag type text ⟨dialect, true, path⟩ options) =
      look (Filter.element tag type text' ⟨dialect, false, path⟩ options) := by
    intro tag type
    unfold Filter.element
    simp only [isLook.append, same, if_true, Bool.false_eq_true, if_false, isLook.lineEnd, isLook.empty]
  simp only [Filters.standard, map_cons, map_nil, mem_cons, not_mem_nil, or_false] at known
  rcases known with plain | cdata | css | js | php | code
  · rw [plain]
    exact same
  · rw [cdata]
    unfold Filter.cdata
    rw [isLook.append, isLook.append, isLook.append, isLook.append]
    exact congrArg (fun seen => look "<![CDATA[" ++ seen ++ look "]]>") same
  · rw [css]
    exact element _ _
  · rw [js]
    exact element _ _
  · rw [php]
    unfold Filter.code
    simp only [isLook.append, isLook.trimEnd, same]
  · rw [code]
    unfold Filter.code
    simp only [isLook.append, isLook.trimEnd, same]

namespace Document

/-- Pretty output only adds or moves blanks: a document that can be written with its lines laid out
can be written without, and but for blanks the code is the same. -/
theorem pretty_only_moves_blanks (document : Document) (filters : Filters)
    (options : EmissionOptions) (builtIn : filters.BuiltIn)
    (blank : ∀ c ∈ options.format.lineBreak.toList, Text.isBlank c = true) (laid : String)
    (pretty : document.generate filters (options.withPretty true) = .ok laid) :
    ∃ compact, document.generate filters (options.withPretty false) = .ok compact ∧
      Text.ink laid.toList = Text.ink compact.toList := by
  obtain ⟨fragments, emitted, rendered⟩ := ok_of_bind pretty
  let target : Target := ⟨options.format, filters, (options.dialect <|> document.dialect?).getD .html,
    options.charset⟩
  have fair : Emission.Fair (fun text => Text.ink text.toList) target.filters := builtIn.fair Look.ink
  obtain ⟨-, others, emittedToo, same⟩ :=
    (Emission.emit_even Look.ink fair (.refl document.tree)).follows fragments emitted
  refine ⟨Fragment.render (options.format.withPretty false) others, ?_, ?_⟩
  · change (Emission.emit (target.withPretty false) document.tree >>= _) = _
    rw [emittedToo]
    rfl
  · rw [← Except.ok.inj rendered]
    refine (Fragment.ink_render ?_ fragments).trans (same.trans (Fragment.ink_render ?_ others).symm)
    · exact blank
    · exact blank

/-- Texts that follow each other, with an expression and an inline tag, and a filter. -/
def blankSource : String :=
  "p\n  | one #{$x}\n  | two\n  ul: li three\n.\n  four #[b five]\n  six\n:css\n  seven\n"

theorem blank_source_moves_blanks : ∃ document laid compact, parse blankSource = .ok document ∧
    document.generate .standard (EmissionOptions.standard.withPretty true) = .ok laid ∧
    document.generate .standard (EmissionOptions.standard.withPretty false) = .ok compact ∧
    laid ≠ compact ∧ Text.ink laid.toList = Text.ink compact.toList := by
  have runs : ((parse blankSource).toOption.any fun document =>
      (document.generate .standard (EmissionOptions.standard.withPretty true)).toOption.any fun laid =>
        (document.generate .standard (EmissionOptions.standard.withPretty false)).toOption.any
          fun compact => laid != compact) = true := by
    decide +kernel
  have builtIn : Filters.standard.BuiltIn := fun _ member => List.mem_map_of_mem member
  cases parsed : parse blankSource with
  | error diagnostic =>
    rw [parsed] at runs
    cases runs
  | ok document =>
    rw [parsed] at runs
    cases pretty : document.generate .standard (EmissionOptions.standard.withPretty true) with
    | error diagnostic =>
      simp [Except.toOption, pretty] at runs
    | ok laid =>
      obtain ⟨compact, made, same⟩ := pretty_only_moves_blanks document .standard .standard builtIn
        (List.all_eq_true.1 rfl) laid pretty
      refine ⟨document, laid, compact, rfl, pretty, made, ?_, same⟩
      simpa [Except.toOption, pretty, made] using runs

end Document

end PugTemplate
