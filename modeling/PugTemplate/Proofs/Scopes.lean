import Mathlib.Data.List.Infix
import PugTemplate.Proofs.Imports

/-!
# Scopes of expanded calls

An expanded call stands between a line that saves variables and a line that restores them, and both
name the variable that holds the saved values by a number. All calls have different numbers, although
bodies and contents are copied. So each line that saves has one later sibling that restores, and what
two such pairs enclose is either disjoint or nested.
-/

namespace PugTemplate

open List NodeKind Mixin

namespace NodeKind

/-- Whether a node is code that mentions a variable for saved values. -/
def mentionsStash : NodeKind → Bool
  | statement (.code value _) => decide ("$__mixin".toList <:+: value.toList)
  | _ => false

/-- Code that assigns to the variable of a number. -/
def SavesAs (number : Nat) (kind : NodeKind) : Prop :=
  ∃ rest block, kind = .statement (.code (Mixin.stashName number ++ " = " ++ rest) block)

/-- Code that ends with taking back the values from the variable of a number. -/
def RestoresFrom (number : Nat) (kind : NodeKind) : Prop :=
  ∃ front block, kind = .statement (.code (front ++ "extract(" ++ Mixin.stashName number ++
    "); unset(" ++ Mixin.stashName number ++ ");") block)

end NodeKind

variable {first second number : Nat} {quote : Char}

namespace Mixin

lemma stashName_toList : (stashName number).toList = "$__mixin".toList ++ Nat.toDigits 10 number := by
  simp [stashName, toString]

lemma toDigits_injective (same : Nat.toDigits 10 first = Nat.toDigits 10 second) : first = second :=
  calc
    first = Nat.ofDigitChars 10 (Nat.toDigits 10 first) 0 := Nat.ofDigitChars_ten_toDigits.symm
    _ = Nat.ofDigitChars 10 (Nat.toDigits 10 second) 0 := by rw [same]
    _ = second := Nat.ofDigitChars_ten_toDigits

lemma stashName_injective : Function.Injective stashName := by
  intro first second same
  have texts := congrArg String.toList same
  rw [stashName_toList, stashName_toList] at texts
  exact toDigits_injective (append_cancel_left texts)

lemma digits_all (number) : ∀ c ∈ Nat.toDigits 10 number, c.isDigit :=
  fun _ mem => Nat.isDigit_of_mem_toDigits (by decide) (by decide) mem

section

variable {digits others : List Char} {c d : Char} (isDigits : ∀ c ∈ digits, c.isDigit)
  (isOthers : ∀ c ∈ others, c.isDigit) (noDigit : c.isDigit = false) (noOther : d.isDigit = false)

include isDigits isOthers noDigit noOther

/-- Digits up to a character that is none are determined by the text. -/
theorem digits_unique (same : digits ++ c :: rest = others ++ d :: otherRest) : digits = others := by
  have taken := congrArg (takeWhile Char.isDigit) same
  rw [takeWhile_append_of_pos isDigits, takeWhile_append_of_pos isOthers] at taken
  simpa [noDigit, noOther] using taken

lemma last_digits_unique (same : front ++ c :: digits = otherFront ++ d :: others) : digits = others := by
  have backwards := congrArg reverse same
  rw [reverse_append, reverse_append, reverse_cons, reverse_cons, append_assoc, append_assoc] at backwards
  apply reverse_injective
  exact digits_unique (fun c mem => isDigits c (mem_reverse.1 mem))
    (fun c mem => isOthers c (mem_reverse.1 mem)) noDigit noOther backwards

end

lemma saveCode_eq (names stash quote) :
    ∃ rest, saveCode names stash quote = stash ++ " = " ++ (rest ++ "]));") := by
  refine ⟨"array_intersect_key(get_defined_vars(), array_flip([" ++
    ", ".intercalate (names.map fun name => Expression.codeString (bareName name) quote), ?_⟩
  simp only [saveCode, String.append_assoc]
  rfl

lemma restoreCode_eq :
    restoreCode names stash = "unset(" ++ (", ".intercalate names ++ "); ") ++ "extract(" ++ stash ++
      "); unset(" ++ stash ++ ");" := by
  simp only [restoreCode, String.append_assoc]
  rfl

end Mixin

namespace NodeKind

lemma code_injective (same : statement (.code value block) = statement (.code other otherBlock)) :
    value.toList = other.toList := by
  injection same with same
  injection same with same
  rw [same]

variable {kind : NodeKind}

lemma SavesAs.unique (left : kind.SavesAs first) (right : kind.SavesAs second) : first = second := by
  obtain ⟨rest, block, isCode⟩ := left
  obtain ⟨otherRest, otherBlock, isOther⟩ := right
  have texts := code_injective (isCode.symm.trans isOther)
  simp only [String.toList_append, stashName_toList, append_assoc] at texts
  exact toDigits_injective (digits_unique (digits_all first)
    (digits_all second) (by decide) (by decide) (append_cancel_left texts))

/-- What stands before the number that a text ends with. -/
theorem restoring_eq (front number) :
    (front ++ "extract(" ++ stashName number ++ "); unset(" ++ stashName number ++ ");").toList =
      (front ++ "extract(" ++ stashName number ++ "); unset($__mixi").toList ++
        'n' :: Nat.toDigits 10 number ++ ");".toList := by
  simp [stashName_toList]

lemma RestoresFrom.unique (left : kind.RestoresFrom first) (right : kind.RestoresFrom second) : first = second := by
  obtain ⟨front, block, isCode⟩ := left
  obtain ⟨otherFront, otherBlock, isOther⟩ := right
  have texts := code_injective (isCode.symm.trans isOther)
  rw [restoring_eq, restoring_eq] at texts
  exact toDigits_injective (last_digits_unique (digits_all first)
    (digits_all second) (by decide) (by decide) (append_cancel_right texts))

def saving (names : List String) (stash : String) (quote : Char) : NodeKind :=
  .statement (.code (Mixin.saveCode names stash quote) false)

def restoring (names : List String) (stash : String) : NodeKind :=
  .statement (.code (Mixin.restoreCode names stash) false)

lemma saving_savesAs (names number quote) : (saving names (stashName number) quote).SavesAs number := by
  obtain ⟨rest, code⟩ := saveCode_eq names (stashName number) quote
  exact ⟨_, false, by rw [saving, code]⟩

lemma restoring_restoresFrom (names number) : (restoring names (stashName number)).RestoresFrom number :=
  ⟨_, false, by rw [restoring, restoreCode_eq]⟩

lemma saving_restores_nothing (names stash quote number) : ¬ (saving names stash quote).RestoresFrom number := by
  rintro ⟨front, block, isCode⟩
  obtain ⟨rest, code⟩ := saveCode_eq names stash quote
  have closed : (saveCode names stash quote).toList =
      (stash ++ " = " ++ rest ++ "]").toList ++ [')'] ++ ");".toList := by
    rw [code]
    simp
  have texts := code_injective isCode
  rw [closed, restoring_eq] at texts
  have noDigits := last_digits_unique (forall_mem_nil _) (digits_all number) (by decide)
    (by decide) (append_cancel_right texts)
  exact Nat.toDigits_ne_nil noDigits.symm

lemma restoring_saves_nothing (names stash number) : ¬ (restoring names stash).SavesAs number := by
  rintro ⟨rest, block, isCode⟩
  have texts := code_injective isCode
  rw [restoreCode_eq] at texts
  simp [stashName_toList] at texts

lemma SavesAs.mentions (saves : kind.SavesAs number) : kind.mentionsStash := by
  obtain ⟨rest, block, rfl⟩ := saves
  refine decide_eq_true ⟨[], Nat.toDigits 10 number ++ (" = " ++ rest).toList, ?_⟩
  simp [stashName_toList]

lemma RestoresFrom.mentions (restores : kind.RestoresFrom number) : kind.mentionsStash := by
  obtain ⟨front, block, rfl⟩ := restores
  refine decide_eq_true ⟨(front ++ "extract(").toList, Nat.toDigits 10 number ++
    ("); unset(" ++ stashName number ++ ");").toList, ?_⟩
  simp [stashName_toList]

end NodeKind

/-- A line that saves variables, a later sibling that restores them, and what is between them. -/
@[ext]
structure Scope (Node : Type) where
  stash : String
  save : Node
  within : List Node
  restore : Node

namespace Scope

variable {Node : Type} (scope : Scope Node) (more : List Node)

lemma within_subset : scope.within ⊆ scope.save :: scope.within ++ scope.restore :: more := by
  intro node mem
  simp [mem]

lemma rest_subset : more ⊆ scope.save :: scope.within ++ scope.restore :: more := by
  intro node mem
  simp [mem]

end Scope

section Forest

variable {Node Other : Type} {kind : Node → NodeKind} {children : Node → List Node}
  {otherKind : Other → NodeKind} {otherChildren : Other → List Other}

/-- Siblings in which, and below which, the lines that save and restore variables pair off. The
scopes are given in the order of the lines that open them. -/
inductive Paired (kind : Node → NodeKind) (children : Node → List Node) (quote : Char) :
    List Node → List (Scope Node) → Prop
  | nil : Paired kind children quote [] []
  | plain {node more inner outer}
      (free : (kind node).mentionsStash = false)
      (below : Paired kind children quote (children node) inner)
      (rest : Paired kind children quote more outer) :
      Paired kind children quote (node :: more) (inner ++ outer)
  | scope {more inner outer} (scope : Scope Node)
      {names} (saves : kind scope.save = .saving names scope.stash quote)
      (restores : kind scope.restore = .restoring names scope.stash)
      (saveLeaf : children scope.save = []) (restoreLeaf : children scope.restore = [])
      (inside : Paired kind children quote scope.within inner)
      (rest : Paired kind children quote more outer) :
      Paired kind children quote (scope.save :: scope.within ++ scope.restore :: more)
        (scope :: inner ++ outer)

namespace Paired

lemma append (first : Paired kind children quote left early)
    (second : Paired kind children quote right late) :
    Paired kind children quote (left ++ right) (early ++ late) := by
  induction first with
  | nil => exact second
  | plain free below rest _ ih =>
    rw [append_assoc]
    exact .plain free below ih
  | scope scope saves restores saveLeaf restoreLeaf inside rest _ ih =>
    have whole := Paired.scope scope saves restores saveLeaf restoreLeaf inside ih
    simpa only [cons_append, append_assoc] using whole

lemma of_plain (free : ∀ node ∈ nodes, (kind node).mentionsStash = false)
    (leaf : ∀ node ∈ nodes, children node = []) : Paired kind children quote nodes [] := by
  induction nodes with
  | nil => exact .nil
  | cons node more ih =>
    have below : Paired kind children quote (children node) [] := by
      rw [leaf node mem_cons_self]
      exact .nil
    exact .plain (free node mem_cons_self) below (ih (forall_mem_cons.1 free).2 (forall_mem_cons.1 leaf).2)

lemma of_view (kinds : ∀ other, kind (view other) = otherKind other)
    (below : ∀ other, children (view other) = (otherChildren other).map view)
    (paired : Paired kind children quote nodes scopes)
    (same : others.map view = nodes) : ∃ found, Paired otherKind otherChildren quote others found ∧
      found.map Scope.stash = scopes.map Scope.stash := by
  induction paired generalizing others with
  | nil =>
    rw [map_eq_nil_iff.1 same]
    exact ⟨[], .nil, rfl⟩
  | plain free _ _ belowIh restIh =>
    obtain ⟨other, more, rfl, rfl, sameMore⟩ := map_eq_cons_iff.1 same
    obtain ⟨inner, innerPaired, innerSame⟩ := belowIh (below other).symm
    obtain ⟨outer, outerPaired, outerSame⟩ := restIh sameMore
    rw [kinds] at free
    refine ⟨inner ++ outer, .plain free innerPaired outerPaired, ?_⟩
    rw [map_append, map_append, innerSame, outerSame]
  | scope scope saves restores saveLeaf restoreLeaf _ _ insideIh restIh =>
    obtain ⟨front, back, rfl, sameFront, sameBack⟩ := map_eq_append_iff.1 same
    obtain ⟨save, within, rfl, sameSave, sameWithin⟩ := map_eq_cons_iff.1 sameFront
    obtain ⟨restore, more, rfl, sameRestore, sameMore⟩ := map_eq_cons_iff.1 sameBack
    obtain ⟨inner, innerPaired, innerSame⟩ := insideIh sameWithin
    obtain ⟨outer, outerPaired, outerSame⟩ := restIh sameMore
    rw [← sameSave] at saves saveLeaf
    rw [← sameRestore] at restores restoreLeaf
    rw [kinds] at saves restores
    rw [below] at saveLeaf restoreLeaf
    refine ⟨⟨scope.stash, save, within, restore⟩ :: inner ++ outer,
      .scope ⟨scope.stash, save, within, restore⟩ saves restores
        (map_eq_nil_iff.1 saveLeaf) (map_eq_nil_iff.1 restoreLeaf) innerPaired
        outerPaired, ?_⟩
    rw [cons_append, cons_append, map_cons, map_cons, map_append, map_append, innerSame, outerSame]

end Paired

end Forest

namespace Tree

lemma dropMixins_append : dropMixins (left ++ right) = dropMixins left ++ dropMixins right := by
  rw [dropMixins_eq_map, dropMixins_eq_map, dropMixins_eq_map, filter_append, map_append]

lemma dropMixins_lines (lines : ∀ tree ∈ trees, tree.IsLine) : dropMixins trees = trees := by
  induction trees with
  | nil => rfl
  | cons tree more ih =>
    have isLine := lines tree mem_cons_self
    have same : tree.withoutMixins = tree := by
      obtain ⟨kind, pos, attrs, children⟩ := tree
      have leaf : children = [] := isLine.leaf
      rw [leaf]
      rfl
    rw [dropMixins, isLine.noMixin, same, ih (forall_mem_cons.1 lines).2]
    rfl

lemma paired_call (defn call stash) {expanded inner}
    (inside : Paired kind children quote expanded inner) :
    ∃ scopes, Paired kind children quote
        (opening defn call stash quote ++ expanded ++ closing defn call stash quote) scopes ∧
      (scopes.map Scope.stash).Sublist (stash :: inner.map Scope.stash) := by
  unfold opening closing
  dsimp only
  split
  · refine ⟨inner, ?_, sublist_cons_self _ _⟩
    rw [append_nil]
    exact inside
  · let bound := callBindings defn call quote
    let bindings : List Tree := bound.map fun binding =>
      call.line (.statement (.binding binding.1 binding.2))
    let scope : Scope Tree :=
      { stash
        save := call.line (.saving (bound.map Prod.fst) stash quote)
        within := bindings ++ expanded
        restore := call.line (.restoring (bound.map Prod.fst) stash) }
    have bindingLines : Paired kind children quote bindings [] := by
      apply Paired.of_plain
      all_goals
        intro tree mem
        obtain ⟨binding, _, rfl⟩ := mem_map.1 mem
        rfl
    have whole := Paired.scope scope rfl rfl rfl rfl (bindingLines.append inside) .nil
    rw [append_nil] at whole
    refine ⟨scope :: inner, ?_, List.Sublist.refl _⟩
    exact whole

/-- After an expansion the lines that save and restore pair off, each pair under a name of its
own. -/
theorem Expands.paired (expands : Expands defs quote fuel trees names out)
    (defined : ∀ entry ∈ defs, entry.2.Lacks mentionsStash)
    (free : ∀ tree ∈ trees, tree.Lacks mentionsStash) :
    ∃ scopes, Paired kind children quote (dropMixins out) scopes ∧ (scopes.map Scope.stash).Sublist names := by
  induction expands with
  | nil => exact ⟨[], .nil, .slnil⟩
  | mixin isMixin rest ih =>
    rw [dropMixins, isMixin]
    exact ih (forall_mem_cons.1 free).2
  | @call _ call defn name _ _ _ _ _ stash called found inside rest insideIh
      restIh =>
    obtain ⟨before, after, reversed, _⟩ := lookup_eq_some_iff.1 found
    have isDefined : (name, defn) ∈ defs := by
      rw [← mem_reverse, reversed]
      simp
    have definitionFree := defined _ isDefined
    have callFree := free call mem_cons_self
    obtain ⟨inner, innerPaired, innerNames⟩ := insideIh (body_lacks definitionFree callFree)
    obtain ⟨outer, outerPaired, outerNames⟩ := restIh (forall_mem_cons.1 free).2
    obtain ⟨scopes, paired, scopeNames⟩ :=  paired_call defn call stash innerPaired
    refine ⟨scopes ++ outer, ?_, ?_⟩
    · rw [dropMixins_append, dropMixins_append, dropMixins_append,
        dropMixins_lines (opening_lines defn call stash quote),
        dropMixins_lines (closing_lines defn call stash quote)]
      exact paired.append outerPaired
    · rw [map_append]
      exact (scopeNames.trans (innerNames.cons_cons stash)).append outerNames
  | @other _ tree _ expanded _ _ _ noMixin noCall below rest belowIh restIh =>
    have treeFree := free tree mem_cons_self
    obtain ⟨inner, innerPaired, innerNames⟩ := belowIh treeFree.children
    obtain ⟨outer, outerPaired, outerNames⟩ := restIh (forall_mem_cons.1 free).2
    obtain ⟨kind, pos, attrs, children⟩ := tree
    have stays : ((node kind pos attrs children).withChildren expanded).kind.isMixin = false := noMixin
    refine ⟨inner ++ outer, ?_, ?_⟩
    · rw [dropMixins, if_neg (ne_true_of_eq_false stays)]
      exact .plain (lacks_node_iff.1 treeFree).1 innerPaired outerPaired
    · rw [map_append]
      exact innerNames.append outerNames

end Tree

namespace Document

variable {doc : Document}

def below (doc : Document) (ids : List NodeId) : List NodeId :=
  ids.flatMap doc.descendants

lemma below_cons (id) : doc.below (id :: more) = doc.descendants id ++ doc.below more := rfl

lemma below_append : doc.below (left ++ right) = doc.below left ++ doc.below right := flatMap_append

lemma below_subset (subset : left ⊆ right) : doc.below left ⊆ doc.below right := by
  intro id mem
  obtain ⟨top, isTop, further⟩ := mem_flatMap.1 mem
  exact mem_flatMap.2 ⟨top, subset isTop, further⟩

/-- All that a scope encloses, with its two lines. -/
def span (doc : Document) (scope : Scope NodeId) : List NodeId :=
  doc.below (scope.save :: scope.within ++ [scope.restore])

/-- Two scopes have nothing in common, or one is inside the other. -/
def Apart (doc : Document) (first second : Scope NodeId) : Prop :=
  (doc.span first).Disjoint (doc.span second) ∨ doc.span first ⊆ doc.below second.within ∨
    doc.span second ⊆ doc.below first.within

/-- Two lines of the tree that save and restore the same variables from under the same number,
the second a later sibling of the first. -/
structure IsScope (document : Document) (quote : Char) (number : Nat) (scope : Scope NodeId) : Prop where
  stash : scope.stash = Mixin.stashName number
  lines : ∃ names, document.kind scope.save = .saving names scope.stash quote ∧
    document.kind scope.restore = .restoring names scope.stash
  siblings : ∃ parent ∈ document.descendants root, ∃ front back,
    document.children parent = front ++ scope.save :: scope.within ++ scope.restore :: back

instance : Std.Symm doc.Apart where
  symm first second apart := by
    rcases apart with disjoint | firstInside | secondInside
    · exact .inl fun id inSecond inFirst => disjoint inFirst inSecond
    · exact .inr (.inr firstInside)
    · exact .inr (.inl secondInside)

variable {scope : Scope NodeId}

section Paired

variable (wf : doc.WellFormed)

include wf

lemma below_lines (saveLeaf : doc.children scope.save = []) (restoreLeaf : doc.children scope.restore = []) :
    doc.below (scope.save :: scope.within ++ scope.restore :: more) =
      scope.save :: doc.below scope.within ++ scope.restore :: doc.below more := by
  rw [below_append, below_cons, below_cons, wf.descendants_eq, saveLeaf, wf.descendants_eq, restoreLeaf]
  rfl

variable {ids : List NodeId} {scopes : List (Scope NodeId)}
  (paired : Paired doc.kind doc.children quote ids scopes)

include paired

lemma paired_lines : ∀ id ∈ doc.below ids, (doc.kind id).mentionsStash →
    ∃ scope ∈ scopes, id = scope.save ∨ id = scope.restore := by
  induction paired with
  | nil =>
    intro id mem
    cases mem
  | @plain node more inner outer free _ _ belowIh restIh =>
    intro id mem mentions
    rw [below_cons, wf.descendants_eq, cons_append, mem_cons, mem_append] at mem
    rcases mem with same | further | late
    · rw [same, free] at mentions
      cases mentions
    · obtain ⟨scope, isInner, line⟩ := belowIh id further mentions
      exact ⟨scope, mem_append_left _ isInner, line⟩
    · obtain ⟨scope, isOuter, line⟩ := restIh id late mentions
      exact ⟨scope, mem_append_right _ isOuter, line⟩
  | @scope more inner outer scope names saves restores saveLeaf restoreLeaf _ _ insideIh
      restIh =>
    intro id mem mentions
    rw [below_lines wf saveLeaf restoreLeaf, cons_append, mem_cons, mem_append, mem_cons] at mem
    rcases mem with isSave | within | isRestore | late
    · exact ⟨scope, mem_cons_self, .inl isSave⟩
    · obtain ⟨other, isInner, line⟩ := insideIh id within mentions
      exact ⟨other, by simp [isInner], line⟩
    · exact ⟨scope, mem_cons_self, .inr isRestore⟩
    · obtain ⟨other, isOuter, line⟩ := restIh id late mentions
      exact ⟨other, by simp [isOuter], line⟩

/-- Where a scope stands: among the siblings, or among the children of a node below them. -/
theorem paired_siblings : ∀ scope ∈ scopes, (∃ names, doc.kind scope.save = .saving names scope.stash quote ∧
    doc.kind scope.restore = .restoring names scope.stash) ∧ ∃ siblings front back,
    (siblings = ids ∨ ∃ parent ∈ doc.below ids, siblings = doc.children parent) ∧
      siblings = front ++ scope.save :: scope.within ++ scope.restore :: back := by
  induction paired with
  | nil =>
    intro scope mem
    cases mem
  | @plain node more inner outer free _ _ belowIh restIh =>
    intro scope mem
    rcases mem_append.1 mem with isInner | isOuter
    · obtain ⟨lines, siblings, front, back, place, split⟩ := belowIh scope isInner
      refine ⟨lines, siblings, front, back, .inr ?_, split⟩
      rw [below_cons, wf.descendants_eq]
      rcases place with same | ⟨parent, further, same⟩
      · exact ⟨node, mem_cons_self, same⟩
      · exact ⟨parent, mem_append_left _ (mem_cons_of_mem _ further), same⟩
    · obtain ⟨lines, siblings, front, back, place, split⟩ := restIh scope isOuter
      rcases place with rfl | ⟨parent, further, same⟩
      · exact ⟨lines, node :: siblings, node :: front, back, .inl rfl, congrArg (node :: ·) split⟩
      · exact ⟨lines, siblings, front, back,
          .inr ⟨parent, below_subset (subset_cons_self _ _) further, same⟩, split⟩
  | @scope more inner outer scope names saves restores saveLeaf restoreLeaf _ _ insideIh
      restIh =>
    intro other mem
    rw [cons_append, mem_cons, mem_append] at mem
    rcases mem with rfl | isInner | isOuter
    · exact ⟨⟨names, saves, restores⟩, _, [], more, .inl rfl, rfl⟩
    · obtain ⟨lines, siblings, front, back, place, split⟩ := insideIh other isInner
      rcases place with same | ⟨parent, further, same⟩
      · refine ⟨lines, _, scope.save :: front, back ++ scope.restore :: more, .inl rfl, ?_⟩
        rw [← same, split]
        simp
      · exact ⟨lines, siblings, front, back,
          .inr ⟨parent, below_subset (scope.within_subset more) further, same⟩, split⟩
    · obtain ⟨lines, siblings, front, back, place, split⟩ := restIh other isOuter
      rcases place with same | ⟨parent, further, same⟩
      · refine ⟨lines, _, scope.save :: scope.within ++ scope.restore :: front, back, .inl rfl, ?_⟩
        rw [← same, split]
        simp
      · exact ⟨lines, siblings, front, back,
          .inr ⟨parent, below_subset (scope.rest_subset more) further, same⟩, split⟩

lemma paired_span : ∀ scope ∈ scopes, doc.span scope ⊆ doc.below ids := by
  intro scope mem id spanned
  obtain ⟨-, siblings, front, back, place, split⟩ := paired_siblings wf paired scope mem
  have inside : id ∈ doc.below siblings := below_subset (IsInfix.subset ⟨front, back, by simp [split]⟩) spanned
  rcases place with rfl | ⟨parent, further, rfl⟩
  · exact inside
  · obtain ⟨top, isTop, under⟩ := mem_flatMap.1 further
    refine mem_flatMap.2 ⟨top, isTop, wf.descendants_trans under ?_⟩
    exact wf.descendants_eq ▸ mem_cons_of_mem _ inside

/-- Where no node stands twice, any two scopes are disjoint or nested. -/
theorem paired_apart (distinct : (doc.below ids).Nodup) : scopes.Pairwise doc.Apart := by
  induction paired with
  | nil => exact .nil
  | plain free innerPaired outerPaired belowIh restIh =>
    rw [below_cons, wf.descendants_eq] at distinct
    obtain ⟨here, late, separate⟩ := nodup_append'.1 distinct
    refine pairwise_append.2 ⟨belowIh (nodup_cons.1 here).2, restIh late, ?_⟩
    intro first isInner second isOuter
    have firstSpan := paired_span wf innerPaired first isInner
    have secondSpan := paired_span wf outerPaired second isOuter
    exact .inl fun id inFirst inSecond =>
      separate (mem_cons_of_mem _ (firstSpan inFirst)) (secondSpan inSecond)
  | @scope more _ _ scope _ saves restores saveLeaf restoreLeaf innerPaired outerPaired
      insideIh restIh =>
    have whole : doc.below (scope.save :: scope.within ++ scope.restore :: more) =
        doc.span scope ++ doc.below more := by
      rw [span, ← below_append]
      simp
    rw [whole] at distinct
    obtain ⟨here, late, separate⟩ := nodup_append'.1 distinct
    have inner_span := paired_span wf innerPaired
    have outer_span := paired_span wf outerPaired
    have innerDistinct : (doc.below scope.within).Nodup := by
      rw [span, cons_append, below_cons, below_append] at here
      exact (nodup_append'.1 (nodup_append'.1 here).2.1).1
    refine pairwise_cons.2 ⟨?_, pairwise_append.2 ⟨insideIh innerDistinct, restIh late, ?_⟩⟩
    · intro other mem
      rcases mem_append.1 mem with isInner | isOuter
      · exact .inr (.inr (inner_span other isInner))
      · exact .inl fun id isIn isOther => separate isIn (outer_span other isOuter isOther)
    · intro first isInner second isOuter
      refine .inl fun id inFirst inSecond => separate ?_ (outer_span second isOuter inSecond)
      rw [span, cons_append, below_cons, below_append]
      exact mem_append_right _ (mem_append_left _ (inner_span first isInner inFirst))

end Paired

lemma within_unique {front within back otherFront otherWithin otherBack}
    {save restore : NodeId} (distinct : (front ++ save :: within ++ restore :: back).Nodup)
    (same : front ++ save :: within ++ restore :: back =
      otherFront ++ save :: otherWithin ++ restore :: otherBack) : within = otherWithin := by
  simp only [append_assoc] at distinct same
  obtain ⟨-, later, separate⟩ := nodup_append'.1 distinct
  obtain ⟨saveOnce, inner⟩ := nodup_cons.1 later
  have saveLate : save ∉ front := fun early => separate early mem_cons_self
  obtain ⟨-, -, rest⟩ := (append_cons_inj_of_notMem saveLate saveOnce).1 same
  obtain ⟨-, behind, apart⟩ := nodup_append'.1 inner
  have restoreLate : restore ∉ within := fun early => apart early mem_cons_self
  exact ((append_cons_inj_of_notMem restoreLate (nodup_cons.1 behind).1).1 rest).1

lemma expandMixins_well_formed (wf : doc.WellFormed)
    (ok : doc.expandMixins limit quote = .ok expanded) : expanded.WellFormed := by
  obtain ⟨final, levels, ⟨⟩⟩ := ok_of_pure ok
  have unrolled := expandLevels_done wf limit (Advances.refl wf) (pending_start wf) levels
  exact (dropMixins_drops unrolled.advances.well_formed).well_formed

lemma expandMixins_paired (wf : doc.WellFormed)
    (ownCode : ∀ id ∈ doc.descendants root, (doc.kind id).mentionsStash = false)
    (ok : doc.expandMixins limit quote = .ok expanded) :
    ∃ scopes, Paired expanded.kind expanded.children quote (expanded.children root) scopes ∧
      (scopes.map Scope.stash).Nodup ∧ ∀ scope ∈ scopes, ∃ number, scope.stash = stashName number := by
  have expandedWf := expandMixins_well_formed wf ok
  obtain ⟨⟨renumber, injective, done⟩, -⟩ := doc.expandMixins_tree wf limit quote ok
  obtain ⟨count, inside, expands, same⟩ := Tree.expandMixins_eq_some_iff.1 done
  have free : doc.tree.Lacks mentionsStash := wf.treeAt_lacks_iff.2 ownCode
  have defined : ∀ entry ∈ doc.tree.definitions, entry.2.Lacks mentionsStash := by
    intro entry mem
    obtain ⟨below, isBelow, named⟩ := mem_filterMap.1 mem
    obtain ⟨name, _, rfl⟩ := Option.map_eq_some_iff.1 named
    exact Tree.Everywhere.descendant free below isBelow
  obtain ⟨scopes, paired, names⟩ := expands.paired defined free.children
  have children : (expanded.children root).map expanded.treeAt = Tree.dropMixins inside := by
    rw [← children_treeAt expandedWf]
    exact congrArg Tree.children same
  obtain ⟨found, foundPaired, stashes⟩ := paired.of_view expanded.kind_treeAt
    (children_treeAt expandedWf) children
  rw [← stashes] at names
  refine ⟨found, foundPaired, ?_, ?_⟩
  · apply names.nodup
    refine List.Nodup.map ?_ nodup_range'
    exact stashName_injective.comp injective
  · intro scope mem
    obtain ⟨number, _, isName⟩ := mem_map.1 (names.subset (mem_map_of_mem mem))
    exact ⟨renumber number, isName.symm⟩

section Registered

variable (wf : doc.WellFormed) {scopes : List (Scope NodeId)}
  (paired : Paired doc.kind doc.children quote (doc.children root) scopes)

include wf paired

lemma paired_live : ∀ id ∈ doc.descendants root, (doc.kind id).mentionsStash →
    ∃ scope ∈ scopes, id = scope.save ∨ id = scope.restore := by
  intro id live mentions
  rw [wf.descendants_eq, mem_cons] at live
  rcases live with isRoot | further
  · rw [isRoot, wf.root_kind] at mentions
    cases mentions
  · exact paired_lines wf paired id further mentions

lemma paired_isScope (mem : scope ∈ scopes) (stash : scope.stash = stashName number) :
    doc.IsScope quote number scope := by
  obtain ⟨lines, siblings, front, back, place, split⟩ := paired_siblings wf paired scope mem
  refine ⟨stash, lines, ?_⟩
  rcases place with rfl | ⟨parent, further, rfl⟩
  · exact ⟨root, wf.self_descendants, front, back, split⟩
  · exact ⟨parent, wf.descendants_eq ▸ mem_cons_of_mem _ further, front, back, split⟩

variable (numbered : ∀ scope ∈ scopes, ∃ number, scope.stash = stashName number)

include numbered

lemma paired_save {id} (live : id ∈ doc.descendants root) (saves : (doc.kind id).SavesAs number) :
    ∃ scope ∈ scopes, scope.save = id ∧ scope.stash = stashName number := by
  obtain ⟨scope, mem, line⟩ := paired_live wf paired id live saves.mentions
  obtain ⟨own, stash⟩ := numbered scope mem
  obtain ⟨names, isSave, isRestore⟩ := (paired_isScope wf paired mem stash).lines
  rcases line with rfl | rfl
  · rw [isSave, stash] at saves
    have same := saves.unique (saving_savesAs names own quote)
    exact ⟨scope, mem, rfl, same ▸ stash⟩
  · rw [isRestore] at saves
    exact absurd saves (restoring_saves_nothing names scope.stash number)

lemma paired_restore {id} (live : id ∈ doc.descendants root)
    (restores : (doc.kind id).RestoresFrom number) :
    ∃ scope ∈ scopes, scope.restore = id ∧ scope.stash = stashName number := by
  obtain ⟨scope, mem, line⟩ := paired_live wf paired id live restores.mentions
  obtain ⟨own, stash⟩ := numbered scope mem
  obtain ⟨names, isSave, isRestore⟩ := (paired_isScope wf paired mem stash).lines
  rcases line with rfl | rfl
  · rw [isSave] at restores
    exact absurd restores (saving_restores_nothing names scope.stash quote number)
  · rw [isRestore, stash] at restores
    have same := restores.unique (restoring_restoresFrom names own)
    exact ⟨scope, mem, rfl, same ▸ stash⟩

variable (distinct : (scopes.map Scope.stash).Nodup)

include distinct

lemma mem_of_isScope (isScope : doc.IsScope quote number scope) : scope ∈ scopes := by
  obtain ⟨names, isSave, isRestore⟩ := isScope.lines
  obtain ⟨parent, live, front, back, split⟩ := isScope.siblings
  have child : ∀ id ∈ front ++ scope.save :: scope.within ++ scope.restore :: back, id ∈ doc.descendants root := by
    intro id mem
    rw [← split] at mem
    exact wf.descendants_child live mem
  rw [isScope.stash] at isSave isRestore
  obtain ⟨opened, isOpened, sameSave, openedStash⟩ := paired_save wf paired numbered
    (child scope.save (by simp)) (isSave ▸ saving_savesAs names number quote)
  obtain ⟨closed, isClosed, sameRestore, closedStash⟩ := paired_restore wf paired numbered
    (child scope.restore (by simp)) (isRestore ▸ restoring_restoresFrom names number)
  have same : closed = opened := inj_on_of_nodup_map distinct isClosed isOpened
    (closedStash.trans openedStash.symm)
  obtain ⟨otherParent, otherLive, otherFront, otherBack, otherSplit⟩ :=
    (paired_isScope wf paired isOpened openedStash).siblings
  rw [same] at sameRestore
  rw [sameSave, sameRestore] at otherSplit
  have saveChild : scope.save ∈ doc.children parent := by simp [split]
  have otherChild : scope.save ∈ doc.children otherParent := by simp [otherSplit]
  have oneParent : otherParent = parent := Option.some.inj
    ((wf.child_parent otherChild).symm.trans (wf.child_parent saveChild))
  have spread := wf.children_distinct parent
  rw [oneParent, split] at otherSplit
  rw [split] at spread
  have sameWithin := within_unique spread otherSplit
  have whole : scope = opened :=
    Scope.ext (isScope.stash.trans openedStash.symm) sameSave.symm sameWithin sameRestore.symm
  rw [whole]
  exact isOpened

end Registered

end Document

namespace Compiler

/-- A mixin with two slots, which a call fills with a further call. -/
def twoSlotSource : String :=
  "mixin twice(a)\n  p= $a\n  block\n  block\nmixin item(b)\n  li= $b\n+twice(1)\n  +item(2)\n"

end Compiler

end PugTemplate
