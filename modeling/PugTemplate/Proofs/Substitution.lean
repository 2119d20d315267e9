import PugTemplate.Proofs.Views

/-!
# Expansion of mixins on trees

On trees the expansion of mixins is a substitution. A call outside of mixins is replaced by the body of
the mixin with the content of the call in its slots, between the lines that save and restore variables,
and the calls in there are expanded in turn, one level deeper. The names under which variables are
saved are numbered as the calls are met; the relation `Expands` leaves the names open.
-/

namespace PugTemplate

open List

namespace NodeKind

def isSlot : NodeKind → Bool
  | statement (.block none _) => true
  | _ => false

def mixinName? : NodeKind → Option String
  | statement (.mixin name) => some name
  | _ => none

def calledName? : NodeKind → Option String
  | statement (.call name) => some name
  | _ => none

lemma isCall_of_calledName {kind : NodeKind} {name}
    (called : kind.calledName? = some name) : kind.isCall := by
  unfold calledName? at called
  split at called
  · rfl
  · cases called

def parameter? : NodeKind → Option Mixin.Parameter
  | attr ⟨some name, value, _, _⟩ => some (.ofText name value)
  | attr ⟨none, some value, _, _⟩ => some (.ofText value none)
  | _ => none

def positional? : NodeKind → Option String
  | attr ⟨none, some value, _, _⟩ => some value
  | _ => none

def named? : NodeKind → Option (String × String)
  | attr ⟨some name, value, _, _⟩ => some (name, value.getD "true")
  | _ => none

def spread? : NodeKind → Option String
  | attr entry => (entry.value <|> entry.name).map Text.trimmed
  | _ => none

def isAssignment : NodeKind → Bool
  | assignment _ => true
  | _ => false

end NodeKind

namespace Tree

def withChildren (tree : Tree) (children : List Tree) : Tree :=
  node tree.kind tree.position tree.attributes children

lemma withChildren_children (tree : Tree) : tree.withChildren tree.children = tree := by
  cases tree with
  | node kind pos attrs children => rfl

def definitions (tree : Tree) : List (String × Tree) :=
  tree.descendants.filterMap fun below => below.kind.mixinName?.map fun name => (name, below)

def parameters (definition : Tree) : List Mixin.Parameter :=
  definition.attributes.filterMap (·.kind.parameter?)

def arguments (call : Tree) : Mixin.Arguments where
  positional := call.attributes.filterMap (·.kind.positional?)
  named := call.attributes.filterMap (·.kind.named?)
  spreads := call.attributes.flatMap fun entry =>
    if entry.kind.isAssignment then entry.attributes.filterMap (·.kind.spread?) else []

def readsAttributes (definition : Tree) : Bool :=
  definition.descendants.any fun below =>
    below.kind.readsAttributes || below.attributes.any fun owned =>
      owned.kind.readsAttributes || owned.attributes.any (·.kind.readsAttributes)

/-- The variables that a call binds, with their values. -/
def callBindings (definition call : Tree) (quote : Char) : List (String × String) :=
  Mixin.bindings definition.parameters call.arguments definition.readsAttributes quote

mutual

/-- Gives content to every slot outside of mixins. -/
def fill (content : List Tree) : Tree → Tree
  | node kind position attributes children =>
    if kind.isMixin then
      node kind position attributes children
    else if kind.isSlot then
      node kind position attributes content
    else
      node kind position attributes (fillAll content children)

def fillAll (content : List Tree) : List Tree → List Tree
  | [] => []
  | tree :: more => tree.fill content :: fillAll content more

end

lemma fillAll_eq_map : fillAll content trees = trees.map (fill content) := by
  induction trees with
  | nil => rfl
  | cons tree more ih => simp [fillAll, ih]

def body (definition call : Tree) : List Tree :=
  if call.children.isEmpty then definition.children else fillAll call.children definition.children

def line (call : Tree) (kind : NodeKind) : Tree :=
  node kind call.position [] []

/-- The lines of a call that binds variables: they are saved and get their values. -/
def opening (definition call : Tree) (stash : String) (quote : Char) : List Tree :=
  let bound := callBindings definition call quote
  let keys := (bound.map Prod.fst).map fun name => Expression.codeString (Mixin.bareName name) quote
  let save := s!"{stash} = array_intersect_key(get_defined_vars(), array_flip([" ++ ", ".intercalate keys ++ "]));"
  if bound.isEmpty then
    []
  else
    call.line (.statement (.code save false)) ::
      bound.map fun (name, value) => call.line (.statement (.binding name value))

/-- The line behind it: what was saved is put back, and other variables are removed. -/
def closing (definition call : Tree) (stash : String) (quote : Char) : List Tree :=
  let bound := callBindings definition call quote
  let restore := "unset(" ++ ", ".intercalate (bound.map Prod.fst) ++ s!"); extract({stash}); unset({stash});"
  if bound.isEmpty then
    []
  else
    [call.line (.statement (.code restore false))]

def replacement (definition call : Tree) (stash : String) (quote : Char) : List Tree :=
  opening definition call stash quote ++ body definition call ++ closing definition call stash quote

/-- The trees in the place of a call, and the number of calls that have been expanded. -/
abbrev Expander := Tree → Nat → Option (List Tree × Nat)

mutual

/-- Expands the calls of a tree outside of mixins. -/
def expandIn (expander : Expander) : Tree → Nat → Option (List Tree × Nat)
  | node kind position attributes children, scopes =>
    if kind.isMixin then
      some ([node kind position attributes children], scopes)
    else if kind.isCall then
      expander (node kind position attributes children) scopes
    else do
      let (expanded, after) ← expandAllIn expander children scopes
      return ([node kind position attributes expanded], after)

def expandAllIn (expander : Expander) : List Tree → Nat → Option (List Tree × Nat)
  | [], scopes => some ([], scopes)
  | tree :: more, scopes => do
    let (first, middle) ← expandIn expander tree scopes
    let (rest, last) ← expandAllIn expander more middle
    return (first ++ rest, last)

end

/-- Expands a call and the calls that come with it, at most `remaining` levels deep. The last
mixin of a name counts. -/
def expandCall (definitions : List (String × Tree)) (stash : Nat → String) (quote : Char) :
    Nat → Expander
  | 0, _, _ => none
  | remaining + 1, call, scopes => do
    let name ← call.kind.calledName?
    let definition ← List.lookup name definitions.reverse
    expandAllIn (expandCall definitions stash quote remaining)
      (replacement definition call (stash scopes) quote) (scopes + 1)

mutual

def withoutMixins : Tree → Tree
  | node kind position attributes children =>
    node kind position attributes (dropMixins children)

def dropMixins : List Tree → List Tree
  | [] => []
  | tree :: more =>
    if tree.kind.isMixin then dropMixins more else tree.withoutMixins :: dropMixins more

end

/-- The tree with every call expanded and without mixins; `stash` names the variables that hold
saved values. -/
def expandMixins (tree : Tree) (limit : Nat) (quote : Char) (stash : Nat → String) : Option Tree := do
  let expander := expandCall tree.definitions stash quote limit
  let (expanded, _) ← expandAllIn expander tree.children 0
  return tree.withChildren (dropMixins expanded)

/-- Trees and what they become when their calls are expanded. The names of saved variables are
given in the order in which the expansion meets the calls. -/
inductive Expands (definitions : List (String × Tree)) (quote : Char) :
    Nat → List Tree → List String → List Tree → Prop
  | nil : Expands definitions quote remaining [] [] []
  | mixin {remaining tree more out names}
      (isMixin : tree.kind.isMixin)
      (rest : Expands definitions quote remaining more names out) :
      Expands definitions quote remaining (tree :: more) names (tree :: out)
  | call {remaining call definition name more expanded out inner names} (stash : String)
      (called : call.kind.calledName? = some name)
      (found : List.lookup name definitions.reverse = some definition)
      (inside : Expands definitions quote remaining (body definition call) inner expanded)
      (rest : Expands definitions quote (remaining + 1) more names out) :
      Expands definitions quote (remaining + 1) (call :: more) (stash :: inner ++ names)
        (opening definition call stash quote ++ expanded ++ closing definition call stash quote ++ out)
  | other {remaining tree more expanded out inner names} (noMixin : tree.kind.isMixin = false)
      (noCall : tree.kind.isCall = false)
      (below : Expands definitions quote remaining tree.children inner expanded)
      (rest : Expands definitions quote remaining more names out) :
      Expands definitions quote remaining (tree :: more) (inner ++ names)
        (tree.withChildren expanded :: out)

variable {out : List Tree} {scopes last : Nat}

namespace Expands

lemma append (left : Expands defs quote fuel first firstNames firstOut)
    (right : Expands defs quote fuel second secondNames secondOut) :
    Expands defs quote fuel (first ++ second) (firstNames ++ secondNames) (firstOut ++ secondOut) := by
  induction left with
  | nil => exact right
  | mixin isMixin rest ih => exact .mixin isMixin (ih right)
  | call stash called found inside rest _ ih =>
    have whole := call stash called found inside (ih right)
    simpa only [cons_append, append_assoc] using whole
  | other noMixin noCall below rest _ ih =>
    have whole := other noMixin noCall below (ih right)
    simpa only [cons_append, append_assoc] using whole

lemma append_inv {first second out names}
    (whole : Expands defs quote fuel (first ++ second) names out) :
    ∃ firstNames secondNames firstOut secondOut, names = firstNames ++ secondNames ∧ out = firstOut ++ secondOut ∧
      Expands defs quote fuel first firstNames firstOut ∧
      Expands defs quote fuel second secondNames secondOut := by
  induction first generalizing names out with
  | nil => exact ⟨[], names, [], out, rfl, rfl, .nil, whole⟩
  | cons tree more ih =>
    cases whole with
    | mixin isMixin rest =>
      obtain ⟨left, right, leftOut, rightOut, rfl, rfl, moreExpands, secondExpands⟩ := ih rest
      exact ⟨left, right, _, rightOut, rfl, rfl, .mixin isMixin moreExpands, secondExpands⟩
    | call stash called found inside rest =>
      obtain ⟨left, right, leftOut, rightOut, rfl, rfl, moreExpands, secondExpands⟩ := ih rest
      refine ⟨_, right, _, rightOut, ?_, ?_, .call stash called found inside moreExpands, secondExpands⟩
      · simp only [append_assoc]
      · simp only [append_assoc]
    | other noMixin noCall below rest =>
      obtain ⟨left, right, leftOut, rightOut, rfl, rfl, moreExpands, secondExpands⟩ := ih rest
      refine ⟨_, right, _, rightOut, ?_, ?_, .other noMixin noCall below moreExpands, secondExpands⟩
      · simp only [append_assoc]
      · simp only [cons_append]

lemma rename (expands : Expands defs quote fuel trees names out) (others)
    (sameLength : others.length = names.length) :
    ∃ renamed, Expands defs quote fuel trees others renamed := by
  induction expands generalizing others with
  | nil =>
    rw [length_eq_zero_iff.1 sameLength]
    exact ⟨[], .nil⟩
  | mixin isMixin rest ih =>
    obtain ⟨renamed, moreExpands⟩ := ih others sameLength
    exact ⟨_, .mixin isMixin moreExpands⟩
  | call stash called found inside rest insideIh restIh =>
    rename_i more expanded out inner names
    cases others with
    | nil => simp at sameLength
    | cons other rest =>
      have total : rest.length = inner.length + names.length := by simpa using sameLength
      obtain ⟨insideOut, insideExpands⟩ := insideIh (rest.take inner.length) (by simp [total])
      obtain ⟨restOut, restExpands⟩ := restIh (rest.drop inner.length) (by simp [total])
      have whole := call other called found insideExpands restExpands
      rw [cons_append, take_append_drop] at whole
      exact ⟨_, whole⟩
  | other noMixin noCall below rest belowIh restIh =>
    rename_i more expanded out inner names
    have total : others.length = inner.length + names.length := by simpa using sameLength
    obtain ⟨belowOut, belowExpands⟩ := belowIh (others.take inner.length) (by simp [total])
    obtain ⟨restOut, restExpands⟩ := restIh (others.drop inner.length) (by simp [total])
    have whole := other noMixin noCall belowExpands restExpands
    rw [take_append_drop] at whole
    exact ⟨_, whole⟩

end Expands

/-- A tree that stays as it is when calls are expanded. -/
structure IsLine (tree : Tree) : Prop where
  noMixin : tree.kind.isMixin = false
  noCall : tree.kind.isCall = false
  leaf : tree.children = []

lemma IsLine.withChildren {tree : Tree} (isLine : tree.IsLine) : tree.withChildren [] = tree := by
  rw [← isLine.leaf, withChildren_children]

lemma opening_lines (defn call stash quote) : ∀ tree ∈ opening defn call stash quote, tree.IsLine := by
  intro tree mem
  unfold opening at mem
  dsimp only at mem
  split at mem
  · cases mem
  · rcases mem_cons.1 mem with same | binding
    · rw [same]
      exact ⟨rfl, rfl, rfl⟩
    · obtain ⟨pair, -, same⟩ := mem_map.1 binding
      rw [← same]
      exact ⟨rfl, rfl, rfl⟩

lemma closing_lines (defn call stash quote) : ∀ tree ∈ closing defn call stash quote, tree.IsLine := by
  intro tree mem
  unfold closing at mem
  dsimp only at mem
  split at mem
  · cases mem
  · rw [mem_singleton.1 mem]
    exact ⟨rfl, rfl, rfl⟩

namespace Expands

lemma of_lines (lines : ∀ tree ∈ trees, tree.IsLine) : Expands defs quote fuel trees [] trees := by
  induction trees with
  | nil => exact .nil
  | cons tree more ih =>
    have isLine := lines tree (by simp)
    have rest := ih fun other mem => lines other (by simp [mem])
    have below : Expands defs quote fuel tree.children [] [] := by
      rw [isLine.leaf]
      exact .nil
    have whole := other isLine.noMixin isLine.noCall below rest
    rw [isLine.withChildren] at whole
    exact whole

lemma lines_inv (lines : ∀ tree ∈ trees, tree.IsLine)
    (expands : Expands defs quote fuel trees names out) : names = [] ∧ out = trees := by
  induction expands with
  | nil => exact ⟨rfl, rfl⟩
  | mixin isMixin rest ih =>
    have isLine := lines _ mem_cons_self
    rw [isLine.noMixin] at isMixin
    cases isMixin
  | call stash called found inside rest _ _ =>
    have noCall := (lines _ mem_cons_self).noCall
    rw [NodeKind.isCall_of_calledName called] at noCall
    cases noCall
  | other noMixin noCall below rest _ ih =>
    have isLine := lines _ mem_cons_self
    rw [isLine.leaf] at below
    cases below
    obtain ⟨noNames, sameOut⟩ := ih fun other mem => lines other (by simp [mem])
    rw [noNames, sameOut, isLine.withChildren]
    exact ⟨rfl, rfl⟩

lemma replacement_iff {defn call stash} : Expands defs quote fuel (replacement defn call stash quote) names out ↔
      ∃ expanded, Expands defs quote fuel (body defn call) names expanded ∧
        out = opening defn call stash quote ++ expanded ++ closing defn call stash quote := by
  have front := opening_lines defn call stash quote
  have back := closing_lines defn call stash quote
  constructor
  · intro expands
    obtain ⟨early, lastNames, earlyOut, lastOut, rfl, rfl, earlyExpands, last⟩ := append_inv expands
    obtain ⟨firstNames, inner, firstOut, expanded, rfl, rfl, first, inside⟩ := append_inv earlyExpands
    obtain ⟨rfl, rfl⟩ := lines_inv front first
    obtain ⟨rfl, rfl⟩ := lines_inv back last
    refine ⟨expanded, ?_, rfl⟩
    simpa using inside
  · rintro ⟨expanded, inside, rfl⟩
    have whole := ((of_lines front).append inside).append (of_lines back)
    simpa [replacement] using whole

end Expands

section Numbered

variable (defs : List (String × Tree)) (stash : Nat → String) (quote : Char)

/-- What an expander gives for a call is an expansion of it, with the next names. -/
def Expander.Sound (fuel : Nat) (expander : Expander) : Prop :=
  ∀ call scopes out last, expander call scopes = some (out, last) → ∃ count,
    last = scopes + count ∧ Expands defs quote fuel [call] ((List.range' scopes count).map stash) out

variable {defs stash quote}

mutual

lemma expandIn_expands (sound : expander.Sound defs stash quote fuel) :
    ∀ (tree : Tree) (scopes : Nat) (out : List Tree) (last : Nat),
      expandIn expander tree scopes = some (out, last) → ∃ count, last = scopes + count ∧
        Expands defs quote fuel [tree] ((List.range' scopes count).map stash) out
  | node kind pos attrs children, scopes, out, last, ok => by
    unfold expandIn at ok
    split at ok
    · rename_i isMixin
      cases ok
      exact ⟨0, rfl, .mixin isMixin .nil⟩
    · rename_i noMixin
      split at ok
      · exact sound _ scopes out last ok
      · rename_i noCall
        obtain ⟨⟨expanded, after⟩, below, same⟩ := Option.bind_eq_some_iff.1 ok
        cases same
        obtain ⟨count, total, inside⟩ := expandAllIn_expands sound children scopes expanded last below
        refine ⟨count, total, ?_⟩
        have kept : (node kind pos attrs children).kind.isMixin = false := Bool.eq_false_iff.2 noMixin
        have whole := Expands.other kept (Bool.eq_false_iff.2 noCall) inside .nil
        rw [append_nil] at whole
        exact whole

lemma expandAllIn_expands (sound : expander.Sound defs stash quote fuel) :
    ∀ (trees : List Tree) (scopes : Nat) (out : List Tree) (last : Nat),
      expandAllIn expander trees scopes = some (out, last) → ∃ count, last = scopes + count ∧
        Expands defs quote fuel trees ((List.range' scopes count).map stash) out
  | [], scopes, out, last, ok => by
    cases ok
    exact ⟨0, rfl, .nil⟩
  | tree :: more, scopes, out, last, ok => by
    obtain ⟨⟨firstOut, middle⟩, first, ok⟩ := Option.bind_eq_some_iff.1 ok
    obtain ⟨⟨restOut, final⟩, rest, same⟩ := Option.bind_eq_some_iff.1 ok
    cases same
    obtain ⟨count, rfl, firstExpands⟩ := expandIn_expands sound tree scopes firstOut middle first
    obtain ⟨others, rfl, restExpands⟩ := expandAllIn_expands sound more (scopes + count) restOut last rest
    refine ⟨count + others, by omega, ?_⟩
    rw [← range'_append_1, map_append]
    exact firstExpands.append restExpands

end

lemma expandCall_expands (fuel) : (expandCall defs stash quote fuel).Sound defs stash quote fuel := by
  induction fuel with
  | zero => exact fun _ _ _ _ ok => by cases ok
  | succ fuel ih =>
    intro call scopes out last ok
    obtain ⟨name, called, ok⟩ := Option.bind_eq_some_iff.1 ok
    obtain ⟨defn, found, ok⟩ := Option.bind_eq_some_iff.1 ok
    obtain ⟨count, rfl, inside⟩ := expandAllIn_expands ih
      (replacement defn call (stash scopes) quote) (scopes + 1) out last ok
    obtain ⟨expanded, insideBody, rfl⟩ := Expands.replacement_iff.1 inside
    refine ⟨count + 1, by omega, ?_⟩
    have whole := Expands.call (stash scopes) called found insideBody .nil
    simpa [range'_succ] using whole

end Numbered

lemma expandIn_mixin (expander) (isMixin : tree.kind.isMixin)
    (scopes) : expandIn expander tree scopes = some ([tree], scopes) := by
  cases tree with
  | node kind pos attrs children => exact if_pos isMixin

lemma expandIn_call (expander) (called : call.kind.calledName? = some name)
    (scopes) : expandIn expander call scopes = expander call scopes := by
  cases call with
  | node kind pos attrs children =>
    change kind.calledName? = some name at called
    unfold NodeKind.calledName? at called
    split at called
    · rfl
    · cases called

lemma expandIn_other (expander) (noMixin : tree.kind.isMixin = false) (noCall : tree.kind.isCall = false)
    (below : expandAllIn expander tree.children scopes = some (expanded, last)) :
    expandIn expander tree scopes = some ([tree.withChildren expanded], last) := by
  cases tree with
  | node kind pos attrs children =>
    change expandAllIn expander children scopes = _ at below
    change kind.isMixin = false at noMixin
    change kind.isCall = false at noCall
    simp only [expandIn, noMixin, noCall, below]
    rfl

lemma expandAllIn_cons (expander) (first : expandIn expander tree scopes = some (firstOut, middle))
    (rest : expandAllIn expander more middle = some (restOut, last)) :
    expandAllIn expander (tree :: more) scopes = some (firstOut ++ restOut, last) := by
  simp only [expandAllIn, first, rest, Option.bind_eq_bind, Option.bind_some]
  rfl

lemma expandAllIn_append (expander) (left : expandAllIn expander first scopes = some (firstOut, middle))
    (right : expandAllIn expander second middle = some (secondOut, last)) :
    expandAllIn expander (first ++ second) scopes = some (firstOut ++ secondOut, last) := by
  induction first generalizing firstOut scopes with
  | nil =>
    cases left
    exact right
  | cons tree more ih =>
    obtain ⟨⟨treeOut, next⟩, treeResult, left⟩ := Option.bind_eq_some_iff.1 left
    obtain ⟨⟨moreOut, final⟩, moreResult, same⟩ := Option.bind_eq_some_iff.1 left
    cases same
    have whole := expandAllIn_cons expander treeResult (ih moreResult)
    rw [← append_assoc] at whole
    exact whole

lemma expandAllIn_lines (expander) (lines : ∀ tree ∈ trees, tree.IsLine) (scopes) :
    expandAllIn expander trees scopes = some (trees, scopes) := by
  induction trees with
  | nil => rfl
  | cons tree more ih =>
    have isLine := lines tree (by simp)
    have below : expandAllIn expander tree.children scopes = some ([], scopes) := by
      rw [isLine.leaf]
      rfl
    have first := expandIn_other expander isLine.noMixin isLine.noCall below
    rw [isLine.withChildren] at first
    apply expandAllIn_cons expander first
    exact ih fun other mem => lines other (by simp [mem])

lemma numbered_append (numbered : first ++ second = (List.range' scopes (first ++ second).length).map stash) :
    first = (List.range' scopes first.length).map stash ∧
      second = (List.range' (scopes + first.length) second.length).map stash := by
  rw [length_append, ← range'_append_1, map_append] at numbered
  exact append_inj numbered (by simp)

lemma Expands.expandAllIn_eq (stash : Nat → String)
    (expands : Expands defs quote fuel trees names out) (scopes)
    (numbered : names = (List.range' scopes names.length).map stash) :
    expandAllIn (expandCall defs stash quote fuel) trees scopes = some (out, scopes + names.length) := by
  induction expands generalizing scopes with
  | nil => rfl
  | mixin isMixin rest ih =>
    exact expandAllIn_cons _ (expandIn_mixin _ isMixin scopes) (ih scopes numbered)
  | call name called found inside rest insideIh restIh =>
    rename_i fuel call defn title more expanded out inner names
    obtain ⟨front, back⟩ := numbered_append numbered
    rw [length_cons, range'_succ, map_cons, List.cons.injEq] at front
    obtain ⟨rfl, innerNumbered⟩ := front
    have insideResult := insideIh (scopes + 1) innerNumbered
    have restResult := restIh _ back
    have opened := expandAllIn_lines (expandCall defs stash quote fuel)
      (opening_lines defn call (stash scopes) quote) (scopes + 1)
    have closed := expandAllIn_lines (expandCall defs stash quote fuel)
      (closing_lines defn call (stash scopes) quote) (scopes + 1 + inner.length)
    have replaced := expandAllIn_append _ (expandAllIn_append _ opened insideResult) closed
    have callResult : expandCall defs stash quote (fuel + 1) call scopes =
        some (opening defn call (stash scopes) quote ++ expanded ++
          closing defn call (stash scopes) quote, scopes + 1 + inner.length) := by
      rw [expandCall, called, Option.bind_eq_bind, Option.bind_some, found]
      exact replaced
    have lengths : scopes + (stash scopes :: inner).length = scopes + 1 + inner.length := by
      simp only [length_cons]
      omega
    have total : scopes + (stash scopes :: inner ++ names).length =
        scopes + (stash scopes :: inner).length + names.length := by
      rw [length_append]
      omega
    rw [lengths] at restResult
    rw [total, lengths]
    apply expandAllIn_cons _ _ restResult
    rw [expandIn_call _ called]
    exact callResult
  | other noMixin noCall below rest belowIh restIh =>
    obtain ⟨front, back⟩ := numbered_append numbered
    have first := expandIn_other _ noMixin noCall (belowIh scopes front)
    have whole := expandAllIn_cons _ first (restIh _ back)
    rw [Nat.add_assoc, ← length_append] at whole
    exact whole

end Tree

end PugTemplate
