import Mathlib.Logic.Function.Basic
import PugTemplate.Proofs.Instantiation
import PugTemplate.Proofs.Parsing

/-!
# Arguments bound one after the other

A call binds its arguments by assignments to the caller's own variables, one after the other. So an
argument is read when the parameters before it have their new values already. Where all arguments are
plain variables, it is shown for which names this makes no difference.
-/

namespace PugTemplate

open List Mixin Expression

/-- The values of variables by name. A variable that is not defined has a value that says so. -/
abbrev Environment (Value : Type) := String → Value

/-- The value of code under the values of variables. -/
abbrev Evaluation (Value : Type) := String → Environment Value → Value

namespace Expression

def isPlainVariable (code : String) : Bool :=
  match code.toList with
  | '$' :: first :: rest => (first.isAlpha || first == '_') && rest.all Text.isWordChar
  | _ => false

/-- Code that is a plain variable has the value of this variable. -/
def Reads {Value : Type} (evaluate : Evaluation Value) : Prop :=
  ∀ name, isPlainVariable name = true → ∀ environment, evaluate name environment = environment name

end Expression

variable {name : String}

namespace Mixin

section Copying

variable {Value : Type}

/-- Copies variables one after the other; a pair names the target and then the source. -/
def copyAll (environment : Environment Value) : List (String × String) → Environment Value
  | [] => environment
  | (target, source) :: more =>
    copyAll (Function.update environment target (environment source)) more

/-- The later of two copies finds its source as it was, and does not undo the earlier one. -/
def Compatible (earlier later : String × String) : Prop :=
  (later.2 = earlier.1 → earlier.2 = earlier.1) ∧ (later.1 = earlier.1 → later.2 = earlier.2)

instance (earlier later : String × String) : Decidable (Compatible earlier later) :=
  inferInstanceAs (Decidable ((_ → _) ∧ (_ → _)))

lemma copyAll_other (env : Environment Value) (notTarget : name ∉ pairs.map Prod.fst) :
    copyAll env pairs name = env name := by
  induction pairs generalizing env with
  | nil => rfl
  | cons pair more ih =>
    rw [map_cons, mem_cons, not_or] at notTarget
    rw [copyAll, ih _ notTarget.2, Function.update_of_ne notTarget.1]

lemma copyAll_constant : copyAll (fun _ => value) pairs = fun _ => value := by
  induction pairs with
  | nil => rfl
  | cons pair more ih =>
    obtain ⟨target, source⟩ := pair
    have same : Function.update (fun _ => value) target value = fun _ : String => value :=
      Function.update_eq_self target fun _ => value
    rw [copyAll, same, ih]

lemma copyAll_unread (env : Environment Value) (unread : ∀ pair ∈ pairs, pair.2 ≠ name) (value)
    (isTarget : target ∈ pairs.map Prod.fst) :
    copyAll (Function.update env name value) pairs target = copyAll env pairs target := by
  induction pairs generalizing env with
  | nil => cases isTarget
  | cons pair more ih =>
    obtain ⟨first, source⟩ := pair
    have notSource : source ≠ name := unread (first, source) mem_cons_self
    have later : ∀ pair ∈ more, pair.2 ≠ name := (forall_mem_cons.1 unread).2
    rw [copyAll, copyAll, Function.update_of_ne notSource]
    by_cases same : first = name
    · rw [same, Function.update_idem]
    · rw [Function.update_comm (Ne.symm same)]
      by_cases further : target ∈ more.map Prod.fst
      · exact ih _ later further
      · have isFirst : target = first := by simpa [further] using isTarget
        rw [copyAll_other _ further, copyAll_other _ further, isFirst, Function.update_of_ne same]

lemma copyAll_compatible (compatible : pairs.Pairwise Compatible) (env : Environment Value) :
    ∀ pair ∈ pairs, copyAll env pairs pair.1 = env pair.2 := by
  induction pairs generalizing env with
  | nil => simp
  | cons pair more ih =>
    obtain ⟨target, source⟩ := pair
    obtain ⟨first, rest⟩ := pairwise_cons.1 compatible
    have later : ∀ pair ∈ more, copyAll env ((target, source) :: more) pair.1 = env pair.2 := by
      intro pair mem
      rw [copyAll, ih rest _ pair mem, Function.update_apply]
      split
      · rename_i reads
        have same : source = target := (first pair mem).1 reads
        rw [reads, same]
      · rfl
    intro pair mem
    rcases mem_cons.1 mem with rfl | inMore
    · by_cases again : target ∈ more.map Prod.fst
      · obtain ⟨other, otherMember, sameTarget⟩ := mem_map.1 again
        have copied := later other otherMember
        rw [sameTarget, (first other otherMember).2 sameTarget] at copied
        exact copied
      · rw [copyAll, copyAll_other _ again, Function.update_self]
    · exact later pair inMore

variable [Nontrivial Value]

lemma eq_of_environments {first second}
    (same : ∀ env : Environment Value, env first = env second) : first = second := by
  obtain ⟨one, other, different⟩ := exists_pair_ne Value
  by_contra apart
  have values := same (Function.update (fun _ => one) first other)
  rw [Function.update_self, Function.update_of_ne (Ne.symm apart)] at values
  exact different values.symm

lemma compatible_of_copyAll (copied : ∀ env : Environment Value, ∀ pair ∈ pairs,
    copyAll env pairs pair.1 = env pair.2) : pairs.Pairwise Compatible := by
  induction pairs with
  | nil => exact .nil
  | cons pair more ih =>
    obtain ⟨target, source⟩ := pair
    have reads : ∀ later ∈ more, later.2 = target → source = target := by
      intro later mem isTarget
      obtain ⟨one, other, different⟩ := exists_pair_ne Value
      by_contra apart
      -- With one value in the target and another one everywhere else, the first copy wipes it out.
      have wiped := copied (Function.update (fun _ => one) target other) later (mem_cons_of_mem _ mem)
      have constant : Function.update (fun _ => one) target one = fun _ : String => one :=
        Function.update_eq_self target fun _ => one
      rw [copyAll, Function.update_idem, Function.update_of_ne apart, constant, copyAll_constant,
        isTarget, Function.update_self] at wiped
      exact different wiped
    refine pairwise_cons.2 ⟨?_, ?_⟩
    · intro later mem
      refine ⟨reads later mem, ?_⟩
      intro sameTarget
      refine @eq_of_environments Value _ _ _ fun env => ?_
      have early := copied env (target, source) mem_cons_self
      have late := copied env later (mem_cons_of_mem _ mem)
      rw [sameTarget] at late
      exact late.symm.trans early
    · apply ih
      intro env later mem
      have whole := copied env later (mem_cons_of_mem _ mem)
      rw [copyAll] at whole
      by_cases itself : source = target
      · rwa [itself, Function.update_eq_self] at whole
      · rwa [copyAll_unread env (fun other isOther same => itself (reads other isOther same))
          _ (mem_map_of_mem mem)] at whole

end Copying

/-- The parameters with the values that a call supplies. -/
def supplied (parameters : List Parameter) (arguments : Arguments) (quote : Char) : List Slot :=
  let values := arguments.positional.map fun value => Expression.codeValue value quote
  (fillAllNamed quote (fillPositional parameters values).1 arguments.named).1

lemma fillPositional_parameters : (fillPositional params values).1.map Prod.fst = params := by
  fun_induction fillPositional params values with
  | case1 => rfl
  | case2 | case3 => simp [Function.comp_def]
  | case4 parameter more value values fixed slots rest filled ih =>
    rw [filled] at ih
    rw [map_cons, ih]

lemma fillNamed_parameters
    (found : fillNamed name value slots = some filled) : filled.map Prod.fst = slots.map Prod.fst := by
  fun_induction fillNamed name value slots generalizing filled with
  | case1 => cases found
  | case2 parameter bound more named isOpen => rw [← Option.some.inj found]; rfl
  | case3 => cases found
  | case4 parameter bound more other ih =>
    obtain ⟨rest, restFilled, rfl⟩ := Option.map_eq_some_iff.1 found
    rw [map_cons, map_cons, ih restFilled]

lemma fillAllNamed_parameters : (fillAllNamed quote slots named).1.map Prod.fst = slots.map Prod.fst := by
  fun_induction fillAllNamed quote slots named with
  | case1 => rfl
  | case2 slots name value more filled found ih =>
    rw [ih, fillNamed_parameters found]
  | case3 slots name value more missing filled extra ok ih =>
    rw [ok] at ih
    exact ih

lemma supplied_parameters (params arguments quote) : (supplied params arguments quote).map Prod.fst = params := by
  unfold supplied
  rw [fillAllNamed_parameters, fillPositional_parameters]

lemma fillRest_fixed (rest) (fixed : ∀ slot ∈ slots, slot.1.variadic = false) : fillRest rest slots = slots := by
  induction slots with
  | nil => rfl
  | cons slot more ih =>
    obtain ⟨parameter, bound⟩ := slot
    have notVariadic : parameter.variadic = false := fixed (parameter, bound) mem_cons_self
    rw [fillRest, notVariadic, if_neg Bool.false_ne_true, ih (forall_mem_cons.1 fixed).2]

lemma fillStandard_bound (quote) (bound : ∀ slot ∈ slots, slot.2.isSome) : fillStandard quote slots = slots := by
  refine (map_congr_left fun slot mem => ?_).trans (map_id slots)
  obtain ⟨value, isValue⟩ := Option.isSome_iff_exists.1 (bound slot mem)
  obtain ⟨parameter, _⟩ := slot
  subst isValue
  rfl

/-- Where a call supplies all parameters, it binds them to what it supplies. The attributes may
follow. -/
theorem bindings_supplied (readsAttributes) (fixed : ∀ parameter ∈ params, parameter.variadic = false)
    (values : (supplied params arguments quote).map Prod.snd = sources.map some) :
    ∃ further, bindings params arguments readsAttributes quote =
        (params.map Parameter.name).zip sources ++ further ∧
      (further = [] ∨ ∃ extra, further = [("$attributes", attributesCode extra arguments.spreads quote)]) := by
  have slots : supplied params arguments quote = params.zip (sources.map some) :=
    zip_of_prod (supplied_parameters params arguments quote) values
  have filled : (fill params arguments quote).1 = params.zip (sources.map some) := by
    have notVariadic : ∀ slot ∈ supplied params arguments quote, slot.1.variadic = false := by
      intro slot mem
      apply fixed
      rw [← supplied_parameters params arguments quote]
      exact mem_map_of_mem mem
    have isBound : ∀ slot ∈ supplied params arguments quote, slot.2.isSome := by
      intro slot mem
      have isValue : slot.2 ∈ sources.map some := values ▸ mem_map_of_mem mem
      obtain ⟨source, _, same⟩ := mem_map.1 isValue
      rw [← same]
      rfl
    rw [← slots]
    unfold fill
    dsimp only
    rw [← supplied, fillRest_fixed _ notVariadic, fillStandard_bound _ isBound]
  have bound : (params.zip (sources.map some)).filterMap
        (fun (parameter, value) => value.map fun code => (parameter.name, code)) =
      (params.map Parameter.name).zip sources := by
    rw [zip_map_left, zip_map_right, filterMap_map, ← filterMap_eq_map]
    rfl
  unfold bindings
  dsimp only
  rw [filled, bound]
  split
  · exact ⟨_, rfl, .inr ⟨_, rfl⟩⟩
  · exact ⟨[], (append_nil _).symm, .inl rfl⟩

lemma attributesCode_not_plain (extra spreads)
    (quote) : isPlainVariable (attributesCode extra spreads quote) = false := by
  unfold attributesCode
  split
  · simp [isPlainVariable]
  · simp [isPlainVariable, toString]

end Mixin

namespace NodeKind

variable {Value : Type}

/-- The values of variables after a node. Only a node that binds a variable changes one. -/
def run (evaluate : Evaluation Value) (environment : Environment Value) :
    NodeKind → Environment Value
  | statement (.binding name value) =>
    Function.update environment name (evaluate value environment)
  | _ => environment

def runAll (evaluate : Evaluation Value) (environment : Environment Value) (kinds : List NodeKind) :
    Environment Value :=
  kinds.foldl (run evaluate) environment

def ofBinding (binding : String × String) : NodeKind :=
  statement (.binding binding.1 binding.2)

lemma runAll_copies (reads : Expression.Reads evaluate)
    (plain : ∀ pair ∈ pairs, isPlainVariable pair.2) (env : Environment Value) :
    runAll evaluate env (pairs.map ofBinding) = copyAll env pairs := by
  induction pairs generalizing env with
  | nil => rfl
  | cons pair more ih =>
    have value := reads pair.2 (plain pair mem_cons_self) env
    have rest := ih (forall_mem_cons.1 plain).2 (Function.update env pair.1 (env pair.2))
    rw [← value] at rest
    rw [copyAll, ← value, ← rest]
    rfl

lemma runAll_other (evaluate : Evaluation Value) (env : Environment Value)
    {bindings : List (String × String)} (unbound : ∀ binding ∈ bindings, binding.1 ≠ name) :
    runAll evaluate env (bindings.map ofBinding) name = env name := by
  induction bindings generalizing env with
  | nil => rfl
  | cons binding more ih =>
    have different : name ≠ binding.1 := Ne.symm (unbound binding mem_cons_self)
    have rest := ih (run evaluate env (ofBinding binding)) (forall_mem_cons.1 unbound).2
    rw [ofBinding, run, Function.update_of_ne different] at rest
    exact rest

/-- Nodes that bind plain variables, with perhaps one behind them that binds something else, give
every variable the value of its source exactly if their copies are compatible and the last one
binds none of these variables. -/
theorem runAll_correct_iff [Nontrivial Value] {further}
    (plain : ∀ pair ∈ pairs, isPlainVariable pair.2) (last : further = [] ∨
      ∃ name code, further = [(name, code)] ∧ isPlainVariable code = false) :
    (∀ evaluate : Evaluation Value, Expression.Reads evaluate → ∀ env, ∀ pair ∈ pairs,
          runAll evaluate env ((pairs ++ further).map ofBinding) pair.1 = env pair.2) ↔
      pairs.Pairwise Mixin.Compatible ∧ ∀ binding ∈ further, binding.1 ∉ pairs.map Prod.fst := by
  have inTurn : ∀ evaluate : Evaluation Value, Expression.Reads evaluate → ∀ env,
      runAll evaluate env ((pairs ++ further).map ofBinding) =
        runAll evaluate (copyAll env pairs) (further.map ofBinding) := by
    intro evaluate reads env
    rw [map_append, runAll, foldl_append, ← runAll, ← runAll, runAll_copies reads plain]
  -- Under the second condition the last node can be left out.
  have copied : (∀ binding ∈ further, binding.1 ∉ pairs.map Prod.fst) →
      ∀ evaluate : Evaluation Value, Expression.Reads evaluate → ∀ env, ∀ pair ∈ pairs,
        runAll evaluate env ((pairs ++ further).map ofBinding) pair.1 = copyAll env pairs pair.1 := by
    intro untouched evaluate reads env pair mem
    rw [inTurn evaluate reads env]
    apply runAll_other
    intro binding isFurther same
    exact untouched binding isFurther (same ▸ mem_map_of_mem mem)
  constructor
  · intro correct
    obtain ⟨one, other, different⟩ := exists_pair_ne Value
    let evaluate : Evaluation Value := fun code env =>
      if isPlainVariable code then env code else one
    have reads : Expression.Reads evaluate := fun name isPlain env => if_pos isPlain
    have untouched : ∀ binding ∈ further, binding.1 ∉ pairs.map Prod.fst := by
      rintro binding isFurther isTarget
      obtain ⟨pair, mem, sameName⟩ := mem_map.1 isTarget
      have value := correct evaluate reads (fun _ => other) pair mem
      rcases last with none | ⟨name, code, only, notPlain⟩
      · exact absurd (none ▸ isFurther) not_mem_nil
      · rw [only, mem_singleton] at isFurther
        have constant : evaluate code (copyAll (fun _ => other) pairs) = one :=
          if_neg (by rw [notPlain]; exact Bool.false_ne_true)
        rw [inTurn evaluate reads, only, sameName, isFurther] at value
        dsimp only [runAll, map, foldl, ofBinding, run] at value
        rw [Function.update_self, constant] at value
        exact different value
    refine ⟨?_, untouched⟩
    refine compatible_of_copyAll (fun env pair mem => ?_ : ∀ _ : Environment Value, _)
    rw [← copied untouched evaluate reads env pair mem]
    exact correct evaluate reads env pair mem
  · rintro ⟨compatible, untouched⟩ evaluate reads env pair mem
    rw [copied untouched evaluate reads env pair mem]
    exact copyAll_compatible compatible env pair mem

end NodeKind

namespace Document

/-- The nodes that bind the arguments of a call: they follow the line that saves variables. -/
def binders (doc : Document) (definition call : NodeId) (stash : String) (quote : Char) :
    List NodeId :=
  ((doc.instantiate definition call stash quote).2.drop 1).take
    (doc.callBindings definition call quote).length

lemma binders_kinds {doc : Document} (wf : doc.WellFormed) {defn call}
    (defnInside : defn < doc.size) (callInside : call < doc.size) (stash quote) :
    (doc.binders defn call stash quote).map (doc.instantiate defn call stash quote).1.kind =
      (doc.callBindings defn call quote).map NodeKind.ofBinding := by
  have supplies := instantiate_supplies wf defnInside callInside stash quote
  have bindings := callBindings_treeAt wf defn call quote
  have kinds : (doc.instantiate defn call stash quote).2.map (doc.instantiate defn call stash quote).1.kind =
      (Tree.replacement (doc.treeAt defn) (doc.treeAt call) stash quote).map Tree.kind := by
    rw [← supplies.trees, map_map]
    apply map_congr_left
    intro id _
    exact (kind_treeAt _ id).symm
  unfold binders
  rw [map_take, map_drop, kinds, Tree.replacement, Tree.opening, bindings]
  by_cases none : (doc.callBindings defn call quote).isEmpty
  · rw [isEmpty_iff.1 none]
    rfl
  · rw [if_neg none, cons_append, cons_append, map_cons, append_assoc, map_append, map_map (g := Tree.kind)]
    exact take_left' (length_map _)

/-- A mixin without a parameter for the rest is called with a plain variable for each parameter.
After the nodes that bind them each parameter has the value that its argument had before, if and
only if no argument is a parameter that another argument was bound to before, no two parameters of
one name get different arguments, and no parameter is named as the attributes that are bound last. -/
theorem arguments_keep_their_values_iff {Value : Type} [Nontrivial Value] {document : Document}
    (wellFormed : document.WellFormed) {definition call : NodeId}
    (definitionInside : definition < document.size) (callInside : call < document.size)
    (stash : String) (quote : Char)
    (fixed : ∀ parameter ∈ document.parameters definition, parameter.variadic = false)
    {sources : List String} (plain : ∀ source ∈ sources, Expression.isPlainVariable source = true)
    (values : (Mixin.supplied (document.parameters definition) (document.arguments call) quote).map
      Prod.snd = sources.map some) :
    let created := document.instantiate definition call stash quote
    let kinds := (document.binders definition call stash quote).map created.1.kind
    let names := (document.parameters definition).map Mixin.Parameter.name
    kinds = (document.callBindings definition call quote).map NodeKind.ofBinding ∧
      ((∀ evaluate : Evaluation Value, Expression.Reads evaluate → ∀ environment,
          ∀ pair ∈ names.zip sources,
            NodeKind.runAll evaluate environment kinds pair.1 = environment pair.2) ↔
        (names.zip sources).Pairwise Mixin.Compatible ∧
          (names.length < (document.callBindings definition call quote).length →
            "$attributes" ∉ names)) := by
  intro created kinds names
  have binding : kinds = (document.callBindings definition call quote).map NodeKind.ofBinding :=
    binders_kinds wellFormed definitionInside callInside stash quote
  refine ⟨binding, ?_⟩
  obtain ⟨further, bound, attributes⟩ :=
    Mixin.bindings_supplied (document.readsAttributes definition) fixed values
  have lengths : names.length = sources.length := by
    have same := congrArg List.length values
    have parameters := congrArg List.length
      (Mixin.supplied_parameters (document.parameters definition) (document.arguments call) quote)
    rw [List.length_map] at same parameters
    rw [List.length_map] at same
    rw [List.length_map, ← parameters, same]
  have targets : (names.zip sources).map Prod.fst = names :=
    List.map_fst_zip (Nat.le_of_eq lengths)
  have onlyPlain : ∀ pair ∈ names.zip sources, Expression.isPlainVariable pair.2 = true :=
    fun pair member => plain pair.2 (List.of_mem_zip member).2
  have last : further = [] ∨ ∃ name code, further = [(name, code)] ∧
      Expression.isPlainVariable code = false := by
    rcases attributes with none | ⟨extra, only⟩
    · exact .inl none
    · exact .inr ⟨_, _, only, Mixin.attributesCode_not_plain _ _ _⟩
  rw [binding, callBindings, bound, NodeKind.runAll_correct_iff onlyPlain last, targets]
  refine and_congr_right fun _ => ?_
  rcases attributes with none | ⟨extra, only⟩
  · simp [none, names, lengths]
  · simp [only, names, ← lengths]

/-- A mixin that is called with variables of other names, and with its own names in another
order. -/
def swappingSource : String :=
  "mixin pair(a, b)\n  p= $a\n  p= $b\n+pair($b, $c)\n+pair($b, $a)\n"

theorem swapped_arguments_are_lost : ∃ document : Document,
    Document.parse swappingSource = .ok document ∧
      (document.parameters 1).map Mixin.Parameter.name = ["$a", "$b"] ∧
      (∀ evaluate : Evaluation Bool, Expression.Reads evaluate → ∀ environment,
        ∀ pair ∈ [("$a", "$b"), ("$b", "$c")],
          NodeKind.runAll evaluate environment
              ((document.binders 1 8 "$saved" '"').map
                (document.instantiate 1 8 "$saved" '"').1.kind) pair.1 =
            environment pair.2) ∧
      ¬ ∀ evaluate : Evaluation Bool, Expression.Reads evaluate → ∀ environment,
        ∀ pair ∈ [("$a", "$b"), ("$b", "$a")],
          NodeKind.runAll evaluate environment
              ((document.binders 1 11 "$saved" '"').map
                (document.instantiate 1 11 "$saved" '"').1.kind) pair.1 =
            environment pair.2 := by
  have facts : (Document.parse swappingSource).toOption.map (fun document =>
      (document.size, document.parameters 1, document.arguments 8, document.arguments 11,
        (document.callBindings 1 8 '"').length)) =
      some (14, [⟨"$a", none, false⟩, ⟨"$b", none, false⟩], ⟨["$b", "$c"], [], []⟩,
        ⟨["$b", "$a"], [], []⟩, 2) := by
    decide +kernel
  cases parsed : Document.parse swappingSource with
  | error diagnostic =>
    rw [parsed] at facts
    cases facts
  | ok document =>
      rw [parsed] at facts
      have known := Option.some.inj facts
      simp only [Prod.mk.injEq] at known
      obtain ⟨size, parameters, first, second, bound⟩ := known
      have wellFormed := parse_well_formed parsed
      have inside : ∀ id : Nat, id < 14 → id < document.size := fun id small => size ▸ small
      have fixed : ∀ parameter ∈ document.parameters 1, parameter.variadic = false := by
        rw [parameters]
        decide
      have firstValues : (Mixin.supplied (document.parameters 1) (document.arguments 8) '"').map
          Prod.snd = ["$b", "$c"].map some := by
        rw [parameters, first]
        decide +kernel
      have secondValues : (Mixin.supplied (document.parameters 1) (document.arguments 11) '"').map
          Prod.snd = ["$b", "$a"].map some := by
        rw [parameters, second]
        decide +kernel
      have kept := (@arguments_keep_their_values_iff Bool _ _ wellFormed 1 8 (inside 1 (by decide))
        (inside 8 (by decide)) "$saved" '"' fixed _ (by decide +kernel) firstValues).2
      have lost := (@arguments_keep_their_values_iff Bool _ _ wellFormed 1 11 (inside 1 (by decide))
        (inside 11 (by decide)) "$saved" '"' fixed _ (by decide +kernel) secondValues).2
      rw [parameters] at kept lost
      refine ⟨document, rfl, ?_, kept.2 ⟨by decide, ?_⟩, ?_⟩
      · rw [parameters]
        rfl
      · intro attributes
        rw [bound] at attributes
        exact absurd attributes (by decide)
      · intro correct
        exact absurd (lost.1 correct).1 (by decide)

end Document

end PugTemplate
