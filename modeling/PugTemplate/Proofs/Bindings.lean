import Mathlib.Data.List.Induction
import PugTemplate.Proofs.Arguments
import PugTemplate.Proofs.Success

/-!
# Which argument binds which parameter

The arguments of a call are bound in several passes over the parameters. Taken together, each parameter
gets the argument at its place, the first argument of its name, or its default, and the parameter for
the rest the arguments behind it. A named argument that binds nothing is left for the attributes.
-/

namespace PugTemplate

open List Expression

namespace Mixin

/-- The place of the first parameter that takes the rest, or the number of parameters. -/
def restPlace (parameters : List Parameter) : Nat :=
  parameters.findIdx Parameter.variadic

/-- The place of the parameter that a named argument is meant for. -/
def target? (parameters : List Parameter) (name : String) : Option Nat :=
  parameters.findIdx? (·.isNamed name)

/-- The argument in order for the parameter at a place. -/
def inOrder? (parameters : List Parameter) (values : List String) (place : Nat) : Option String :=
  if place < restPlace parameters then values[place]? else none

def byName? (parameters : List Parameter) (named : List (String × String)) (place : Nat) : Option String :=
  (named.find? fun argument => target? parameters argument.1 == some place).map Prod.snd

/-- Whether a named argument finds no open parameter behind those before it. -/
def isLeft (parameters : List Parameter) (given : Nat → Bool) (before : List (String × String))
    (argument : String × String) : Bool :=
  match target? parameters argument.1 with
  | none => true
  | some place =>
    given place || before.any fun earlier => target? parameters earlier.1 == some place

/-- The named arguments that find no open parameter. -/
def leftOver (parameters : List Parameter) (given : Nat → Bool) (named : List (String × String)) :
    List (String × String) :=
  (List.range named.length).filterMap fun place =>
    named[place]?.filter (isLeft parameters given (named.take place))

def slotsOf (parameters : List Parameter) (values : Nat → Option String) : List Slot :=
  parameters.mapIdx fun place parameter => (parameter, values place)

variable {parameters : List Parameter} (parameter : Parameter) (more : List Parameter)
  (values : Nat → Option String)

lemma slotsOf_cons :
    slotsOf (parameter :: more) values = (parameter, values 0) :: slotsOf more (values ∘ Nat.succ) :=
  mapIdx_cons

lemma slotsOf_none : slotsOf parameters (fun _ => none) = parameters.map fun parameter => (parameter, none) := by
  induction parameters with
  | nil => rfl
  | cons parameter more ih => exact (slotsOf_cons _ _ _).trans (congrArg _ ih)

lemma restPlace_cons : restPlace (parameter :: more) =
    if parameter.variadic then 0 else restPlace more + 1 := by
  rw [restPlace, findIdx_cons]
  cases parameter.variadic <;> rfl

lemma target_cons : target? (parameter :: more) name =
    if parameter.isNamed name then some 0 else (target? more name).map Nat.succ :=
  findIdx?_cons

lemma fillPositional_eq : fillPositional parameters arguments =
    (slotsOf parameters (inOrder? parameters arguments), arguments.drop (restPlace parameters)) := by
  fun_induction fillPositional parameters arguments with
  | case1 arguments => rfl
  | case2 parameters _ =>
    have nothing : inOrder? parameters [] = fun _ => none := by
      funext place
      simp [inOrder?]
    rw [nothing, slotsOf_none, drop_nil]
  | case3 parameter more argument arguments variadic =>
    have first : restPlace (parameter :: more) = 0 := by rw [restPlace_cons, if_pos variadic]
    have nothing : inOrder? (parameter :: more) (argument :: arguments) = fun _ => none := by
      funext place
      simp [inOrder?, first]
    rw [nothing, slotsOf_none, first, drop_zero]
  | case4 parameter more argument arguments fixed slots rest filled ih =>
    have later : restPlace (parameter :: more) = restPlace more + 1 := by rw [restPlace_cons, if_neg fixed]
    obtain ⟨rfl, rfl⟩ := Prod.mk.inj (filled.symm.trans ih)
    have shifted : inOrder? (parameter :: more) (argument :: arguments) ∘ Nat.succ = inOrder? more arguments := by
      funext place
      simp [inOrder?, later]
    rw [slotsOf_cons, shifted]
    simp [inOrder?, later]

lemma fillNamed_slotsOf : fillNamed name value (slotsOf parameters values) =
    (target? parameters name).bind fun place => if (values place).isNone then
      some (slotsOf parameters (Function.update values place (some value))) else none := by
  induction parameters generalizing values with
  | nil => rfl
  | cons parameter more ih =>
    rw [slotsOf_cons, fillNamed, target_cons]
    split
    · simp only [slotsOf_cons]
      rfl
    · rw [ih]
      cases target? more name with
      | none => rfl
      | some place =>
        have shifted : Function.update values (place + 1) (some value) ∘ Nat.succ =
            Function.update (values ∘ Nat.succ) place (some value) :=
          Function.update_comp_eq_of_injective values (fun _ _ => Nat.succ.inj) place (some value)
        simp only [Option.bind_some, Option.map_some, slotsOf_cons, shifted, Function.comp]
        split
        · rw [Option.map_some, Function.update_of_ne (Nat.zero_ne_add_one place)]
        · rfl

lemma leftOver_cons (given : Nat → Bool) (argument) : leftOver parameters given (argument :: named) =
      (if isLeft parameters given [] argument then [argument] else []) ++
        leftOver parameters (fun place => given place || target? parameters argument.1 == some place) named := by
  have later : ∀ before other, isLeft parameters given (argument :: before) other =
      isLeft parameters (fun place => given place || target? parameters argument.1 == some place) before other := by
    intro before other
    unfold isLeft
    cases target? parameters other.1 with
    | none => rfl
    | some place => simp only [any_cons, Bool.or_assoc]
  rw [leftOver, length_cons, range_succ_eq_map, filterMap_cons, filterMap_map]
  have others : ((fun place => (argument :: named)[place]?.filter
      (isLeft parameters given ((argument :: named).take place))) ∘ Nat.succ) = fun place =>
        named[place]?.filter (isLeft parameters
          (fun place => given place || target? parameters argument.1 == some place) (named.take place)) := by
    funext place
    exact congrArg (named[place]?.filter ·) (funext (later _))
  rw [others]
  cases left : isLeft parameters given [] argument <;> simp [left, Option.filter, leftOver]

lemma byName_cons (argument) : byName? parameters (argument :: named) place =
    if target? parameters argument.1 == some place then some argument.2 else byName? parameters named place := by
  rw [byName?, find?_cons]
  cases target? parameters argument.1 == some place <;> rfl

variable (quote : Char)

lemma fillAllNamed_slotsOf : fillAllNamed quote (slotsOf parameters values) named = (slotsOf parameters fun place =>
          values place <|> (byName? parameters named place).map (codeValue · quote),
        leftOver parameters (fun place => (values place).isSome) named) := by
  induction named generalizing values with
  | nil => simp [fillAllNamed, byName?, leftOver]
  | cons argument more ih =>
    obtain ⟨name, value⟩ := argument
    rw [fillAllNamed, fillNamed_slotsOf, leftOver_cons]
    simp only [byName_cons]
    cases meant : target? parameters name with
    | none => simp [meant, isLeft, ih]
    | some target =>
      -- Only the place that the argument is meant for can make a difference.
      cases given : values target with
      | some code =>
        simp only [Option.bind_some, given, ih, isLeft, meant]
        refine Prod.ext (congrArg (slotsOf _) (funext fun place => ?_))
          (congrArg (_ :: leftOver _ · _) (funext fun place => ?_)) <;>
        · by_cases here : target = place
          · simp [← here, given]
          · simp [here]
      | none =>
        simp only [Option.bind_some, given, Option.isNone_none, if_true, ih, isLeft, meant, any_nil]
        refine Prod.ext (congrArg (slotsOf _) (funext fun place => ?_))
          (congrArg (leftOver _ · _) (funext fun place => ?_)) <;>
        · by_cases here : target = place
          · simp [← here, given]
          · simp [here, Function.update_of_ne (Ne.symm here)]

lemma fillRest_slotsOf : fillRest rest (slotsOf parameters values) =
    slotsOf parameters fun place => if place = restPlace parameters then
      some ("[" ++ ", ".intercalate rest ++ "]") else values place := by
  induction parameters generalizing values with
  | nil => rfl
  | cons parameter more ih =>
    rw [slotsOf_cons, slotsOf_cons, fillRest, restPlace_cons]
    split
    · simp [Function.comp_def]
    · rw [ih]
      simp [Function.comp_def]

lemma fillStandard_slotsOf : fillStandard quote (slotsOf parameters values) =
    slotsOf parameters fun place => values place <|>
      (parameters[place]?.bind Parameter.standard).map (codeValue · quote) := by
  refine ext_getElem (by simp [fillStandard, slotsOf]) fun place inside _ => ?_
  simp [fillStandard, slotsOf] at inside ⊢
  simp [inside]

/-- The code for the value of the parameter at a place. -/
def value? (parameters : List Parameter) (arguments : Arguments) (quote : Char) (place : Nat) : Option String :=
  if place = restPlace parameters then
    some ("[" ++ ", ".intercalate ((arguments.positional.drop place).map (Expression.codeValue · quote)) ++ "]")
  else
    (inOrder? parameters arguments.positional place <|> byName? parameters arguments.named place <|>
      parameters[place]?.bind Parameter.standard).map (Expression.codeValue · quote)

/-- The named arguments of a call that are left for the attributes. -/
def attributesOf (parameters : List Parameter) (arguments : Arguments) : List (String × String) :=
  leftOver parameters (fun place => (inOrder? parameters arguments.positional place).isSome) arguments.named

lemma fill_eq : fill parameters arguments quote =
    (slotsOf parameters (value? parameters arguments quote), attributesOf parameters arguments) := by
  have coded : inOrder? parameters (arguments.positional.map (codeValue · quote)) =
      fun place => (inOrder? parameters arguments.positional place).map (codeValue · quote) := by
    funext place
    unfold inOrder?
    split <;> simp
  simp only [fill, fillPositional_eq, fillAllNamed_slotsOf, fillRest_slotsOf, fillStandard_slotsOf, coded,
    ← map_drop, Option.isSome_map]
  refine Prod.ext (congrArg (slotsOf parameters) (funext fun place => ?_)) rfl
  unfold value?
  split
  · rename_i isRest
    subst isRest
    rfl
  · cases inOrder? parameters arguments.positional place with
    | some value => rfl
    | none => cases byName? parameters arguments.named place <;> rfl

lemma value_of_named {arguments before after argument} (split : arguments.named = before ++ argument :: after)
    (binds : isLeft parameters (fun place => (inOrder? parameters arguments.positional place).isSome) before
      argument = false) : ∃ target, target? parameters argument.1 = some target ∧
      value? parameters arguments quote target = some (codeValue argument.2 quote) := by
  unfold isLeft at binds
  cases meant : target? parameters argument.1 with
  | none =>
    rw [meant] at binds
    cases binds
  | some target =>
    rw [meant] at binds
    simp only [Bool.or_eq_false_iff, any_eq_false, Option.isSome_eq_false_iff, Option.isNone_iff_eq_none] at binds
    have fixed : target ≠ restPlace parameters := by
      rintro rfl
      obtain ⟨inside, isNamed, -⟩ := findIdx?_eq_some_iff_getElem.1 meant
      have variadic : parameters[restPlace parameters].variadic := findIdx_getElem
      simp [Parameter.isNamed, variadic] at isNamed
    have found : byName? parameters arguments.named target = some argument.2 := by
      rw [byName?, split, find?_append, find?_eq_none.2 binds.2]
      simp [meant]
    refine ⟨target, rfl, ?_⟩
    rw [value?, if_neg fixed, binds.1, found]
    rfl

/-- The values of a name, or the last of them where values are not joined. -/
def valuesOf (named : List (String × String)) (name : String) : List String :=
  let values := (named.filter (·.1 == name)).map Prod.snd
  if joinsValues name then values else values.getLast?.toList

lemma valuesOf_concat (argument) : valuesOf (named ++ [argument]) name = if name = argument.1 then
      if joinsValues name then valuesOf named name ++ [argument.2] else [argument.2] else valuesOf named name := by
  unfold valuesOf
  by_cases here : name = argument.1
  · subst here
    cases joinsValues argument.1 <;> simp
  · simp [here, Ne.symm here]

lemma addValue_map (name value) {names : List String} (distinct : names.Nodup)
    (lists : String → List String) : addValue name value (names.map fun other => (other, lists other)) =
      if name ∈ names then names.map fun other => (other,
        if other = name then if joinsValues name then lists name ++ [value] else [value] else lists other)
      else names.map (fun other => (other, lists other)) ++ [(name, [value])] := by
  induction names with
  | nil => rfl
  | cons first more ih =>
    obtain ⟨fresh, distinct⟩ := nodup_cons.1 distinct
    rw [map_cons, addValue]
    by_cases here : first = name
    · subst here
      have others : ∀ other ∈ more, other ≠ first := fun other mem same => fresh (same ▸ mem)
      simp +contextual [others]
    · rw [if_neg (by simpa using here), ih distinct]
      simp only [mem_cons, Ne.symm here, false_or, map_cons]
      split <;> rfl

lemma addValue_all (named : List (String × String)) :
    named.foldl (fun lists argument => addValue argument.1 argument.2 lists) [] =
        (named.map Prod.fst).eraseDups.map (fun name => (name, valuesOf named name)) ∧
      (named.map Prod.fst).eraseDups.Nodup := by
  induction named using reverseRecOn with
  | nil => exact ⟨rfl, .nil⟩
  | append_singleton named argument ih =>
    obtain ⟨found, distinct⟩ := ih
    rw [foldl_append, found, map_append, eraseDups_append]
    simp only [foldl_cons, addValue_map _ _ distinct, mem_eraseDups, map_cons, map_nil]
    by_cases again : argument.1 ∈ named.map Prod.fst
    · have none : [argument.1].removeAll (named.map Prod.fst) = [] := by simp [removeAll, mem_map.1 again]
      rw [if_pos again, none, eraseDups_nil, append_nil]
      refine ⟨map_congr_left fun name _ => ?_, distinct⟩
      rw [valuesOf_concat]
      split
      · rename_i here
        rw [here]
      · rfl
    · have one : [argument.1].removeAll (named.map Prod.fst) = [argument.1] := by
        simpa [removeAll] using again
      have fresh : argument.1 ∉ (named.map Prod.fst).eraseDups := mt mem_eraseDups.1 again
      have unnamed : named.filter (·.1 == argument.1) = [] := by
        rw [filter_eq_nil_iff]
        exact fun other mem same => again (mem_map.2 ⟨other, mem, beq_iff_eq.1 same⟩)
      rw [if_neg again, one, eraseDups_cons, map_append]
      refine ⟨congrArg₂ (· ++ ·) (map_congr_left fun name mem => ?_) ?_, ?_⟩
      · rw [valuesOf_concat, if_neg]
        rintro rfl
        exact fresh mem
      · rw [map_cons, valuesOf_concat, if_pos rfl, valuesOf, unnamed]
        cases joinsValues argument.1 <;> rfl
      · refine nodup_append.2 ⟨distinct, by simp, fun name mem other isOther => ?_⟩
        rintro rfl
        exact fresh (mem_singleton.1 isOther ▸ mem)

end Mixin

namespace Document

/-- A call binds each parameter once, in the order of the parameters, to the argument at its place, to the
first argument of its name, to the rest or to its default, and leaves out those that get nothing. A named
argument is bound where it was the first for a parameter that no argument has by its place; the others
are bound as attributes behind the parameters, with the last value of each name that joins no values. -/
theorem arguments_are_bound_once {document : Document} (wellFormed : document.WellFormed)
    {definition call : NodeId} (definitionInside : definition < document.size)
    (callInside : call < document.size) (stash : String) (quote : Char) :
    let parameters := document.parameters definition
    let arguments := document.arguments call
    let left := Mixin.attributesOf parameters arguments
    (document.binders definition call stash quote).map (document.instantiate definition call stash quote).1.kind =
      ((Mixin.slotsOf parameters (Mixin.value? parameters arguments quote)).filterMap (fun slot =>
          slot.2.map fun code => (slot.1.name, code)) ++
        if left = [] ∧ arguments.spreads = [] ∧ document.readsAttributes definition = false then []
        else [("$attributes", Mixin.attributesCode left arguments.spreads quote)]).map NodeKind.ofBinding ∧
    (∀ before argument after, arguments.named = before ++ argument :: after →
      Mixin.isLeft parameters (fun place => (Mixin.inOrder? parameters arguments.positional place).isSome) before
        argument = false →
      ∃ target, Mixin.target? parameters argument.1 = some target ∧
        Mixin.value? parameters arguments quote target = some (Expression.codeValue argument.2 quote)) ∧
    left.foldl (fun lists argument => Mixin.addValue argument.1 argument.2 lists) [] =
      (left.map Prod.fst).eraseDups.map fun name => (name, Mixin.valuesOf left name) := by
  intro parameters arguments left
  refine ⟨?_, fun _ _ _ => Mixin.value_of_named quote, (Mixin.addValue_all left).1⟩
  rw [binders_kinds wellFormed definitionInside callInside, callBindings, Mixin.bindings, Mixin.fill_eq]
  have asked : (!left.isEmpty || !arguments.spreads.isEmpty || document.readsAttributes definition) = true ↔
      ¬ (left = [] ∧ arguments.spreads = [] ∧ document.readsAttributes definition = false) := by
    cases document.readsAttributes definition <;> simp [Classical.or_iff_not_imp_left]
  by_cases nothing : left = [] ∧ arguments.spreads = [] ∧ document.readsAttributes definition = false
  · exact congrArg _ ((if_neg (mt asked.1 (not_not_intro nothing))).trans (by rw [if_pos nothing, List.append_nil]))
  · exact congrArg _ ((if_pos (asked.2 nothing)).trans (by rw [if_neg nothing]))

/-- A mixin that is called with more than it has parameters for. -/
def surplusSource : String :=
  "mixin m(a, ...rest, b = 1, c)\n  p= $a\n+m($x, $y, 'z', c=$u, c=$v, class='k', id=$i, class=$j, id=2)\n"

theorem surplus_arguments_are_kept : ∃ document : Document, Document.parse surplusSource = .ok document ∧
    (document.binders 1 8 "$saved" '"').map (document.instantiate 1 8 "$saved" '"').1.kind =
      [("$a", "$x"), ("$rest", "[$y, \"z\"]"), ("$b", "1"), ("$c", "$u"),
        ("$attributes", "[\"c\" => $v, \"class\" => \"k\" . \" \" . $j, \"id\" => \"2\"]")].map
          NodeKind.ofBinding := by
  have facts : (Document.parse surplusSource).toOption.any (fun document =>
      document.size == 18 && document.parameters 1 == [⟨"$a", none, false⟩, ⟨"$rest", none, true⟩,
          ⟨"$b", some "1", false⟩, ⟨"$c", none, false⟩] &&
        document.arguments 8 == ⟨["$x", "$y", "'z'"], [("c", "$u"), ("c", "$v"), ("class", "'k'"), ("id", "$i"),
          ("class", "$j"), ("id", "2")], []⟩ && document.readsAttributes 1 == false) = true := by
    decide +kernel
  obtain ⟨document, parsed, known⟩ := ok_of_any facts
  simp only [Bool.and_eq_true, beq_iff_eq] at known
  obtain ⟨⟨⟨size, parameters⟩, arguments⟩, unread⟩ := known
  have inside : ∀ id : Nat, id < 18 → id < document.size := fun id small => size ▸ small
  refine ⟨document, parsed, ?_⟩
  rw [(arguments_are_bound_once (parse_well_formed parsed) (inside 1 (by decide)) (inside 8 (by decide))
    "$saved" '"').1, parameters, arguments, unread]
  exact congrArg (List.map NodeKind.ofBinding) (by decide +kernel)

end Document

end PugTemplate
