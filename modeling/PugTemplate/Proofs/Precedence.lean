import Mathlib.Data.List.DropRight
import Mathlib.Data.List.Induction
import Mathlib.Data.List.Nodup
import PugTemplate.Proofs.Attributes

/-!
# Which entry of an attribute counts

Of several entries for an attribute that joins no values the last one counts. Attributes stand in the order
in which they were first named, and one that was removed is named anew. Arrays of attributes come last.
-/

namespace PugTemplate.AttributeSet

open MergedAttribute List Expression Text

variable (target : Target) (name : String)

/-- A name with what is written for it. A flag is written as `true`. -/
structure Entry where
  name : String
  value : String
  escaped : Bool
  checked : Bool

def entryOf? (tree : Tree) : Option Entry :=
  match tree.kind with
  | .attr ⟨some name, value, escaped, checked⟩ => some ⟨name, value.getD "true", escaped, checked⟩
  | .attr ⟨none, some value, _, _⟩ =>
    match classify value with
    | .literal name => some ⟨name, "true", true, true⟩
    | _ => none
  | _ => none

/-- The arrays of attributes that a node gives. -/
def arrays (tree : Tree) : List String :=
  match tree.kind with
  | .attr ⟨none, some value, _, _⟩ =>
    match classify value with
    | .literal _ => []
    | _ => [trimmed value]
  | .assignment _ => argumentCodes tree.attributes
  | _ => []

namespace Entry

def value? (entry : Entry) : Option MergedValue :=
  MergedAttribute.value? target entry.name entry.value entry.escaped entry.checked

def mergeInto (merged : List MergedAttribute) (entry : Entry) : List MergedAttribute :=
  MergedAttribute.merge target merged entry.name entry.value entry.escaped entry.checked

def entities : List (Char × String) :=
  [('&', "&amp;"), ('<', "&lt;"), ('>', "&gt;"), ('"', "&quot;"), ('\'', "&#039;")]

/-- What an entry writes for a name that joins no values. -/
def text (entry : Entry) : String :=
  let mark := String.ofList [target.format.quoteStyle]
  let quoted (value : String) := " " ++ entry.name ++ "=" ++ (mark ++ value ++ mark)
  let flag := if target.dialect = .html then " " ++ entry.name else quoted entry.name
  let flagIf (condition : String) := "<?php if (" ++ condition ++ ") \x7b?>" ++ flag ++ "<?php \x7d?>"
  let echo (code : String) := "<?=" ++ (if entry.escaped then
      "htmlspecialchars(" ++ code ++ ", ENT_QUOTES, " ++ target.format.codeString target.charset ++ ")"
    else code) ++ "?>"
  match classify entry.value with
  | .truth false | .null => ""
  | .truth true => flag
  | .literal text =>
    quoted <| if entry.escaped then
      String.ofList (text.toList.flatMap fun c => ((entities.lookup c).getD (String.ofList [c])).toList)
    else text
  | .number digits => quoted digits
  | .reference code =>
    let quote := String.singleton target.format.codeQuoteStyle
    if Markup.isBoolean entry.name then flagIf (if entry.checked then "!empty(" ++ code ++ ")" else code)
    else quoted (echo (if entry.checked then "isset(" ++ code ++ ") ? " ++ code ++ " : " ++ quote ++ quote else code))
  | .code code => if Markup.isBoolean entry.name then flagIf code else quoted (echo code)

def gives (entry : Entry) : Bool := (entry.value? target).isSome

/-- An entry without a value removes the name, unless values are joined for it. -/
def removes (entry : Entry) : Bool := !entry.gives target && (separator? entry.name).isNone

/-- The names in the order in which they are written. Each stands at its first entry with a value behind
the last one that removes it. -/
def order : List Entry → List String
  | [] => []
  | entry :: more =>
    if entry.gives target ∧ ∀ later ∈ more, later.name = entry.name → later.removes target = false then
      entry.name :: (order more).filter (· != entry.name)
    else order more

def nameInto (names : List String) (entry : Entry) : List String :=
  if entry.gives target then if entry.name ∈ names then names else names ++ [entry.name]
  else if entry.removes target then names.filter (· != entry.name)
  else names

end Entry

variable {target name}

lemma ofTrees_eq (trees) : ofTrees target trees =
    ⟨(trees.filterMap entryOf?).foldl (Entry.mergeInto target) [], trees.flatMap arrays⟩ := by
  have step : ∀ (attrs : AttributeSet) (tree : Tree), add target attrs tree =
      ⟨(entryOf? tree).elim attrs.merged (Entry.mergeInto target attrs.merged), attrs.spreads ++ arrays tree⟩ := by
    intro attrs tree
    unfold add entryOf? arrays
    cases tree.kind with
    | attr entry =>
      obtain ⟨other, value, escaped, checked⟩ := entry
      cases other with
      | some other => simp [Entry.mergeInto]
      | none =>
        cases value with
        | none => simp
        | some value =>
          dsimp only
          cases classify value <;> simp [Entry.mergeInto]
    | _ => simp
  have run : ∀ attrs : AttributeSet, trees.foldl (add target) attrs =
      ⟨(trees.filterMap entryOf?).foldl (Entry.mergeInto target) attrs.merged,
        attrs.spreads ++ trees.flatMap arrays⟩ := by
    induction trees with
    | nil => simp
    | cons tree more ih =>
      intro attrs
      rw [foldl_cons, ih, step, filterMap_cons, flatMap_cons, append_assoc]
      cases entryOf? tree <;> rfl
  exact run empty

lemma held_last (plain : separator? name = none) (entries : List Entry) :
    held name (entries.foldl (Entry.mergeInto target) []) =
      ((entries.filter (·.name = name)).getLast?.bind (Entry.value? target)).toList := by
  induction entries using List.reverseRecOn with
  | nil => rfl
  | append_singleton entries entry ih =>
    rw [foldl_append, foldl_cons, foldl_nil, filter_append]
    by_cases same : entry.name = name
    · rw [Entry.mergeInto, held_merge, ih, if_pos same, plain, filter_cons_of_pos (by simpa using same), filter_nil,
        getLast?_concat, Option.bind_some, Entry.value?, ← same]
      cases MergedAttribute.value? target entry.name entry.value entry.escaped entry.checked with
      | none => rfl
      | some value =>
        cases (entries.filter (·.name = entry.name)).getLast?.bind (Entry.value? target) with
        | none => rfl
        | some old =>
          rw [← same] at plain
          simp [hold, combine, plain]
    · rw [Entry.mergeInto, held_merge, if_neg same, ih, filter_cons_of_neg (by simpa using same), filter_nil,
        append_nil]

lemma trim_trim (text : List Char) : trim (trim text) = trim text := by
  have behind : trimStart (trim text) = trim text := by
    cases kept : trim text with
    | nil => rfl
    | cons c rest =>
      obtain ⟨more, start⟩ : c :: rest <+: text.dropWhile isBlank := kept ▸ rdropWhile_prefix _ _
      have shown := head?_dropWhile_not isBlank text
      rw [← start] at shown
      exact dropWhile_cons_of_neg (by simpa using shown)
  rw [trim, behind]
  exact rdropWhile_idempotent _ _

lemma classify_code (value : String) :
    match classify value with
    | .reference code => trimmed code = code ∧ isVariable code
    | .code code => trimmed code = code ∧ isVariable code = false
    | _ => True := by
  have trimmed := trim_trim value.toList
  cases same : classify value with
  | reference | code =>
    unfold classify classifyTrimmed at same
    unfold isVariable Text.trimmed
    cases quoted : quoted? (trim value.toList) with
    | some text => simp [quoted] at same
    | none =>
      rw [quoted] at same
      dsimp only at same ⊢
      split_ifs at same
      cases same
      simp_all
  | _ => trivial

lemma escape_entities (text : String) : Markup.escape text = String.ofList (text.toList.flatMap fun c =>
    ((Entry.entities.lookup c).getD (String.ofList [c])).toList) := by
  unfold Markup.escape
  congr 2
  funext c
  unfold Markup.entity Entry.entities
  simp only [lookup_cons]
  cases c == '&' <;> cases c == '<' <;> cases c == '>' <;> cases c == '"' <;> cases c == '\'' <;> simp

lemma Entry.text_eq (entry : Entry) (plain : separator? entry.name = none) :
    entry.text target = (entry.value? target).elim "" fun value => mergedText target ⟨entry.name, value⟩ := by
  have noClass : (entry.name == "class") = false := by
    cases isClass : entry.name == "class" with
    | false => rfl
    | true => simp [separator?, isClass] at plain
  have flag : flagText target entry.name = if target.dialect = .html then " " ++ entry.name else
      " " ++ entry.name ++ "=" ++ target.format.quote entry.name := by
    unfold flagText
    cases target.dialect <;> rfl
  have coded := classify_code entry.value
  unfold Entry.text Entry.value? MergedAttribute.value?
  cases classified : classify entry.value with
  | truth value =>
    cases value with
    | true => exact flag.symm
    | false => rfl
  | literal text => simp [mergedText, partText, escape_entities, Format.quote]
  | number => simp [mergedText, partText, Format.quote]
  | null => rfl
  | reference code | code code =>
    rw [classified] at coded
    obtain ⟨trimmed, isVariable⟩ := coded
    dsimp only
    split
    · change _ = "<?php if (" ++ flagCondition code entry.checked ++ ") \x7b?>" ++ flagText target entry.name ++ _
      rw [flag, flagCondition, isVariable]
      cases entry.checked <;> rfl
    · simp only [Option.elim_some, mergedText, map_cons, map_nil, partText, String.join_cons, String.join_nil,
        String.append_empty, valueCode, noClass, guarded, trimmed, isVariable]
      cases entry.checked <;> rfl

lemma names_set (value : MergedValue) (merged) : (MergedAttribute.set name value merged).map (·.name) =
      if name ∈ merged.map (·.name) then merged.map (·.name) else merged.map (·.name) ++ [name] := by
  induction merged with
  | nil => rfl
  | cons entry more ih =>
    rw [MergedAttribute.set]
    by_cases found : entry.name = name
    · simp [found]
    · rw [if_neg (by simpa using found), map_cons, ih]
      by_cases later : name ∈ more.map (·.name) <;> simp [later, Ne.symm found]

lemma names_merge (merged) (entry : Entry) :
    (entry.mergeInto target merged).map (·.name) = entry.nameInto target (merged.map (·.name)) := by
  unfold Entry.mergeInto MergedAttribute.merge Entry.nameInto Entry.removes Entry.gives Entry.value?
  cases MergedAttribute.value? target entry.name entry.value entry.escaped entry.checked with
  | some value => exact names_set value merged
  | none =>
    cases separator? entry.name with
    | some separator => rfl
    | none =>
      rw [filter_map]
      rfl

namespace Entry

lemma order_concat (entries : List Entry) (entry : Entry) :
    order target (entries ++ [entry]) = entry.nameInto target (order target entries) := by
  induction entries with
  | nil => simp [order, nameInto]
  | cons first more ih =>
    rw [cons_append, order, order, ih]
    by_cases stands : first.gives target ∧ ∀ later ∈ more, later.name = first.name → later.removes target = false
    · have still : (first.gives target ∧ ∀ later ∈ more ++ [entry], later.name = first.name →
          later.removes target = false) ↔ (entry.name = first.name → entry.removes target = false) := by
        rw [forall_mem_append, forall_mem_singleton, ← and_assoc]
        exact and_iff_right stands
      simp only [still, if_pos stands, nameInto]
      cases given : entry.gives target with
      | true =>
        have kept : entry.removes target = false := by simp [removes, given]
        by_cases same : entry.name = first.name
        · by_cases known : first.name ∈ order target more <;> simp [same, kept, known]
        · by_cases known : entry.name ∈ order target more <;> simp [same, kept, known]
      | false =>
        cases gone : entry.removes target with
        | true => by_cases same : entry.name = first.name <;> simp [same, filter_filter, Bool.and_comm, Ne.symm]
        | false => simp
    · rw [if_neg stands, if_neg fun whole => stands ⟨whole.1, fun later mem => whole.2 later (mem_append_left _ mem)⟩]

lemma order_nodup (entries : List Entry) : (order target entries).Nodup := by
  induction entries with
  | nil => exact nodup_nil
  | cons entry more ih =>
    rw [order]
    split
    · exact nodup_cons.2 ⟨by simp, ih.filter _⟩
    · exact ih

lemma names_eq (entries : List Entry) :
    (entries.foldl (mergeInto target) []).map (·.name) = order target entries := by
  induction entries using List.reverseRecOn with
  | nil => rfl
  | append_singleton entries entry ih => rw [foldl_append, order_concat, ← ih, ← names_merge]; rfl

end Entry

/-- An entry of each kind, two of them behind others that do not count. -/
def formEntries : List Tree :=
  [("a", "1", true), ("a", "'x<y'", true), ("b", "$v", true), ("c", "f(1)", false), ("disabled", "$d", true),
    ("checked", "true", true), ("e", "2", true), ("e", "null", true)].map fun (name, value, escaped) =>
      .node (.attr ⟨some name, some value, escaped, true⟩) .start [] []

end PugTemplate.AttributeSet
