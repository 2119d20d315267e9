import Mathlib.Data.List.Forall2
import PugTemplate.Mixin
import PugTemplate.Proofs.Literals

/-!
# Joined values

Dots join the values of an attribute, and a dot binds tighter than comparisons, logical operators,
conditions and assignments. Code without such an operator outside its brackets and strings can be
joined as it is. With one, the dots before and behind it are read as parts of its operands.
-/

namespace PugTemplate.Mixin

open Cursor Expression List

def looseSigns : List Char :=
  ['?', ':', '<', '>', '=', '&', '|', '^', '#']

def looseWords : List String :=
  ["and", "or", "xor", "print", "yield", "throw", "include", "include_once", "require", "require_once"]

/-- What a character is to the operators around it. Arrows, double colons and shifts bind tighter than a
dot. Comments and words such as `or` are as good as signs that bind looser. -/
def sign (before c : Char) (rest : List Char) : Char :=
  let word := String.ofList ((c :: rest).takeWhile Text.isWordChar)
  if c == '>' && before == '-' || c == '?' && rest.take 2 == ['-', '>'] ||
      [':', '<', '>'].contains c && (before == c || rest.head? == some c) then '_'
  else if c == '/' && rest.head? == some '/' then '#'
  else if looseWords.contains (Text.lowerAscii word) &&
      !(Text.isWordChar before || ['$', '>', ':'].contains before) then '|'
  else c

def signs (before : Char) : List Char → List Char
  | [] => []
  | c :: rest => sign before c rest :: signs c rest

/-- How far code reaches before an operator that binds looser than a dot, brackets and strings apart. -/
def reach (code : String) : Except Imbalance Nat :=
  balancedLength looseSigns (signs ' ' code.toList)

/-- Balanced code without an operator that binds looser than a dot. -/
def Tight (code : String) : Prop :=
  reach code = .ok code.toList.length ∧ (signs ' ' code.toList).getLast? ≠ some '\\'

def Loose (code : String) : Prop :=
  ∃ length < code.toList.length, reach code = .ok length

/-- What code stands for that is a concatenation: what its operands stand for, one behind the other. -/
inductive Denotes (operand : String → Option (List UInt8)) : String → List UInt8 → Prop
  | operand {code value} (tight : Tight code) (means : operand code = some value) : Denotes operand code value
  | concat {left right first second} (before : Denotes operand left first)
      (behind : Denotes operand right second) : Denotes operand (left ++ " . " ++ right) (first ++ second)

variable {before : Char} {rest : List Char}

@[simp] lemma length_signs : (signs before text).length = text.length := by
  induction text generalizing before with
  | nil => rfl
  | cons c rest ih => rw [signs, length_cons, ih, length_cons]

lemma signs_blank : signs before (text ++ ' ' :: rest) = signs before text ++ ' ' :: signs ' ' rest := by
  induction text generalizing before with
  | nil => rfl
  | cons c more ih =>
    have word : ((c :: more) ++ ' ' :: rest).takeWhile Text.isWordChar = (c :: more).takeWhile Text.isWordChar := by
      have none : (' ' :: rest).takeWhile Text.isWordChar = [] := rfl
      rw [takeWhile_append, none, append_nil]
      split
      · rename_i all
        exact (( takeWhile_prefix _).eq_of_length all).symm
      · rfl
    have pair : ((more ++ ' ' :: rest).take 2 == ['-', '>']) = (more.take 2 == ['-', '>']) := by
      match more with
      | [] | [_] | _ :: _ :: _ => simp
    have next : ∀ d, d ≠ ' ' → ((more ++ ' ' :: rest).head? == some d) = (more.head? == some d) := by
      intro d other
      cases more <;> simp [other.symm]
    rw [cons_append, signs, ih]
    congr 1
    unfold sign
    rw [← cons_append, word, pair, next '/' (by decide)]
    by_cases blank : c = ' '
    · subst blank
      rfl
    · rw [next c blank]

lemma signs_concat : signs ' ' (left ++ " . " ++ right).toList =
    signs ' ' left.toList ++ ([' ', '.', ' '] ++ signs ' ' right.toList) := by
  have split : (left ++ " . " ++ right).toList = left.toList ++ ' ' :: (['.'] ++ ' ' :: right.toList) := by
    simp
  rw [split, signs_blank]
  rfl

lemma loose_concat (loose : Loose left) : Loose (left ++ " . " ++ right) := by
  obtain ⟨length, shorter, read⟩ := loose
  refine ⟨length, ?_, ?_⟩
  · simp only [String.toList_append, length_append]
    omega
  · rw [reach, signs_concat]
    exact balancedLength_append read (by simpa using shorter) _

lemma reach_concat (tight : Tight left) {length} (read : reach right = .ok length) :
    reach (left ++ " . " ++ right) = .ok (left.toList.length + 3 + length) := by
  obtain ⟨whole, plain⟩ := tight
  obtain ⟨text, ⟨rest, split, items, -⟩, same⟩ := balancedLength_ok_iff.1 whole
  obtain ⟨text', ⟨rest', split', items', ends⟩, rfl⟩ := balancedLength_ok_iff.1 read
  have none : rest = [] := by
    have lengths := congrArg List.length split
    rw [length_signs, length_append] at lengths
    exact length_eq_zero_iff.1 (by omega)
  subst none
  rw [append_nil] at split
  rw [split] at plain
  have front : Items looseSigns text ([' ', '.', ' '] ++ text' ++ rest') :=
    items.behind fun _ last => absurd last plain
  have glue : Items looseSigns [' ', '.', ' '] (text' ++ rest') :=
    .single (by decide) rfl (.single (by decide) rfl (.single (by decide) rfl .nil))
  have accepted : Accepts looseSigns (text ++ ([' ', '.', ' '] ++ text')) (signs ' ' (left ++ " . " ++ right).toList) :=
    ⟨rest', by rw [signs_concat, split, split']; simp, front.append (glue.append items'), ends⟩
  rw [reach, balancedLength_accepts accepted]
  simp only [length_append, length_cons, length_nil]
  congr 1
  omega

lemma tight_concat (before : Tight left) (behind : Tight right) : Tight (left ++ " . " ++ right) := by
  refine ⟨?_, ?_⟩
  · rw [reach_concat before behind.1]
    simp only [String.toList_append, length_append]
    rfl
  · rw [signs_concat, getLast?_append, getLast?_append]
    intro last
    cases behindLast : (signs ' ' right.toList).getLast? with
    | none =>
      rw [behindLast] at last
      cases last
    | some c =>
      rw [behindLast] at last
      exact behind.2 (behindLast.trans last)

lemma loose_behind (tight : Tight left) (loose : Loose right) : Loose (left ++ " . " ++ right) := by
  obtain ⟨length, shorter, read⟩ := loose
  refine ⟨_, ?_, reach_concat tight read⟩
  simp only [String.toList_append, length_append]
  exact Nat.add_lt_add_left shorter _

lemma not_loose (tight : Tight left) : ¬Loose left := by
  rintro ⟨length, shorter, read⟩
  have same := Except.ok.inj (tight.1.symm.trans read)
  omega

lemma Denotes.tight {operand}
    (denotes : Denotes operand left value) : Tight left := by
  induction denotes with
  | operand tight => exact tight
  | concat _ _ before behind => exact tight_concat before behind

section Joined

lemma intercalate_glue (next) : (" . " ++ literal ++ " . ").intercalate (code :: next :: more) =
    code ++ " . " ++ (literal ++ " . " ++ (" . " ++ literal ++ " . ").intercalate (next :: more)) := by
  simp [String.append_assoc]

lemma denotes_joined (between : Denotes operand literal separator)
    (each : Forall₂ (Denotes operand) codes meanings) (some : codes ≠ []) :
    Denotes operand ((" . " ++ literal ++ " . ").intercalate codes) (separator.intercalate meanings) := by
  induction each with
  | nil => exact absurd rfl some
  | @cons code meaning codes meanings here later ih =>
    cases later with
    | nil => simpa using here
    | cons next others =>
      rw [intercalate_glue, intercalate_cons_cons, append_assoc]
      exact .concat here (.concat between (ih (cons_ne_nil _ _)))

lemma loose_joined (between : Tight literal) (each : ∀ code ∈ codes, Tight code ∨ Loose code)
    (some : ∃ code ∈ codes, Loose code) : Loose ((" . " ++ literal ++ " . ").intercalate codes) := by
  induction codes with
  | nil => simp at some
  | cons code more ih =>
    cases more with
    | nil => simpa using some
    | cons next others =>
      obtain ⟨here, later⟩ := forall_mem_cons.1 each
      rw [intercalate_glue]
      rcases here with tight | loose
      · have behind := ih later (((exists_mem_cons_iff _ _ _).1 some).resolve_left (not_loose tight))
        exact loose_behind tight (loose_behind between behind)
      · exact loose_concat loose

end Joined

/-- Joined values that are all known are one literal. Otherwise the code for them is a concatenation of what
stands for each value, if that has no operator outside its brackets and strings that binds looser than
a dot. With such an operator in one of them the code is not a concatenation. -/
theorem joined_values_concatenate_unless_loose (operand : String → Option (List UInt8))
    (literals : ∀ code value, literal? code.toList = some value → operand code = some value)
    (values : List String) (many : 2 ≤ values.length) {quote : Char} (isQuote : quote = '\'' ∨ quote = '"')
    {separator : String} (separates : separator = " " ∨ separator = "; ") :
    (∀ texts, values.mapM knownText? = some texts →
      quote = '\'' ∨ holdsVariable (separator.intercalate texts).toList = false →
      literal? (joinValues values separator quote).toList =
        some (bytes (separator.intercalate texts).toList)) ∧
    (values.mapM knownText? = none →
      (∀ meanings, Forall₂ (fun value => Denotes operand (codeValue value quote)) values meanings →
        Denotes operand (joinValues values separator quote) ((bytes separator.toList).intercalate meanings)) ∧
      ((∀ value ∈ values, Tight (codeValue value quote) ∨ Loose (codeValue value quote)) →
        (∃ value ∈ values, Loose (codeValue value quote)) →
        ∀ meaning, ¬Denotes operand (joinValues values separator quote) meaning)) := by
  have between : Denotes operand (codeString separator quote) (bytes separator.toList) := by
    refine .operand ?_ (literals _ _ ?_)
    · rcases isQuote with rfl | rfl <;> rcases separates with rfl | rfl <;> exact ⟨rfl, by decide +kernel⟩
    · rcases isQuote with rfl | rfl <;> rcases separates with rfl | rfl <;> decide +kernel
  unfold joinValues
  constructor
  · intro texts known plain
    rw [known]
    rcases isQuote with rfl | rfl
    · exact literal_single _
    · have none := plain.resolve_left (by decide)
      exact (literal_double _).trans (by rw [none]; rfl)
  · intro unknown
    rw [unknown]
    constructor
    · intro meanings each
      refine denotes_joined between (forall₂_map_left_iff.2 each) ?_
      rw [ne_eq, map_eq_nil_iff]
      rintro rfl
      cases many
    · intro each some meaning denotes
      refine not_loose denotes.tight (loose_joined between.tight ?_ ?_)
      · simpa using each
      · simpa using some

/-- A condition is joined as it is only in parentheses. -/
theorem loose_condition_is_not_joined :
    (∀ meaning, ¬Denotes (fun code => literal? code.toList) (joinValues ["big", "$on ? 'x' : 'y'"] " " '\'')
      meaning) ∧
    Denotes (fun code => if code = "($on ? 'x' : 'y')" then some (bytes ['x']) else literal? code.toList)
      (joinValues ["big", "($on ? 'x' : 'y')"] " " '\'') (bytes "big x".toList) := by
  have word : Tight (codeValue "big" '\'') := ⟨by decide +kernel, by decide +kernel⟩
  have loose : Loose (codeValue "$on ? 'x' : 'y'" '\'') := ⟨4, by decide +kernel, by decide +kernel⟩
  have tight : Tight (codeValue "($on ? 'x' : 'y')" '\'') := ⟨by decide +kernel, by decide +kernel⟩
  constructor
  · have joined := joined_values_concatenate_unless_loose (fun code => literal? code.toList) (fun _ _ => id)
      ["big", "$on ? 'x' : 'y'"] (Nat.le_refl 2) (.inl rfl) (.inl rfl)
    exact (joined.2 (by decide +kernel)).2 (by simp [word, loose]) ⟨_, by simp, loose⟩
  · have joined := joined_values_concatenate_unless_loose
      (fun code => if code = "($on ? 'x' : 'y')" then some (bytes ['x']) else literal? code.toList) ?_
      ["big", "($on ? 'x' : 'y')"] (Nat.le_refl 2) (.inl rfl) (.inl rfl)
    · exact (joined.2 (by decide +kernel)).1 [bytes "big".toList, bytes ['x']]
        (.cons (.operand word (by decide +kernel)) (.cons (.operand tight (by decide +kernel)) .nil))
    · intro code value means
      refine (if_neg ?_).trans means
      rintro rfl
      cases means

end PugTemplate.Mixin
