import Mathlib.Data.List.Forall2
import PugTemplate.Fragment.Attributes
import PugTemplate.Token.Name

/-!
# Attributes read back from markup

A reader of markup takes attributes apart by their quotes and replaces entities. From escaped literals
it gets back their texts, whatever these hold.
-/

namespace PugTemplate

open List

namespace Markup

/-- The text with its entities replaced. -/
def decoded : List Char → List Char
  | '&' :: 'a' :: 'm' :: 'p' :: ';' :: rest => '&' :: decoded rest
  | '&' :: 'l' :: 't' :: ';' :: rest => '<' :: decoded rest
  | '&' :: 'g' :: 't' :: ';' :: rest => '>' :: decoded rest
  | '&' :: 'q' :: 'u' :: 'o' :: 't' :: ';' :: rest => '"' :: decoded rest
  | '&' :: '#' :: '0' :: '3' :: '9' :: ';' :: rest => '\'' :: decoded rest
  | c :: rest => c :: decoded rest
  | [] => []

/-- What a reader of attributes has read of one. -/
inductive Reader where
  | outside
  | inName (name : List Char)
  | behindName (name : List Char)
  | inValue (name : List Char) (quote : Char) (value : List Char)

/-- The names and values of attributes: a blank, a name up to an equals sign, and a value up to the quote
that opens it. -/
def readAttributes : Reader → List Char → Option (List (String × String))
  | .outside, [] => some []
  | _, [] => none
  | .outside, c :: rest => if Text.isBlank c then readAttributes (.inName []) rest else none
  | .inName name, c :: rest =>
    if c = '=' then readAttributes (.behindName name) rest else readAttributes (.inName (name ++ [c])) rest
  | .behindName name, c :: rest =>
    if Cursor.isQuote c then readAttributes (.inValue name c []) rest else none
  | .inValue name quote value, c :: rest =>
    if c = quote then
      (readAttributes .outside rest).map ((String.ofList name, String.ofList (decoded value)) :: ·)
    else readAttributes (.inValue name quote (value ++ [c])) rest

variable {name value rest : List Char} {quote : Char}

lemma decoded_escape : decoded (text.flatMap entity) = text := by
  induction text with
  | nil => rfl
  | cons c rest ih =>
    rw [flatMap_cons, entity]
    repeat' split
    all_goals simp_all [decoded]

lemma unquoted_escape (isQuote : Cursor.isQuote quote) (text : List Char) : quote ∉ text.flatMap entity := by
  rw [mem_flatMap]
  rintro ⟨c, -, mem⟩
  simp only [Cursor.isQuote, Bool.or_eq_true, beq_iff_eq] at isQuote
  by_cases same : c = quote
  · subst same
    rcases isQuote with rfl | rfl <;> simp [entity] at mem
  · unfold entity at mem
    rcases isQuote with rfl | rfl <;> (repeat' split at mem) <;> simp [Ne.symm same] at mem

lemma readAttributes_name (plain : '=' ∉ name) (front) :
    readAttributes (.inName front) (name ++ '=' :: rest) = readAttributes (.behindName (front ++ name)) rest := by
  induction name generalizing front with
  | nil => simp [readAttributes]
  | cons c name ih =>
    rw [mem_cons, not_or] at plain
    rw [cons_append, readAttributes, if_neg (Ne.symm plain.1), ih plain.2, append_assoc, singleton_append]

lemma readAttributes_value (plain : quote ∉ value) (front) :
    readAttributes (.inValue name quote front) (value ++ quote :: rest) =
      (readAttributes .outside rest).map ((String.ofList name, String.ofList (decoded (front ++ value))) :: ·) := by
  induction value generalizing front with
  | nil => simp [readAttributes]
  | cons c value ih =>
    rw [mem_cons, not_or] at plain
    rw [cons_append, readAttributes, if_neg (Ne.symm plain.1), ih plain.2, append_assoc, singleton_append]

end Markup

namespace AttributeSet

open MergedAttribute Markup

variable {target : Target}

lemma set_new {name merged} (new : name ∉ merged.map (·.name))
    (value) : MergedAttribute.set name value merged = merged ++ [⟨name, value⟩] := by
  induction merged with
  | nil => rfl
  | cons entry more ih =>
    rw [map_cons, mem_cons, not_or] at new
    rw [MergedAttribute.set, if_neg (by simpa using Ne.symm new.1), ih new.2, cons_append]

/-- A node that gives an attribute an escaped literal. -/
def Literal (tree : Tree) (entry : String × String) : Prop :=
  ∃ value checked, tree.kind = .attr ⟨some entry.1, some value, true, checked⟩ ∧
    Expression.classify value = .literal entry.2

def literalAttribute (entry : String × String) : MergedAttribute :=
  ⟨entry.1, .parts [.literal (Markup.escape entry.2)]⟩

lemma ofTrees_literals (literal : Forall₂ Literal trees entries) (distinct : (entries.map Prod.fst).Nodup) :
    ofTrees target trees = ⟨entries.map literalAttribute, []⟩ := by
  have run : ∀ merged : List MergedAttribute, (∀ entry ∈ entries, entry.1 ∉ merged.map (·.name)) →
      trees.foldl (add target) ⟨merged, []⟩ = ⟨merged ++ entries.map literalAttribute, []⟩ := by
    induction literal with
    | nil => simp
    | @cons tree entry trees entries first later ih =>
      intro merged new
      rw [map_cons, nodup_cons] at distinct
      obtain ⟨value, checked, kind, known⟩ := first
      have step : add target ⟨merged, []⟩ tree = ⟨merged ++ [literalAttribute entry], []⟩ := by
        simp [add, kind, MergedAttribute.merge, value?, known, set_new (new entry mem_cons_self), literalAttribute]
      rw [foldl_cons, step, ih distinct.2, append_assoc]
      · rfl
      · intro other mem isOld
        rw [map_append, mem_append] at isOld
        rcases isOld with old | here
        · exact new other (mem_cons_of_mem _ mem) old
        · exact distinct.1 (mem_map.2 ⟨other, mem, mem_singleton.1 here⟩)
  exact run [] (by simp)

/-- Escaped literals cannot break out of the markup: a reader gets the names and texts back. -/
theorem literals_are_read_back {trees : List Tree} {entries : List (String × String)}
    (literal : Forall₂ Literal trees entries) (distinct : (entries.map Prod.fst).Nodup)
    (named : ∀ entry ∈ entries, entry.1.toList.all Token.isAttributeNameChar)
    (quoted : Cursor.isQuote target.format.quoteStyle = true) :
    readAttributes .outside (text target (ofTrees target trees)).toList = some entries := by
  rw [ofTrees_literals literal distinct]
  clear literal distinct
  induction entries with
  | nil => rfl
  | cons entry more ih =>
    have plain : '=' ∉ entry.1.toList := by
      intro mem
      cases all_eq_true.1 (named entry mem_cons_self) '=' mem
    have shape : (text target ⟨(entry :: more).map literalAttribute, []⟩).toList =
        ' ' :: (entry.1.toList ++ '=' :: target.format.quoteStyle :: (entry.2.toList.flatMap entity ++
          target.format.quoteStyle :: (text target ⟨more.map literalAttribute, []⟩).toList)) := by
      simp [text, mergedText, literalAttribute, partText, Format.quote, Markup.escape]
    rw [shape, readAttributes, if_pos (show Text.isBlank ' ' = true from rfl), readAttributes_name plain,
      readAttributes, if_pos quoted, readAttributes_value (unquoted_escape quoted _),
      ih (forall_mem_cons.1 named).2]
    simp [decoded_escape]

/-- A text that holds the quote and looks as if it were escaped. -/
theorem escaped_quote_is_read_back :
    readAttributes .outside (text ⟨{ Format.standard with quoteStyle := '\'' }, [], .html, ""⟩
      (ofTrees ⟨{ Format.standard with quoteStyle := '\'' }, [], .html, ""⟩
        [.node (.attr ⟨some "title", some "'\"&lt;\\''", true, true⟩) .start [] []])).toList =
      some [("title", "\"&lt;'")] :=
  literals_are_read_back (.cons ⟨_, _, rfl, by decide +kernel⟩ .nil) (by decide) (by decide +kernel) rfl

end AttributeSet

end PugTemplate
