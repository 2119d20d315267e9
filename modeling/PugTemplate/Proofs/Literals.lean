import PugTemplate.Expression
import PugTemplate.Proofs.Balance

/-!
# What string literals stand for

The code that templates compile to knows two escapes between single quotes: a backslash in front of a
quote, and one in front of a backslash. A literal of a template is read with the first of them only,
but when it is quoted anew both are written. So it keeps its meaning unless it protects a backslash.

Between double quotes the code puts variables in, so the text must hold nothing that looks like one.
-/

namespace PugTemplate.Expression

open Cursor

/-- What the code behind an opening single quote stands for, up to the quote that closes it. -/
def meaning : List Char → List Char
  | '\\' :: '\'' :: rest => '\'' :: meaning rest
  | '\\' :: '\\' :: rest => '\\' :: meaning rest
  | '\'' :: _ => []
  | c :: rest => c :: meaning rest
  | [] => []

/-- How many backslashes are protected by another one. -/
def protectedBackslashes : List Char → Nat
  | '\\' :: c :: rest => protectedBackslashes rest + if c = '\\' then 1 else 0
  | _ :: rest => protectedBackslashes rest
  | [] => 0

lemma meaning_char {c : Char} (plain : c ≠ '\\') (inside : c ≠ '\'') (rest) :
    meaning (c :: rest) = c :: meaning rest := by
  rw [meaning]
  · exact fun _ same => absurd same plain
  · exact fun _ same => absurd same plain
  · exact inside

lemma meaning_backslash (plain : c ≠ '\\') (inside : c ≠ '\'') (rest) :
    meaning ('\\' :: c :: rest) = '\\' :: c :: meaning rest := by
  rw [meaning, meaning_char plain inside]
  · exact fun _ _ same => absurd (List.cons.inj same).1 inside
  · exact fun _ _ same => absurd (List.cons.inj same).1 plain
  · decide

lemma meaning_escaped (text) : Quoted '\'' (text.flatMap (escapeCodeChar '\'') ++ ['\'']) ∧
    meaning (text.flatMap (escapeCodeChar '\'') ++ ['\'']) = text := by
  induction text with
  | nil => exact ⟨.close, rfl⟩
  | cons c rest ih =>
    obtain ⟨closed, same⟩ := ih
    rw [List.flatMap_cons, List.append_assoc, escapeCodeChar]
    by_cases isQuote : c = '\''
    · subst isQuote
      exact ⟨.escaped _ closed, congrArg _ same⟩
    · by_cases isBackslash : c = '\\'
      · subst isBackslash
        exact ⟨.escaped _ closed, congrArg _ same⟩
      · rw [if_neg (by simp [isQuote, isBackslash]), List.singleton_append, meaning_char isBackslash isQuote, same]
        exact ⟨.char isBackslash isQuote closed, rfl⟩

/-- A string is read as what it stands for, with one more backslash for each that is protected. -/
theorem quotedBody_meaning (closed : Quoted '\'' text) : ∃ value, quotedBody '\'' text = some (value, text.length) ∧
      value.length = (meaning text).length + protectedBackslashes text ∧
      (protectedBackslashes text = 0 → value = meaning text) := by
  induction closed with
  | close => exact ⟨[], rfl, rfl, fun _ => rfl⟩
  | @escaped text c more ih =>
    obtain ⟨value, read, length, same⟩ := ih
    rw [quotedBody, read, protectedBackslashes]
    by_cases isQuote : c = '\''
    · subst isQuote
      exact ⟨_, rfl, by simp [meaning]; omega, fun none => congrArg _ (same (by simpa using none))⟩
    · refine ⟨'\\' :: c :: value, by simp [isQuote], ?_⟩
      by_cases isBackslash : c = '\\'
      · subst isBackslash
        exact ⟨by simp [meaning]; omega, by simp⟩
      · rw [meaning_backslash isBackslash isQuote]
        exact ⟨by simp [isBackslash]; omega, fun none => by rw [same (by simpa [isBackslash] using none)]⟩
  | @char c text plain inside more ih =>
    obtain ⟨value, read, length, same⟩ := ih
    have count : protectedBackslashes (c :: text) = protectedBackslashes text := by
      rw [protectedBackslashes]
      exact fun _ _ same => absurd same plain
    rw [quotedBody_plain plain (by simpa using inside), read, meaning_char plain inside, count]
    refine ⟨c :: value, rfl, ?_, fun none => congrArg _ (same none)⟩
    simp only [List.length_cons]
    omega

/-- A literal in single quotes is quoted anew so that it stands for what it stood for, if and only if it
protects no backslash. Each one that it protects is doubled. -/
theorem requoting_keeps_meaning_iff {value : String} {text : List Char}
    (literal : Text.trim value.toList = '\'' :: text) (closed : Quoted '\'' text) :
    ∃ code, (codeValue value '\'').toList = '\'' :: code ∧ Quoted '\'' code ∧
      (meaning code).length = (meaning text).length + protectedBackslashes text ∧
      (meaning code = meaning text ↔ protectedBackslashes text = 0) := by
  obtain ⟨read, found, length, same⟩ := quotedBody_meaning closed
  have known : quoted? ('\'' :: text) = some read := by
    have atEnd : ((⟨'\'' :: text, .start⟩ : Cursor).skip (text.length + 1)).atEnd = true := by
      rw [atEnd, rest_skip]
      exact List.isEmpty_iff.2 (List.drop_eq_nil_of_le (Nat.le_refl _))
    simp [quoted?, readString, isQuote, found, atEnd]
  have classified : classify value = .literal (String.ofList read) := by
    rw [classify, literal, classifyTrimmed, known]
  obtain ⟨codeClosed, means⟩ := meaning_escaped read
  have written : (codeValue value '\'').toList = '\'' :: (read.flatMap (escapeCodeChar '\'') ++ ['\'']) := by
    simp [codeValue, classified, codeString]
  refine ⟨_, written, codeClosed, by rw [means, length], ?_⟩
  rw [means]
  refine ⟨fun kept => ?_, same⟩
  rw [kept] at length
  omega

/-- A protected backslash is doubled, while a protected quote stays what it is. -/
theorem protected_backslash_is_doubled :
    (∃ code, (codeValue " 'it\\'s'" '\'').toList = '\'' :: code ∧ meaning code = "it's".toList) ∧
      ∃ code, (codeValue "'a\\\\b'" '\'').toList = '\'' :: code ∧ meaning code ≠ "a\\b".toList := by
  obtain ⟨kept, written, -, -, same⟩ := @requoting_keeps_meaning_iff " 'it\\'s'" "it\\'s'".toList rfl
    (.char (by decide) (by decide) <| .char (by decide) (by decide) <| .escaped _ <|
      .char (by decide) (by decide) .close)
  obtain ⟨doubled, rewritten, -, -, other⟩ := @requoting_keeps_meaning_iff "'a\\\\b'" "a\\\\b'".toList rfl
    (.char (by decide) (by decide) <| .escaped _ <| .char (by decide) (by decide) .close)
  exact ⟨⟨kept, written, same.2 rfl⟩, doubled, rewritten, fun same => absurd (other.1 same) (by decide)⟩

def bytes (text : List Char) : List UInt8 :=
  text.flatMap String.utf8EncodeChar

def digitValue (c : Char) : Nat :=
  if c.isDigit then c.toNat - '0'.toNat else c.toLower.toNat - 'a'.toNat + 10

def digitsOf (base : Nat) (text : List Char) : List Char :=
  text.takeWhile fun c => c.isAlphanum && digitValue c < base

def numberOf (base : Nat) (digits : List Char) : Nat :=
  digits.foldl (fun number c => number * base + digitValue c) 0

/-- What a backslash between double quotes stands for together with characters of the text behind it,
and the number of these. A backslash that begins no escape stands for itself. -/
def escape : List Char → List UInt8 × Nat
  | [] => (bytes ['\\'], 0)
  | c :: rest =>
    let octal := digitsOf 8 (c :: rest.take 2)
    let hex := digitsOf 16 (rest.take 2)
    let point := digitsOf 16 (rest.drop 1)
    if octal ≠ [] then ([UInt8.ofNat (numberOf 8 octal)], octal.length)
    else if c = 'x' ∧ hex ≠ [] then ([UInt8.ofNat (numberOf 16 hex)], hex.length + 1)
    else if c = 'u' ∧ rest.head? = some '{' ∧ point ≠ [] then
      (bytes [Char.ofNat (numberOf 16 point)], point.length + 3)
    else
      match [('n', '\n'), ('t', '\t'), ('r', '\r'), ('v', '\x0b'), ('e', '\x1b'), ('f', '\x0c'),
        ('\\', '\\'), ('$', '$'), ('"', '"')].lookup c with
      | some meant => (bytes [meant], 1)
      | none => (bytes ['\\', c], 1)

/-- Whether two characters begin a variable between double quotes. The names of variables begin with an
underscore or a letter, which all characters beyond ASCII are. -/
def beginsVariable (c next : Char) : Bool :=
  c == '$' && (next.isAlpha || next == '_' || next == '{' || 0x80 ≤ next.toNat) || c == '{' && next == '$'

/-- What the code behind an opening double quote stands for, after `skipping` characters of an escape. It
has to end with the closing quote, and it stands for no text if it puts a variable in. -/
def doubleQuoted? (skipping : Nat) : List Char → Option (List UInt8)
  | [] => none
  | c :: rest =>
    match skipping with
    | skipping + 1 => doubleQuoted? skipping rest
    | 0 =>
      if c = '"' then if rest.isEmpty then some [] else none
      else if c = '\\' then (doubleQuoted? (escape rest).2 rest).map ((escape rest).1 ++ ·)
      else if rest.head?.any (beginsVariable c) then none
      else (doubleQuoted? 0 rest).map (bytes [c] ++ ·)

def literal? : List Char → Option (List UInt8)
  | '\'' :: code =>
    if (quotedBody '\'' code).any (·.2 = code.length) then some (bytes (meaning code)) else none
  | '"' :: code => doubleQuoted? 0 code
  | _ => none

def holdsVariable : List Char → Bool
  | c :: next :: rest => beginsVariable c next || holdsVariable (next :: rest)
  | _ => false

lemma begins_no_variable (next) (plain : c = '"' ∨ c = '\\') :
    beginsVariable c next = false ∧ beginsVariable next c = false := by
  rcases plain with rfl | rfl <;> simp [beginsVariable]

lemma holdsVariable_cons (rest) :
    holdsVariable (c :: rest) = (rest.head?.any (beginsVariable c) || holdsVariable rest) := by
  cases rest <;> simp [holdsVariable]

/-- Escaping does not change whether a variable begins before a text. -/
theorem head_escaped (c) (text : List Char) :
    (text.flatMap (escapeCodeChar '"') ++ ['"']).head?.any (beginsVariable c) =
      text.head?.any (beginsVariable c) := by
  cases text with
  | nil => exact (begins_no_variable c (.inl rfl)).2
  | cons next rest =>
    rw [List.flatMap_cons, escapeCodeChar]
    split
    · rename_i escaped
      have plain : next = '"' ∨ next = '\\' := by simpa using escaped
      exact (begins_no_variable c (.inr rfl)).2.trans (begins_no_variable c plain).2.symm
    · rfl

lemma doubleQuoted_escaped (text) : doubleQuoted? 0 (text.flatMap (escapeCodeChar '"') ++ ['"']) =
    if holdsVariable text then none else some (bytes text) := by
  induction text with
  | nil => rfl
  | cons c rest ih =>
    have escaped : c = '"' ∨ c = '\\' → escapeCodeChar '"' c = ['\\', c] ∧ ∀ tail,
        escape (c :: tail) = (bytes [c], 1) := by
      rintro (rfl | rfl) <;> exact ⟨rfl, fun _ => rfl⟩
    have whole : bytes (c :: rest) = bytes [c] ++ bytes rest := by simp [bytes]
    rw [List.flatMap_cons, holdsVariable_cons, whole]
    by_cases plain : c = '"' ∨ c = '\\'
    · obtain ⟨code, read⟩ := escaped plain
      have none : rest.head?.any (beginsVariable c) = false := by
        cases rest <;> simp [begins_no_variable _ plain]
      rw [code, List.append_assoc, List.cons_append, List.cons_append, doubleQuoted?, read, doubleQuoted?,
        List.nil_append, ih, none]
      cases holdsVariable rest <;> rfl
    · obtain ⟨noQuote, noBackslash⟩ := not_or.1 plain
      have code : escapeCodeChar '"' c = [c] := by simp [escapeCodeChar, noQuote, noBackslash]
      rw [code, List.append_assoc, List.singleton_append, doubleQuoted?, if_neg noQuote, if_neg noBackslash,
        head_escaped, ih]
      cases rest.head?.any (beginsVariable c) with
      | true => rfl
      | false => cases holdsVariable rest <;> rfl

lemma literal_single (text) : literal? (codeString text '\'').toList = some (bytes text.toList) := by
  obtain ⟨closed, means⟩ := meaning_escaped text.toList
  obtain ⟨value, read, -⟩ := quotedBody_meaning closed
  simp only [codeString, String.toList_ofList, List.cons_append, literal?]
  rw [read, means]
  simp

lemma literal_double (text) : literal? (codeString text '"').toList =
    if holdsVariable text.toList then none else some (bytes text.toList) := by
  rw [codeString, String.toList_ofList]
  exact doubleQuoted_escaped text.toList

/-- A literal in single quotes stands for its text. One in double quotes does so if and only if the text
holds nothing that looks like a variable. -/
theorem literals_denote_their_text_iff (text : String) :
    literal? (codeString text '\'').toList = some (bytes text.toList) ∧
      (literal? (codeString text '"').toList = some (bytes text.toList) ↔
        holdsVariable text.toList = false) := by
  rw [literal_double]
  refine ⟨literal_single text, ?_⟩
  cases holdsVariable text.toList <;> simp

/-- Between double quotes a price is read as it is, and a name as a variable. -/
example : literal? (codeString "$5" '"').toList = some (bytes "$5".toList) ∧
    literal? (codeString "$a" '"').toList = none := by
  decide +kernel

/-- The text with every backslash doubled. -/
def doubled (text : List Char) : List Char :=
  text.flatMap fun c => if c = '\\' then ['\\', '\\'] else [c]

lemma doubled_injective (same : doubled text = doubled other) : text = other := by
  induction text generalizing other with
  | nil => cases other <;> grind [doubled]
  | cons c rest ih =>
    cases other with
    | nil => grind [doubled]
    | cons d more =>
      have heads : c = d ∧ doubled rest = doubled more := by
        simp only [doubled, List.flatMap_cons] at same
        split at same <;> split at same <;> simp_all [doubled, eq_comm]
      rw [heads.1, ih heads.2]

lemma quotedBody_escaped (isQuote : isQuote quote) (text following) :
    quotedBody quote (text.flatMap (escapeCodeChar quote) ++ quote :: following) =
      some (doubled text, (text.flatMap (escapeCodeChar quote) ++ [quote]).length) := by
  have plain := quote_plain isQuote
  induction text with
  | nil => exact quotedBody_close plain (beq_self_eq_true quote) following
  | cons c rest ih =>
    rw [List.flatMap_cons, List.append_assoc, escapeCodeChar]
    by_cases isBackslash : c = '\\'
    · subst isBackslash
      rw [if_pos (by simp), List.cons_append, List.singleton_append, quotedBody, ih]
      simp [doubled, Ne.symm plain]
    · by_cases closes : c = quote
      · subst closes
        rw [if_pos (by simp), List.cons_append, List.singleton_append, quotedBody, ih]
        simp [doubled, isBackslash]
      · rw [if_neg (by simp [closes, isBackslash]), List.singleton_append,
          quotedBody_plain isBackslash (by simpa using closes), ih]
        simp [doubled, isBackslash]

lemma readString_codeString (isQuote : isQuote quote) (text following place) :
    (⟨(codeString text quote).toList ++ following, place⟩ : Cursor).readString =
      .ok (some (doubled text.toList), Cursor.skip (codeString text quote).toList.length
        ⟨(codeString text quote).toList ++ following, place⟩) := by
  have read := quotedBody_escaped isQuote text.toList following
  simp only [codeString, String.toList_ofList, List.cons_append, List.append_assoc, List.nil_append, readString,
    isQuote, ↓reduceIte, read]
  rfl

lemma classify_codeString (isQuote : isQuote quote) (text) :
    classify (codeString text quote) = .literal (String.ofList (doubled text.toList)) := by
  have written : Text.isBlank quote = false := by
    simp only [Cursor.isQuote, Bool.or_eq_true, beq_iff_eq] at isQuote
    rcases isQuote with rfl | rfl <;> rfl
  have trimmed : Text.trim (codeString text quote).toList = (codeString text quote).toList := by
    simp [codeString, Text.trim, Text.trimStart, Text.trimEnd, written]
  have read := readString_codeString isQuote text [] .start
  rw [List.append_nil] at read
  simp [classify, trimmed, classifyTrimmed, quoted?, read, atEnd, rest_skip]

/-- A literal ends with its closing quote and not before, whatever its text and whatever follows: it is read
as its text with every backslash doubled. So different texts have different literals, and each literal is
known as one. -/
theorem literals_end_with_their_quote (text : String) {quote : Char} (isQuote : isQuote quote = true) :
    (∀ following place, ∃ rest, rest.rest = following ∧
      (⟨(codeString text quote).toList ++ following, place⟩ : Cursor).readString =
        .ok (some (doubled text.toList), rest)) ∧
      (∀ other, codeString other quote = codeString text quote → other = text) ∧
      classify (codeString text quote) = .literal (String.ofList (doubled text.toList)) := by
  refine ⟨fun following place => ⟨_, ?_, readString_codeString isQuote text following place⟩,
    fun other same => ?_, classify_codeString isQuote text⟩
  · rw [rest_skip]
    exact List.drop_left
  · have known := classify_codeString isQuote other
    rw [same, classify_codeString isQuote text] at known
    exact String.toList_inj.1 (doubled_injective (String.ofList_inj.1 (Value.literal.inj known))).symm

/-- A text that ends in a backslash and holds the quote does not run over into what follows. -/
theorem backslashes_do_not_open_literals :
    ∃ rest : Cursor, rest.rest = " . $x".toList ∧
      (⟨(codeString "a'b\\" '\'').toList ++ " . $x".toList, .start⟩ : Cursor).readString =
        .ok (some "a'b\\\\".toList, rest) :=
  (literals_end_with_their_quote "a'b\\" rfl).1 _ _

end PugTemplate.Expression
