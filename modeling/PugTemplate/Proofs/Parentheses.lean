import PugTemplate.Fragment.Emission
import PugTemplate.Proofs.Balance

/-!
# Parentheses around a condition

The parentheses of a condition are taken off if the one that closes the first is the last character.
The text between them is then a sequence of items of its own, and stays one without the blanks around
it. Where an earlier parenthesis closes the first, what is left is at fault there.
-/

namespace PugTemplate.Cursor

open Text List

variable {text rest inner : List Char} {c : Char}

lemma blank_isSingle (blank : isBlank c) : isSingle c := by
  have differs : ∀ d ∈ ['"', '\'', '\\', '(', '[', '{', ')', ']', '}'], c ≠ d := by
    rintro d special rfl
    have visible : (!isBlank c) := (@all_eq_true _ (fun d => !isBlank d) _).1 rfl c special
    rw [blank] at visible
    cases visible
  have noClosing : opening? c = none := by
    unfold opening?
    split
    all_goals first | rfl | exact absurd rfl (differs _ (by simp))
  simp [isSingle, isQuote, isOpening, noClosing, differs]

lemma Items.dropWhile_blank (items : Items [] text rest) : Items [] (text.dropWhile isBlank) rest := by
  induction text with
  | nil => exact items
  | cons c more ih =>
    cases blank : isBlank c with
    | false => rwa [dropWhile_cons_of_neg (by simp [blank])]
    | true =>
      obtain ⟨noQuote, plain, noOpening, -⟩ := single_plain (blank_isSingle blank)
      rw [dropWhile_cons_of_pos blank]
      cases items with
      | single _ _ others => exact ih others
      | string _ isQuote => exact absurd isQuote (by simp [noQuote])
      | escape | backslash => cases plain
      | pair _ closes => exact absurd (close_plain closes).2.2.2 (by simp [noOpening])

lemma Quoted.getLast (quoted : Quoted quote text) : text.getLast? = some quote := by
  induction quoted with
  | close => rfl
  | escaped c more ih => rw [getLast?_cons, getLast?_cons, ih]; rfl
  | char plain inside more ih => rw [getLast?_cons, ih]; rfl

/-- A blank at the end of the text is an item, or it is behind a backslash, which then stands alone. -/
theorem Items.dropLast_blank (items : Items breaks text rest) (ended : rest = [])
    (last : text.getLast? = some c) (blank : isBlank c) : Items breaks text.dropLast rest := by
  obtain ⟨noQuote, plain, -, noClosing⟩ := single_plain (blank_isSingle blank)
  -- the blank is the last character of what follows an item, if anything follows it
  have behind : ∀ {front more : List Char}, more ≠ [] → (front ++ more).getLast? = some c →
      more.getLast? = some c ∧ (front ++ more).dropLast = front ++ more.dropLast := by
    intro front more some last
    rw [getLast?_append_of_ne_nil _ some] at last
    exact ⟨last, dropLast_append_of_ne_nil some⟩
  induction items with
  | nil => exact .nil
  | @string _ _ body more quote starts isQuote quoted others ih =>
    cases more with
    | nil =>
      rw [append_nil, getLast?_cons, quoted.getLast] at last
      rw [← Option.some.inj last] at noQuote
      exact absurd isQuote (Bool.eq_false_iff.1 noQuote)
    | cons d more =>
      obtain ⟨last, front⟩ := @behind (quote :: body) _ (cons_ne_nil _ _) last
      rw [← cons_append, front]
      exact .string starts isQuote quoted (ih ended last)
  | @escape _ _ more starts d others ih =>
    cases more with
    | nil =>
      rw [ended]
      exact .backslash starts
    | cons e more =>
      obtain ⟨last, front⟩ := @behind ['\\', d] _ (cons_ne_nil _ _) last
      exact front ▸ .escape starts d (ih ended last)
  | backslash starts =>
    cases last
    cases plain
  | @pair _ _ inner more bracket close starts closes inside others within ih =>
    cases more with
    | nil =>
      rw [← cons_append, getLast?_concat] at last
      cases last
      rw [closes] at noClosing
      cases noClosing
    | cons d more =>
      have shape : bracket :: (inner ++ close :: d :: more) = bracket :: (inner ++ [close]) ++ d :: more := by
        simp
      rw [shape] at last ⊢
      obtain ⟨last, front⟩ := behind (cons_ne_nil d more) last
      rw [front, cons_append, append_assoc]
      exact .pair starts closes (inside.behind nofun) (ih ended last)
  | @single _ _ more d starts isSingle others ih =>
    cases more with
    | nil => exact .nil
    | cons e more =>
      obtain ⟨last, front⟩ := @behind [d] _ (cons_ne_nil _ _) last
      exact front ▸ .single starts isSingle (ih ended last)

lemma Items.trim (items : Items [] text []) : Items [] (trim text) [] := by
  have started := items.dropWhile_blank
  unfold Text.trim trimEnd trimStart
  rw [← reverse_reverse (text.dropWhile isBlank)] at started
  generalize (text.dropWhile isBlank).reverse = back at started ⊢
  induction back with
  | nil => exact started
  | cons c back ih =>
    cases blank : isBlank c with
    | false => rwa [dropWhile_cons_of_neg (by simp [blank])]
    | true =>
      rw [reverse_cons] at started
      have shorter := started.dropLast_blank rfl getLast?_concat blank
      rw [dropLast_concat] at shorter
      rw [dropWhile_cons_of_pos blank]
      exact ih shorter

lemma readExpression_whole_iff {text} :
    (∃ later, (ofText text).readExpression [] = .ok (text.toList, later)) ↔ Items [] text.toList [] := by
  simp only [readExpression_ok_iff]
  constructor
  · rintro ⟨later, ⟨rest, split, items, -⟩, -⟩
    rwa [self_eq_append_right.1 split] at items
  · intro items
    exact ⟨_, ⟨[], (append_nil _).symm, items, nofun⟩, rfl⟩

end PugTemplate.Cursor

namespace PugTemplate.Emission

open Cursor List

variable {inner more rest : List Char} {subject : String}
  (trimmed : Text.trim subject.toList = subject.toList)

include trimmed

lemma unwrapParens_parenthesis (shape : subject.toList = '(' :: rest) : unwrapParens subject =
    if rest.getLast? == some ')' && (balancedLength [] rest.dropLast).isOk then
      String.ofList (Text.trim rest.dropLast)
    else subject := by
  rw [unwrapParens, trimmed, String.ofList_toList]
  split
  · rename_i found
    cases found.symm.trans shape
    dsimp only
    cases balancedLength [] rest.dropLast with
    | error | ok => cases rest.getLast? == some ')' <;> rfl
  · rename_i other
    exact absurd shape (other rest)

/-- What is between the first parenthesis and the last character is balanced if that closes the first. -/
theorem unwrapParens_closed (shape : subject.toList = '(' :: (inner ++ [')']))
    (items : Items [] inner [')']) : unwrapParens subject = String.ofList (Text.trim inner) := by
  have balanced : balancedLength [] inner = .ok inner.length :=
    balancedLength_accepts ⟨[], (append_nil _).symm, items.behind nofun, nofun⟩
  rw [unwrapParens_parenthesis trimmed shape, getLast?_concat, dropLast_concat, balanced]
  rfl

/-- Otherwise the bracket that closes it is stray there. -/
theorem unwrapParens_open (shape : subject.toList = '(' :: (inner ++ ')' :: more))
    (items : Items [] inner (')' :: more)) (some : more ≠ []) : unwrapParens subject = subject := by
  have stray : balancedLength [] (inner ++ ')' :: more.dropLast) = .error (.stray ')' inner.length) :=
    balancedLength_unbalanced (.stray (.top (items.behind nofun)) rfl nofun nofun)
  rw [unwrapParens_parenthesis trimmed shape, dropLast_append_of_ne_nil (cons_ne_nil _ _),
    dropLast_cons_of_ne_nil some, stray]
  exact if_neg (by simp [Except.isOk, Except.toBool])

lemma unwrapParens_bare (bare : ∀ rest, subject.toList ≠ '(' :: rest) : unwrapParens subject = subject := by
  rw [unwrapParens, trimmed]
  split
  · rename_i rest shape
    exact absurd shape (bare rest)
  · exact String.ofList_toList

lemma unwrapParens_cases (items : Items [] subject.toList []) :
    (∃ inner, subject.toList = '(' :: (inner ++ [')']) ∧ Items [] inner [')']) ∨
      unwrapParens subject = subject := by
  by_cases bare : ∀ rest, subject.toList ≠ '(' :: rest
  · exact .inr (unwrapParens_bare trimmed bare)
  · simp only [ne_eq, not_forall, not_not] at bare
    obtain ⟨rest, shape⟩ := bare
    rw [shape] at items
    cases items with
    | string _ isQuote => cases isQuote
    | single _ isSingle => cases isSingle
    | @pair _ _ inner more _ close starts closes inside others =>
      obtain rfl : close = ')' := by
        unfold opening? at closes
        split at closes <;> cases closes
        rfl
      rw [append_nil] at inside
      cases more with
      | nil => exact .inl ⟨inner, shape, inside⟩
      | cons d more => exact .inr (unwrapParens_open trimmed shape inside (cons_ne_nil d more))

omit trimmed

/-- Parentheses around a condition are taken off exactly if the bracket that closes the first one is the
last character, and what is left is an expression again. -/
theorem parentheses_wrap_the_whole (subject : String) (later : Cursor)
    (trimmed : Text.trim subject.toList = subject.toList)
    (accepted : (ofText subject).readExpression [] = .ok (subject.toList, later)) :
    (∀ inner, subject.toList = '(' :: (inner ++ [')']) → Items [] inner [')'] →
      unwrapParens subject = String.ofList (Text.trim inner)) ∧
    ((∀ inner, subject.toList = '(' :: (inner ++ [')']) → ¬ Items [] inner [')']) →
      unwrapParens subject = subject) ∧
    ∃ finish, (ofText (unwrapParens subject)).readExpression [] =
      .ok ((unwrapParens subject).toList, finish) := by
  have whole := readExpression_whole_iff.1 ⟨later, accepted⟩
  have closed := fun inner => @unwrapParens_closed inner _ trimmed
  have outcome := unwrapParens_cases trimmed whole
  refine ⟨closed, ?_, readExpression_whole_iff.2 ?_⟩
  · intro unclosed
    rcases outcome with ⟨inner, shape, items⟩ | same
    · exact absurd items (unclosed inner shape)
    · exact same
  · rcases outcome with ⟨inner, shape, items⟩ | same
    · rw [closed inner shape items, String.toList_ofList]
      exact (items.behind nofun).trim
    · rwa [same]

/-- A parenthesis in a string closes nothing. -/
theorem quoted_parenthesis_is_passed : unwrapParens "( f(')') )" = "f(')')" ∧
    ∃ finish, (ofText "f(')')").readExpression [] = .ok ("f(')')".toList, finish) := by
  have unwrapped := parentheses_wrap_the_whole "( f(')') )" ⟨[], ⟨1, 10⟩⟩ rfl (by decide +kernel)
  have items : Items [] " f(')') ".toList [] :=
    readExpression_whole_iff.1 ⟨⟨[], ⟨1, 8⟩⟩, by decide +kernel⟩
  have same : unwrapParens "( f(')') )" = "f(')')" := unwrapped.1 _ rfl (items.behind (by decide))
  exact ⟨same, same ▸ unwrapped.2.2⟩

end PugTemplate.Emission
