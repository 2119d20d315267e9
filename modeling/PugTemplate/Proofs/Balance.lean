import PugTemplate.Proofs.Scanning

/-!
# The grammar of balanced text

A balanced text is a sequence of items: strings, protected characters, pairs of brackets around items,
and single characters. Reading an expression accepts the front of a text that is such a sequence up to
a break or to the end. A text without such a front is at fault at one quote or bracket.
-/

namespace PugTemplate.Cursor

open List

/-- The text of a string behind its opening quote, with the closing one. -/
inductive Quoted (quote : Char) : List Char → Prop
  | close : Quoted quote [quote]
  | escaped {text} (c : Char) (more : Quoted quote text) : Quoted quote ('\\' :: c :: text)
  | char {c text} (plain : c ≠ '\\') (inside : c ≠ quote)
      (more : Quoted quote text) : Quoted quote (c :: text)

def isSingle (c : Char) : Bool :=
  !isQuote c && c != '\\' && !isOpening c && (opening? c).isNone

/-- A sequence of items in front of `rest`. None of them starts with a break; inside of brackets a
break is a character like any other. A backslash stands alone only at the end of the text. -/
inductive Items : List Char → List Char → List Char → Prop
  | nil {breaks rest} : Items breaks [] rest
  | string {breaks rest body more quote} (starts : quote ∉ breaks)
      (isQuote : isQuote quote) (quoted : Quoted quote body) (others : Items breaks more rest) :
      Items breaks (quote :: (body ++ more)) rest
  | escape {breaks rest more} (starts : '\\' ∉ breaks) (c : Char)
      (others : Items breaks more rest) : Items breaks ('\\' :: c :: more) rest
  | backslash {breaks} (starts : '\\' ∉ breaks) : Items breaks ['\\'] []
  | pair {breaks rest inner more bracket close} (starts : bracket ∉ breaks)
      (closes : opening? close = some bracket) (inside : Items [] inner (close :: (more ++ rest)))
      (others : Items breaks more rest) : Items breaks (bracket :: (inner ++ close :: more)) rest
  | single {breaks rest more c} (starts : c ∉ breaks)
      (isSingle : isSingle c) (others : Items breaks more rest) : Items breaks (c :: more) rest

/-- The front `text` of a text is a sequence of items, up to a break or to the end. -/
def Accepts (breaks text whole : List Char) : Prop :=
  ∃ rest, whole = text ++ rest ∧ Items breaks text rest ∧ ∀ c ∈ rest.head?, c ∈ breaks

/-- Items in front of `rest` that leave brackets open, innermost first and with their places. -/
inductive Within (breaks : List Char) : List (Char × Nat) → List Char → List Char → Prop
  | top {text rest} (items : Items breaks text rest) : Within breaks [] text rest
  | inside {opened before text rest bracket}
      (outer : Within breaks opened before (bracket :: (text ++ rest)))
      (opens : isOpening bracket) (starts : opened = [] → bracket ∉ breaks)
      (items : Items [] text rest) :
      Within breaks ((bracket, before.length) :: opened) (before ++ bracket :: text) rest

/-- What makes a text unbalanced. -/
inductive Unbalanced (breaks : List Char) : List Char → Imbalance → Prop
  | stray {opened before rest close bracket}
      (read : Within breaks opened before (close :: rest)) (closes : opening? close = some bracket)
      (starts : opened = [] → close ∉ breaks) (other : opened.head?.map Prod.fst ≠ some bracket) :
      Unbalanced breaks (before ++ close :: rest) (.stray close before.length)
  | unclosed {opened text bracket index}
      (read : Within breaks ((bracket, index) :: opened) text []) :
      Unbalanced breaks text (.unclosed bracket index)
  | unterminated {opened before rest quote}
      (read : Within breaks opened before (quote :: rest)) (isQuote : isQuote quote)
      (starts : opened = [] → quote ∉ breaks)
      (unclosed : ∀ body tail, rest = body ++ tail → ¬ Quoted quote body) :
      Unbalanced breaks (before ++ quote :: rest) (.unterminated before.length)

variable {breaks text whole rest before : List Char} {quote bracket c : Char} {opened : List (Char × Nat)}

lemma bracket_plain (opens : isOpening c) : isQuote c = false ∧ c ≠ '\\' ∧ opening? c = none := by
  simp only [isOpening, Bool.or_eq_true, beq_iff_eq] at opens
  rcases opens with (rfl | rfl) | rfl <;> exact ⟨rfl, by decide, rfl⟩

lemma close_plain (closes : opening? c = some bracket) :
    isQuote c = false ∧ c ≠ '\\' ∧ isOpening c = false ∧ isOpening bracket := by
  unfold opening? at closes
  split at closes
  all_goals cases closes
  all_goals exact ⟨rfl, by decide, rfl, rfl⟩

lemma quote_plain (isQuote : isQuote quote) : quote ≠ '\\' := by
  rintro rfl
  cases isQuote

section Scan

attribute [local simp] balancedFrom quotedBody balancedLength

lemma single_plain (isSingle : isSingle c) :
    isQuote c = false ∧ (c == '\\') = false ∧ isOpening c = false ∧ opening? c = none := by
  simp only [Cursor.isSingle, Bool.and_eq_true, Bool.not_eq_true', bne_iff_ne,
    Option.isNone_iff_eq_none] at isSingle
  obtain ⟨⟨⟨noQuote, plain⟩, noOpening⟩, noClosing⟩ := isSingle
  exact ⟨noQuote, beq_eq_false_iff_ne.2 plain, noOpening, noClosing⟩

lemma quotedBody_quoted (quoted : Quoted quote body) (plain : quote ≠ '\\') :
    ∃ value, ∀ rest, quotedBody quote (body ++ rest) = some (value, body.length) := by
  induction quoted with
  | close => exact ⟨[], quotedBody_close plain (beq_self_eq_true quote)⟩
  | escaped c more ih =>
    obtain ⟨value, found⟩ := ih
    refine ⟨if c == quote then c :: value else '\\' :: c :: value, fun rest => ?_⟩
    simp [found]
  | @char c text unescaped inside more ih =>
    obtain ⟨value, found⟩ := ih
    refine ⟨c :: value, fun rest => ?_⟩
    rw [cons_append, quotedBody_plain unescaped (mt beq_iff_eq.1 inside), found]
    rfl

lemma quoted_of_quotedBody {length} (plain : quote ≠ '\\')
    (found : quotedBody quote text = some (value, length)) :
    ∃ body rest, text = body ++ rest ∧ Quoted quote body ∧ body.length = length := by
  induction text using quotedBody.induct quote generalizing value length with
  | case1 | case2 => cases found
  | case3 c rest ih =>
    obtain ⟨⟨inner, count⟩, closed, same⟩ := Option.map_eq_some_iff.1 found
    cases same
    obtain ⟨body, tail, rfl, quoted, rfl⟩ := ih closed
    exact ⟨'\\' :: c :: body, tail, rfl, .escaped c quoted, rfl⟩
  | case4 c rest last unescaped closes =>
    have ordinary : c ≠ '\\' := by rwa [beq_iff_eq.1 closes]
    rw [quotedBody_close ordinary closes] at found
    cases found
    rw [beq_iff_eq.1 closes]
    exact ⟨[quote], rest, rfl, .close, rfl⟩
  | case5 c rest last unescaped inside ih =>
    have ordinary : c ≠ '\\' := by
      rintro rfl
      cases rest with
      | nil => exact last rfl rfl
      | cons d more => exact unescaped d more rfl rfl
    rw [quotedBody_plain ordinary inside] at found
    obtain ⟨⟨inner, count⟩, closed, same⟩ := Option.map_eq_some_iff.1 found
    cases same
    obtain ⟨body, tail, rfl, quoted, rfl⟩ := ih closed
    exact ⟨c :: body, tail, rfl, .char ordinary (mt beq_iff_eq.2 inside) quoted, rfl⟩

lemma balancedFrom_skip (opened skipping index covered rest) :
    balancedFrom breaks opened (covered.length + skipping) index (covered ++ rest) =
      balancedFrom breaks opened skipping (index + covered.length) rest := by
  induction covered generalizing index with
  | nil => rw [length_nil, Nat.zero_add]; rfl
  | cons c covered ih =>
    rw [cons_append, length_cons, Nat.add_right_comm, balancedFrom, ih, Nat.add_right_comm, Nat.add_assoc]

lemma no_break (starts : opened = [] → c ∉ breaks) : ¬ (opened.isEmpty && breaks.contains c) := by
  rw [Bool.and_eq_true, List.isEmpty_iff, contains_iff_mem]
  exact fun both => starts both.1 both.2

lemma balancedFrom_string (starts : opened = [] → quote ∉ breaks) (isQuote : isQuote quote)
    (quoted : Quoted quote body) (index rest) :
    balancedFrom breaks opened 0 index (quote :: (body ++ rest)) =
      balancedFrom breaks opened 0 (index + 1 + body.length) rest := by
  obtain ⟨value, found⟩ := quotedBody_quoted quoted (quote_plain isQuote)
  rw [balancedFrom, if_neg (no_break starts), if_pos isQuote, found]
  exact balancedFrom_skip opened 0 (index + 1) body rest

lemma balancedFrom_backslash (starts : opened = [] → '\\' ∉ breaks)
    (index rest) : balancedFrom breaks opened 0 index ('\\' :: rest) =
      balancedFrom breaks opened 1 (index + 1) rest := by
  rw [balancedFrom, if_neg (no_break starts)]
  rfl

lemma balancedFrom_open (starts : opened = [] → bracket ∉ breaks)
    (opens : isOpening bracket) (index rest) :
    balancedFrom breaks opened 0 index (bracket :: rest) =
      balancedFrom breaks ((bracket, index) :: opened) 0 (index + 1) rest := by
  obtain ⟨noQuote, plain, -⟩ := bracket_plain opens
  rw [balancedFrom, if_neg (no_break starts), if_neg (Bool.eq_false_iff.1 noQuote),
    if_neg (mt beq_iff_eq.1 plain), if_pos opens]

lemma balancedFrom_close (closes : opening? c = some bracket) (index rest) :
    balancedFrom breaks ((bracket, place) :: outer) 0 index (c :: rest) =
      balancedFrom breaks outer 0 (index + 1) rest := by
  obtain ⟨noQuote, plain, noOpening, -⟩ := close_plain closes
  rw [balancedFrom, if_neg (no_break fun none => absurd none (cons_ne_nil _ _)),
    if_neg (Bool.eq_false_iff.1 noQuote), if_neg (mt beq_iff_eq.1 plain),
    if_neg (Bool.eq_false_iff.1 noOpening), closes]
  dsimp only
  rw [if_pos (beq_self_eq_true bracket)]

lemma balancedFrom_stray (starts : opened = [] → c ∉ breaks) (closes : opening? c = some bracket)
    (other : opened.head?.map Prod.fst ≠ some bracket)
    (index rest) : balancedFrom breaks opened 0 index (c :: rest) = .error (.stray c index) := by
  obtain ⟨noQuote, plain, noOpening, -⟩ := close_plain closes
  rw [balancedFrom, if_neg (no_break starts), if_neg (Bool.eq_false_iff.1 noQuote),
    if_neg (mt beq_iff_eq.1 plain), if_neg (Bool.eq_false_iff.1 noOpening), closes]
  cases opened with
  | nil => rfl
  | cons innermost outer =>
    have differs : ¬ (innermost.1 == bracket) := fun same => other (congrArg some (beq_iff_eq.1 same))
    dsimp only
    rw [if_neg differs]

lemma balancedFrom_single (starts : opened = [] → c ∉ breaks) (isSingle : isSingle c) (index rest) :
    balancedFrom breaks opened 0 index (c :: rest) = balancedFrom breaks opened 0 (index + 1) rest := by
  obtain ⟨noQuote, plain, noOpening, noClosing⟩ := single_plain isSingle
  rw [balancedFrom, if_neg (no_break starts), noQuote, plain, noOpening, noClosing]
  rfl

lemma balancedFrom_items (items : Items around text rest) (top : opened = [] → around = breaks)
    (index) : balancedFrom breaks opened 0 index (text ++ rest) =
      balancedFrom breaks opened 0 (index + text.length) rest := by
  induction items generalizing opened index with
  | nil => rfl
  | string starts isQuote quoted others ih =>
    rw [cons_append, append_assoc, balancedFrom_string (fun none => top none ▸ starts) isQuote quoted, ih top]
    simp only [length_cons, length_append]
    congr 1
    omega
  | escape starts c others ih =>
    rw [cons_append, cons_append, balancedFrom_backslash (fun none => top none ▸ starts), balancedFrom, ih top]
    simp only [length_cons]
    congr 1
    omega
  | backslash starts =>
    rw [cons_append, balancedFrom_backslash (fun none => top none ▸ starts)]
    cases opened with
    | nil | cons => rfl
  | pair starts closes inside others within ih =>
    obtain ⟨-, -, -, opens⟩ := close_plain closes
    rw [cons_append, append_assoc, balancedFrom_open (fun none => top none ▸ starts) opens, cons_append,
      within fun none => absurd none (cons_ne_nil _ _), balancedFrom_close closes, ih top]
    simp only [length_cons, length_append]
    congr 1
    omega
  | single starts isSingle others ih =>
    rw [cons_append, balancedFrom_single (fun none => top none ▸ starts) isSingle, ih top, length_cons]
    congr 1
    omega

lemma balancedLength_within (within : Within breaks opened before rest) :
    balancedLength breaks (before ++ rest) = balancedFrom breaks opened 0 before.length rest := by
  induction within with
  | top items =>
    simp [balancedFrom_items items fun _ => rfl]
  | inside outer opens starts items ih =>
    rw [append_assoc, cons_append, ih, balancedFrom_open starts opens,
      balancedFrom_items items fun none => absurd none (cons_ne_nil _ _), length_append,
      length_cons]
    congr 1
    omega

lemma balancedLength_accepts (accepts : Accepts breaks text whole) :
    balancedLength breaks whole = .ok text.length := by
  obtain ⟨rest, rfl, items, ends⟩ := accepts
  rw [balancedLength_within (.top items)]
  cases rest with
  | nil => rfl
  | cons c more =>
    have isBreak : c ∈ breaks := ends c rfl
    simp [isBreak]

lemma balancedLength_unbalanced
    (unbalanced : Unbalanced breaks text imbalance) : balancedLength breaks text = .error imbalance := by
  cases unbalanced with
  | stray read closes starts other =>
    rw [balancedLength_within read, balancedFrom_stray starts closes other]
  | unclosed read =>
    have scanned := balancedLength_within read
    rw [append_nil] at scanned
    rw [scanned]
    rfl
  | @unterminated opened before rest quote read isQuote starts unclosed =>
    have missing : quotedBody quote rest = none := by
      rw [Option.eq_none_iff_forall_ne_some]
      rintro ⟨value, length⟩ found
      obtain ⟨body, tail, split, quoted, -⟩ := quoted_of_quotedBody (quote_plain isQuote) found
      exact unclosed body tail split quoted
    rw [balancedLength_within read, balancedFrom, if_neg (no_break starts), if_pos isQuote, missing]

end Scan

lemma Items.append (items : Items breaks text (more ++ rest))
    (others : Items breaks more rest) : Items breaks (text ++ more) rest := by
  generalize follows : more ++ rest = behind at items
  induction items with
  | nil => exact others
  | string starts isQuote quoted _ ih =>
    rw [cons_append, append_assoc]
    exact .string starts isQuote quoted (ih others follows)
  | escape starts c _ ih => exact .escape starts c (ih others follows)
  | backslash starts =>
    obtain ⟨rfl, rfl⟩ := append_eq_nil_iff.1 follows
    exact .backslash starts
  | pair starts closes inside _ _ ih =>
    subst follows
    rw [cons_append, append_assoc, cons_append]
    refine .pair starts closes ?_ (ih others rfl)
    rwa [append_assoc]
  | single starts isSingle _ ih => exact .single starts isSingle (ih others follows)

/-- Items stay items when the text behind them changes, unless a backslash at their end would take in
what comes then. -/
theorem Items.behind {rest'} (items : Items breaks text rest)
    (escape : rest = [] → text.getLast? = some '\\' → rest' = []) : Items breaks text rest' := by
  have front : ∀ {before more : List Char}, more.getLast? = some '\\' →
      (before ++ more).getLast? = some '\\' := fun last => by rw [getLast?_append, last]; rfl
  induction items generalizing rest' with
  | nil => exact .nil
  | @string breaks rest body more quote starts isQuote quoted _ ih =>
    refine .string starts isQuote quoted (ih fun nothing last => escape nothing ?_)
    exact @front (quote :: body) more last
  | @escape breaks rest more starts c _ ih =>
    exact .escape starts c (ih fun nothing last => escape nothing (@front ['\\', c] more last))
  | backslash starts =>
    rw [escape rfl rfl]
    exact .backslash starts
  | @pair breaks rest inner more bracket close starts closes _ _ within ih =>
    refine .pair starts closes (within fun nothing => absurd nothing (cons_ne_nil _ _)) ?_
    refine ih fun nothing last => escape nothing ?_
    have last := @front (bracket :: (inner ++ [close])) more last
    simpa using last
  | @single breaks rest more c starts isSingle _ ih =>
    exact .single starts isSingle (ih fun nothing last => escape nothing (@front [c] more last))

lemma Items.string_first (items : Items breaks (quote :: more) rest) (isQuote : isQuote quote) :
    ∃ body others, more = body ++ others ∧ Quoted quote body ∧ Items breaks others rest := by
  cases items with
  | string _ _ quoted others => exact ⟨_, _, rfl, quoted, others⟩
  | escape | backslash => cases isQuote
  | pair _ closes => exact absurd isQuote (by simp [bracket_plain (close_plain closes).2.2.2])
  | single _ single => exact absurd isQuote (by simp [single_plain single])

lemma Within.append (within : Within breaks opened before (more ++ rest))
    (top : opened = [] → around = breaks) (inner : opened ≠ [] → around = [])
    (items : Items around more rest) : Within breaks opened (before ++ more) rest := by
  cases within with
  | top read =>
    rw [top rfl] at items
    exact .top (read.append items)
  | inside outer opens starts read =>
    rw [inner (cons_ne_nil _ _)] at items
    rw [append_assoc, cons_append]
    refine .inside ?_ opens starts (read.append items)
    rwa [append_assoc]

/-- The breaks that count where brackets are open: none inside of any. -/
def breaksWithin (breaks : List Char) (opened : List (Char × Nat)) : List Char :=
  if opened.isEmpty then breaks else []

lemma not_mem_breaksWithin (starts : opened = [] → c ∉ breaks) : c ∉ breaksWithin breaks opened := by
  unfold breaksWithin
  split
  · rename_i top
    exact starts (isEmpty_iff.1 top)
  · exact not_mem_nil

lemma Within.item (within : Within breaks opened before (more ++ rest))
    (items : Items (breaksWithin breaks opened) more rest) : Within breaks opened (before ++ more) rest := by
  refine within.append ?_ ?_ items
  · rintro rfl
    rfl
  · intro some
    rw [breaksWithin, isEmpty_eq_false_iff.2 some]
    rfl

lemma balanced_or_not (within : Within breaks opened before rest) : (∃ text, Accepts breaks text (before ++ rest)) ∨
      ∃ imbalance, Unbalanced breaks (before ++ rest) imbalance := by
  induction length : rest.length using Nat.strongRecOn generalizing opened before rest with
  | ind length ih =>
    subst length
    -- one more item is read, and what follows it is shorter
    have further : ∀ item tail, rest = item ++ tail → item ≠ [] → Items (breaksWithin breaks opened) item tail →
        (∃ text, Accepts breaks text (before ++ rest)) ∨
          ∃ imbalance, Unbalanced breaks (before ++ rest) imbalance := by
      intro item tail split some items
      subst split
      have shorter : tail.length < (item ++ tail).length := by
        have positive := length_pos_iff.2 some
        rw [length_append]
        omega
      rw [← append_assoc]
      exact ih _ shorter (within.item items) rfl
    cases rest with
    | nil =>
      rw [append_nil]
      cases opened with
      | nil =>
        cases within with
        | top items => exact .inl ⟨before, [], (append_nil _).symm, items, by simp⟩
      | cons innermost outer => exact .inr ⟨_, .unclosed within⟩
    | cons c rest =>
      by_cases starts : opened = [] → c ∉ breaks
      · have inside := not_mem_breaksWithin starts
        cases isQuote : isQuote c with
        | true =>
          cases found : quotedBody c rest with
          | none =>
            refine .inr ⟨_, .unterminated within isQuote starts ?_⟩
            rintro body tail rfl quoted
            obtain ⟨value, closed⟩ := quotedBody_quoted quoted (quote_plain isQuote)
            rw [closed] at found
            cases found
          | some read =>
            obtain ⟨body, tail, rfl, quoted, -⟩ := quoted_of_quotedBody (quote_plain isQuote) found
            refine further _ tail (cons_append ..).symm (cons_ne_nil _ _) ?_
            rw [← append_nil body]
            exact .string inside isQuote quoted .nil
        | false =>
          by_cases escapes : c = '\\'
          · subst escapes
            cases rest with
            | nil => exact further _ [] (append_nil _).symm (cons_ne_nil _ _) (.backslash inside)
            | cons d tail =>
              exact further ['\\', d] tail rfl (cons_ne_nil _ _) (.escape inside d .nil)
          · cases opens : isOpening c with
            | true =>
              have opened := @Within.inside _ _ _ [] _ _ within opens starts .nil
              have shorter : rest.length < (c :: rest).length := Nat.lt_succ_self _
              have outcome := ih _ shorter opened rfl
              rwa [append_assoc] at outcome
            | false =>
              cases closes : opening? c with
              | none =>
                have isSingle : isSingle c := by
                  simp [isSingle, isQuote, escapes, opens, closes]
                exact further [c] rest rfl (cons_ne_nil _ _) (.single inside isSingle .nil)
              | some bracket =>
                by_cases other : opened.head?.map Prod.fst = some bracket
                · cases within with
                  | top items => cases other
                  | @inside outer front inner _ innermost around opens begun items =>
                    cases other
                    have closed : Items (breaksWithin breaks outer) (innermost :: (inner ++ [c])) rest :=
                      .pair (not_mem_breaksWithin begun) closes items .nil
                    have shorter : rest.length < (c :: rest).length := Nat.lt_succ_self _
                    have paired : Within breaks outer (front ++ innermost :: (inner ++ [c])) rest := by
                      refine Within.item ?_ closed
                      simpa using around
                    have outcome := ih _ shorter paired rfl
                    simpa using outcome
                · exact .inr ⟨_, .stray within closes starts other⟩
      · simp only [Classical.not_imp, not_not] at starts
        obtain ⟨rfl, isBreak⟩ := starts
        cases within with
        | top items =>
          refine .inl ⟨before, c :: rest, rfl, items, ?_⟩
          rintro _ ⟨⟩
          exact isBreak

lemma accepts_or_unbalanced (breaks whole) :
    (∃ text, Accepts breaks text whole) ∨ ∃ imbalance, Unbalanced breaks whole imbalance :=
  balanced_or_not (.top (@Items.nil breaks whole))

lemma balancedLength_ok_iff {length} :
    balancedLength breaks whole = .ok length ↔ ∃ text, Accepts breaks text whole ∧ text.length = length := by
  constructor
  · intro ok
    rcases accepts_or_unbalanced breaks whole with ⟨text, accepts⟩ | ⟨imbalance, unbalanced⟩
    · rw [balancedLength_accepts accepts] at ok
      exact ⟨text, accepts, Except.ok.inj ok⟩
    · rw [balancedLength_unbalanced unbalanced] at ok
      cases ok
  · rintro ⟨text, accepts, rfl⟩
    exact balancedLength_accepts accepts

lemma balancedLength_error_iff :
    balancedLength breaks whole = .error imbalance ↔ Unbalanced breaks whole imbalance := by
  refine ⟨fun ok => ?_, balancedLength_unbalanced⟩
  rcases accepts_or_unbalanced breaks whole with ⟨text, accepts⟩ | ⟨other, unbalanced⟩
  · rw [balancedLength_accepts accepts] at ok
    cases ok
  · rw [balancedLength_unbalanced unbalanced] at ok
    cases ok
    exact unbalanced

lemma Accepts.take_length (accepts : Accepts breaks text whole) : whole.take text.length = text := by
  obtain ⟨rest, rfl, -⟩ := accepts
  exact take_left

lemma balancedLength_append {length} (balanced : balancedLength breaks whole = .ok length)
    (stopped : length < whole.length) (more) :
    balancedLength breaks (whole ++ more) = .ok length := by
  obtain ⟨text, ⟨rest, rfl, items, ends⟩, rfl⟩ := balancedLength_ok_iff.1 balanced
  cases rest with
  | nil => simp at stopped
  | cons c rest =>
    rw [append_assoc]
    exact balancedLength_accepts ⟨_, rfl, items.behind nofun, ends⟩

lemma Accepts.unique (accepts : Accepts breaks text whole)
    (accepted : Accepts breaks other whole) : text = other := by
  have same := (balancedLength_accepts accepts).symm.trans (balancedLength_accepts accepted)
  rw [← accepts.take_length, ← accepted.take_length, Except.ok.inj same]

/-- The failure over an imbalance of the text at the cursor: where it is reported and where reading
stops. -/
def Imbalance.failure (cursor : Cursor) : Imbalance → ReadFailure
  | .stray bracket index => ⟨.unbalanced bracket (cursor.skip index).position, cursor.skip index⟩
  | .unclosed bracket index =>
    ⟨.unbalanced bracket (cursor.skip index).position, cursor.skip cursor.remaining⟩
  | .unterminated index => ⟨.unterminated (cursor.skip index).position, cursor.skip cursor.remaining⟩

lemma readExpression_eq (cursor : Cursor) (breaks) :
    cursor.readExpression breaks = match balancedLength breaks cursor.rest with
      | .ok length => .ok (cursor.read length)
      | .error imbalance => .error (imbalance.failure cursor) := by
  unfold readExpression
  split
  · rename_i length found
    rw [found]
  all_goals
    rename_i found
    rw [found]
    rfl

lemma readExpression_ok_iff {cursor later : Cursor} : cursor.readExpression breaks = .ok (text, later) ↔
    Accepts breaks text cursor.rest ∧ later = cursor.skip text.length := by
  rw [readExpression_eq]
  constructor
  · intro ok
    split at ok
    · rename_i length found
      obtain ⟨front, accepts, rfl⟩ := balancedLength_ok_iff.1 found
      cases ok
      rw [accepts.take_length]
      exact ⟨accepts, rfl⟩
    · cases ok
  · rintro ⟨accepts, rfl⟩
    rw [balancedLength_accepts accepts]
    dsimp only
    rw [read, accepts.take_length]

lemma readExpression_progress {cursor later : Cursor} (first : cursor.peek = some c)
    (noBreak : breaks.contains c = false) (ok : cursor.readExpression breaks = .ok (text, later)) :
    later.remaining < cursor.remaining := by
  obtain ⟨⟨rest, split, items, ends⟩, rfl⟩ := readExpression_ok_iff.1 ok
  cases text with
  | nil =>
    change cursor.rest.head? = some c at first
    rw [split] at first
    have isBreak := contains_iff_mem.2 (ends c first)
    rw [noBreak] at isBreak
    cases isBreak
  | cons d more =>
    rw [remaining_skip, remaining, split, length_append, length_cons]
    omega

lemma readString_covered {cursor later stringEnd : Cursor} {value}
    (string : cursor.readString = .ok (some value, stringEnd))
    (noBreak : ∀ quote, isQuote quote → breaks.contains quote = false)
    (expression : cursor.readExpression breaks = .ok (text, later)) :
    later.remaining ≤ stringEnd.remaining := by
  obtain ⟨⟨rest, split, items, ends⟩, rfl⟩ := readExpression_ok_iff.1 expression
  unfold readString at string
  split at string
  · rename_i quote inner whole
    rw [whole] at split
    split at string
    · rename_i isQuoted
      cases text with
      | nil =>
        have isBreak := contains_iff_mem.2 (ends quote (congrArg head? split).symm)
        rw [noBreak quote isQuoted] at isBreak
        cases isBreak
      | cons c more =>
        rw [cons_append] at split
        obtain ⟨rfl, rfl⟩ := cons.inj split
        obtain ⟨body, others, rfl, quoted, -⟩ := items.string_first isQuoted
        obtain ⟨found, closed⟩ := quotedBody_quoted quoted (quote_plain isQuoted)
        rw [append_assoc, closed] at string
        cases string
        rw [remaining_skip, remaining_skip, length_cons, length_append]
        omega
    · cases string
  · cases string

/-- Reading an expression accepts exactly the front of a text that is a sequence of items up to a break
or to the end, which is unique, and ends behind it. Otherwise it fails, at a quote that is never closed,
at the first closing bracket that does not match the innermost open one, or at the innermost bracket
that is open at the end of the text. -/
theorem expressions_are_balanced (cursor : Cursor) (breaks : List Char) :
    (∀ text later, cursor.readExpression breaks = .ok (text, later) ↔
      Accepts breaks text cursor.rest ∧ later = cursor.skip text.length) ∧
    (∀ text other, Accepts breaks text cursor.rest → Accepts breaks other cursor.rest → text = other) ∧
    ∀ failure, cursor.readExpression breaks = .error failure ↔
      ∃ imbalance, Unbalanced breaks cursor.rest imbalance ∧ failure = imbalance.failure cursor := by
  refine ⟨fun _ _ => readExpression_ok_iff, fun _ _ => Accepts.unique, fun failure => ?_⟩
  rw [readExpression_eq]
  refine ⟨fun result => ?_, ?_⟩
  · split at result
    · cases result
    · rename_i imbalance found
      cases result
      exact ⟨imbalance, balancedLength_error_iff.1 found, rfl⟩
  · rintro ⟨imbalance, unbalanced, rfl⟩
    rw [balancedLength_unbalanced unbalanced]

/-- A break inside of brackets or strings does not end an expression, and brackets may not cross. -/
theorem nested_call_is_read :
    Accepts [','] "f($a, 'x,y')".toList "f($a, 'x,y'), $b".toList ∧
      ∃ imbalance, Unbalanced [','] "f($a[0)".toList imbalance ∧
        (⟨.unbalanced ')' ⟨1, 6⟩, ⟨[')'], ⟨1, 6⟩⟩⟩ : ReadFailure) =
          imbalance.failure (ofText "f($a[0)") := by
  have accepted := expressions_are_balanced (ofText "f($a, 'x,y'), $b") [',']
  have crossed := expressions_are_balanced (ofText "f($a[0)") [',']
  exact ⟨((accepted.1 _ ⟨", $b".toList, ⟨1, 12⟩⟩).1 (by decide +kernel)).1,
    (crossed.2.2 _).1 (by decide +kernel)⟩

end PugTemplate.Cursor
