import PugTemplate.Proofs.Parsing

/-!
# What tokens do to the nodes of a document

A token makes the next node of the store or none. The nodes before it stay where they are, except
that an element may be closed. So the node of a token is known by the number of tokens before it
that make one.
-/

namespace PugTemplate

namespace NodeKind

/-- The kind of a node as the first token of its segment makes it. -/
def unclosed : NodeKind → NodeKind
  | element tag _ => element tag false
  | kind => kind

lemma acceptsAttributes_unclosed (kind : NodeKind) : kind.unclosed.acceptsAttributes = kind.acceptsAttributes := by
  cases kind with
  | _ => rfl

end NodeKind

namespace TokenKind

/-- The node that a token makes. -/
def node? : TokenKind → Option NodeKind
  | tag name => some (.element name false)
  | statement line => some (.statement line)
  | text value => some (.text value false)
  | expression echo => some (.expression echo)
  | classShorthand name => some (.attr ⟨some "class", some name, true, true⟩)
  | idShorthand name => some (.attr ⟨some "id", some name, true, true⟩)
  | attr entry => some (.attr entry)
  | assignment name => some (.assignment name)
  | _ => none

lemma node?_unclosed {kind : TokenKind} {made} (makes : kind.node? = some made) : made.unclosed = made := by
  cases kind <;> cases makes <;> rfl

end TokenKind

namespace Token

def created (tokens : List Token) : Nat :=
  tokens.countP fun token => token.kind.node?.isSome

lemma created_append (first second) : created (first ++ second) = created first + created second :=
  List.countP_append

lemma created_cons : created (token :: more) = created [token] + created more := created_append [token] more

end Token

variable {before : Document} {pos : Position}

namespace Document

/-- The nodes of a document stay where they are, and may at most be closed. -/
structure Keeps (before after : Document) : Prop where
  size_le : before.size ≤ after.size
  kind : ∀ id : Nat, id < before.size → (after.kind id).unclosed = (before.kind id).unclosed
  parent : ∀ id : Nat, id < before.size → after.parent id = before.parent id
  outer : ∀ id : Nat, id < before.size → (after.node id).outer = (before.node id).outer
  position : ∀ id : Nat, id < before.size → after.position id = before.position id

variable {doc : Document} {owner : Nat}

namespace Keeps

lemma refl (doc) : Keeps doc doc := ⟨Nat.le_refl _, fun _ _ => rfl, fun _ _ => rfl, fun _ _ => rfl, fun _ _ => rfl⟩

lemma trans (early : Keeps first second) (late : Keeps second third) : Keeps first third := by
  have larger : ∀ {id : Nat}, id < first.size → id < second.size := fun inside =>
    Nat.lt_of_lt_of_le inside early.size_le
  refine ⟨Nat.le_trans early.size_le late.size_le, ?_, ?_, ?_, ?_⟩
  · exact fun id inside => (late.kind id (larger inside)).trans (early.kind id inside)
  · exact fun id inside => (late.parent id (larger inside)).trans (early.parent id inside)
  · exact fun id inside => (late.outer id (larger inside)).trans (early.outer id inside)
  · exact fun id inside => (late.position id (larger inside)).trans (early.position id inside)

lemma of_closing {id}
    (isElement : doc.kind id = .element tag closed) : Keeps doc (doc.close id tag) := by
  have same := doc.node_modify_kind id (.element tag true)
  refine ⟨Nat.le_of_eq (size_modify _ _ _).symm,
    fun other _ => kind_close_test isElement NodeKind.unclosed rfl other, ?_, ?_, ?_⟩
  · intro other _
    rw [Document.parent, close, same]
    rfl
  · intro other _
    rw [close, same]
  · intro other _
    rw [Document.position, close, same]
    rfl

end Keeps

/-- A document with one node more, which is as a token makes it. -/
structure Adds (before after : Document) (kind : NodeKind) (position : Position) : Prop where
  keeps : Keeps before after
  size : after.size = before.size + 1
  kind : after.kind before.size = kind
  position : after.position before.size = position

lemma Gains.adds (gains : Gains before after owner made pos outer) : Adds before after made pos := by
  refine ⟨⟨?_, ?_, ?_, ?_, ?_⟩, gains.size, ?_, ?_⟩
  · rw [gains.size]
    exact Nat.le_succ _
  · intro id inside
    rw [gains.kind, if_neg (Nat.ne_of_lt inside)]
  · intro id inside
    rw [gains.parent, if_neg (Nat.ne_of_lt inside)]
  · intro id inside
    rw [gains.outer_eq, if_neg (Nat.ne_of_lt inside)]
  · intro id inside
    rw [gains.position_eq, if_neg (Nat.ne_of_lt inside)]
  · rw [gains.kind, if_pos rfl]
  · rw [gains.position_eq, if_pos rfl]

end Document

namespace Builder

open Document

variable {builder after : Builder} {token : Token}

/-- A line is opened by a new node below the current one. Behind a colon the new node names the current
one as its outer node. -/
theorem Opens.fresh (opens : builder.Opens after made pos)
    (noLine : builder.lineNode = none) : ∃ doc, after = { builder with
        document := doc
        lineNode := some builder.document.size
        last := some builder.document.size } ∧
      Gains builder.document doc builder.current made pos
        (if builder.expansions > 0 then some builder.current else none) := by
  obtain ⟨doc, gains, same⟩ := opens
  simp only [noLine, Option.isNone_none, Bool.and_true, decide_eq_true_eq] at gains
  exact ⟨doc, same, gains⟩

/-- What a token does to the nodes: it makes one, or none. -/
def Grows (before after : Document) (token : Token) : Prop :=
  match token.kind.node? with
  | none => Keeps before after ∧ after.size = before.size
  | some kind => Adds before after kind token.position

lemma Grows.of_same (makesNone : token.kind.node? = none) : Grows before before token := by
  unfold Grows
  rw [makesNone]
  exact ⟨.refl before, rfl⟩

lemma Extends.adds {owner? : Option Nat} (extended : builder.Extends after owner? made pos) :
    Adds builder.document after.document made pos := by
  obtain ⟨owner, outer, doc, -, gains, rfl⟩ := extended
  exact gains.adds

lemma Opens.adds (opens : builder.Opens after made pos) : Adds builder.document after.document made pos := by
  obtain ⟨doc, gains, rfl⟩ := opens
  exact gains.adds

lemma Takes.grows (takes : builder.Takes after indentFollows token.position token.kind) :
    Grows builder.document after.document token := by
  obtain ⟨kind, pos⟩ := token
  cases kind with
  | indent =>
    obtain ⟨target, -, -, rfl⟩ := takes
    exact .of_same rfl
  | outdent =>
    obtain ⟨climb, frames, node, -, -, rfl⟩ := takes
    exact .of_same rfl
  | newLine =>
    obtain ⟨node, -, rfl⟩ := takes
    exact .of_same rfl
  | attributeStart =>
    obtain ⟨owner, -, rfl⟩ := takes
    exact .of_same rfl
  | attributeEnd =>
    cases takes
    exact .of_same rfl
  | assignment name =>
    obtain ⟨next, extended, rfl⟩ := takes
    exact extended.adds
  | selfClosing =>
    obtain ⟨target, tag, closed, -, isElement, rfl⟩ := takes
    exact ⟨.of_closing isElement, size_modify _ _ _⟩
  | expansion =>
    obtain ⟨head, -, rfl⟩ := takes
    exact .of_same rfl
  | text value | expression echo => exact takes.elim (fun opened => opened.2.adds) Extends.adds
  | tag name | statement line => exact Opens.adds takes
  | classShorthand name | idShorthand name | attr entry => exact Extends.adds takes

lemma step_grows (sound : builder.Sound)
    (ok : builder.step token indentFollows = .ok after) : Grows builder.document after.document token :=
  (step_takes sound ok).grows

lemma Grows.keeps {after} (grows : Grows before after token) : Keeps before after := by
  unfold Grows at grows
  split at grows
  · exact grows.1
  · exact grows.keeps

lemma Grows.size {after} (grows : Grows before after token) : after.size = before.size + Token.created [token] := by
  unfold Grows at grows
  split at grows
  · rename_i makesNone
    simp [Token.created, makesNone, grows.2]
  · rename_i kind makes
    simp [Token.created, makes, grows.size]

/-- What tokens do to the nodes: each that makes a node makes the next one of the store. -/
structure Made (before after : Document) (tokens : List Token) : Prop where
  keeps : Keeps before after
  size : after.size = before.size + Token.created tokens
  nodes : ∀ (front back : List Token) (token : Token), tokens = front ++ token :: back →
    ∀ kind ∈ token.kind.node?, (after.kind (before.size + Token.created front)).unclosed = kind ∧
        after.position (before.size + Token.created front) = token.position

lemma Made.cons {middle after more}
    (grows : Grows before middle token) (made : Made middle after more) :
    Made before after (token :: more) := by
  refine ⟨grows.keeps.trans made.keeps, ?_, ?_⟩
  · rw [made.size, grows.size, Nat.add_assoc, ← Token.created_cons]
  · intro front back other split kind makes
    -- the first token makes the first new node, which all later tokens keep
    cases front with
    | nil =>
      simp only [List.nil_append, List.cons.injEq] at split
      rw [← split.1] at makes ⊢
      have makesSome : token.kind.node? = some kind := makes
      unfold Grows at grows
      rw [makesSome] at grows
      have inside : before.size < middle.size := by
        rw [grows.size]
        exact Nat.lt_succ_self _
      simp only [Token.created, List.countP_nil, Nat.add_zero]
      rw [made.keeps.kind _ inside, made.keeps.position _ inside, grows.kind, grows.position]
      exact ⟨TokenKind.node?_unclosed makesSome, rfl⟩
    | cons first rest =>
      simp only [List.cons_append, List.cons.injEq] at split
      have later := made.nodes rest back other split.2 kind makes
      rw [grows.size, Nat.add_assoc, split.1, ← Token.created_cons] at later
      exact later

lemma run_made (sound : builder.Sound)
    (ok : builder.run tokens = .ok after) : Made builder.document after.document tokens := by
  induction tokens generalizing builder with
  | nil =>
    cases ok
    refine ⟨.refl _, rfl, ?_⟩
    intro front back token split
    simp at split
  | cons token more ih =>
    obtain ⟨next, taken, further⟩ := run_cons ok
    exact .cons (step_grows sound taken) (ih (step_sound sound taken) further)

lemma step_lookahead (builder : Builder) (inside : token.kind ≠ .newLine) (first second) :
    builder.step token first = builder.step token second := by
  obtain ⟨kind, pos⟩ := token
  cases kind with
  | newLine => exact absurd rfl inside
  | _ => rfl

lemma run_append (builder : Builder) (back) (inside : ∀ token ∈ front, token.kind ≠ .newLine) :
    builder.run (front ++ back) = (builder.run front).bind fun next => next.run back := by
  induction front generalizing builder with
  | nil => rfl
  | cons token more ih =>
    have first := builder.step_lookahead (inside token (by simp))
      ((more ++ back).head?.any isIndent) (more.head?.any isIndent)
    simp only [List.cons_append, run]
    rw [first]
    cases builder.step token (more.head?.any isIndent) with
    | error diag => rfl
    | ok next =>
      apply ih
      intro other mem
      exact inside other (by simp [mem])

/-- Tokens that do not begin with an indent may be run on their own. -/
theorem run_append_level (builder : Builder) (front) (level : back.head?.any isIndent = false) :
    builder.run (front ++ back) = (builder.run front).bind fun next => next.run back := by
  induction front generalizing builder with
  | nil => rfl
  | cons token more ih =>
    have follows : (more ++ back).head?.any isIndent = more.head?.any isIndent := by
      cases more with
      | nil => exact level
      | cons next rest => rfl
    simp only [List.cons_append, run]
    rw [follows]
    cases builder.step token (more.head?.any isIndent) with
    | error diag => rfl
    | ok next => exact ih next

end Builder

end PugTemplate
