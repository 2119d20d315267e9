import PugTemplate.Proofs.Coherence
import PugTemplate.Proofs.Layout
import PugTemplate.Proofs.Redaction

/-!
# Formatting and success

Filters and the emitter ask whether lines are laid out. Runs that differ in this option load documents
that are the same but for verbatim texts. The emitter then treats them alike, except that texts which
are laid out have to close their interpolations line by line.
-/

namespace PugTemplate

open Text List

namespace Text

lemma splitOnce_isSome (word text) : (splitOnce word text).isSome ↔ word <:+: text := by
  induction text with
  | nil => cases word <;> simp [splitOnce]
  | cons c rest ih =>
    rw [splitOnce, infix_cons_iff]
    split
    · rename_i here
      simp [ isPrefixOf_iff_prefix.1 here]
    · rename_i elsewhere
      rw [Option.isSome_map, ih]
      simp [mt isPrefixOf_iff_prefix.2 elsewhere]

section Apart

variable {word : List Char} {c : Char} (absent : c ∉ word)

include absent

lemma infix_behind (nonempty : word ≠ []) (after) : word <:+: c :: after ↔ word <:+: after := by
  rw [infix_cons_iff]
  refine or_iff_right fun here => ?_
  rcases prefix_cons_iff.1 here with none | ⟨rest, split, -⟩
  · exact nonempty none
  · exact absent (by simp [split])

lemma infix_apart (nonempty : word ≠ []) (before after) :
    word <:+: before ++ c :: after ↔ word <:+: before ∨ word <:+: after := by
  rw [infix_append_iff, infix_behind absent nonempty]
  constructor
  · rintro (inBefore | inAfter | ⟨first, second, split, ending, start⟩)
    · exact .inl inBefore
    · exact .inr inAfter
    · rcases prefix_cons_iff.1 start with none | ⟨rest, further, -⟩
      · rw [split, none, append_nil]
        exact .inl ending.isInfix
      · exact absurd (by simp [split, further]) absent
  · rintro (inBefore | inAfter)
    · exact .inl inBefore
    · exact .inr (.inl inAfter)

end Apart

lemma mentionsAttributes_iff : mentionsAttributes text ↔ "$attributes".toList <:+: text.toList :=
  splitOnce_isSome _ _

lemma mentionsAttributes_broken (before text after) :
    mentionsAttributes (before ++ ">" ++ "\n" ++ text ++ "\n" ++ ("</" ++ after)) =
      mentionsAttributes (before ++ ">" ++ "" ++ text ++ "" ++ ("</" ++ after)) := by
  have laid : (before ++ ">" ++ "\n" ++ text ++ "\n" ++ ("</" ++ after)).toList =
      before.toList ++ '>' :: '\n' :: (text.toList ++ '\n' :: '<' :: '/' :: after.toList) := by
    simp
  have compact : (before ++ ">" ++ "" ++ text ++ "" ++ ("</" ++ after)).toList =
      before.toList ++ '>' :: (text.toList ++ '<' :: '/' :: after.toList) := by
    simp
  have nonempty : "$attributes".toList ≠ [] := by decide
  have tagEnd : '>' ∉ "$attributes".toList := by decide
  have lineEnd : '\n' ∉ "$attributes".toList := by decide
  have tagStart : '<' ∉ "$attributes".toList := by decide
  rw [Bool.eq_iff_iff, mentionsAttributes_iff, mentionsAttributes_iff, laid, compact]
  rw [infix_apart tagEnd nonempty,
    infix_apart tagEnd nonempty, infix_behind lineEnd nonempty, infix_apart lineEnd nonempty,
    infix_apart tagStart nonempty, infix_behind tagStart nonempty]

end Text

lemma Filter.mentionsAttributes_pretty {filter} (known : filter ∈ Filters.standard.map Prod.snd)
    (text dialect path options) : mentionsAttributes (filter text ⟨dialect, true, path⟩ options) =
      mentionsAttributes (filter text ⟨dialect, false, path⟩ options) := by
  have elements : ∀ tag type : String, mentionsAttributes (element tag type text ⟨dialect, true, path⟩ options) =
        mentionsAttributes (element tag type text ⟨dialect, false, path⟩ options) := by
    intro tag type
    exact mentionsAttributes_broken _ text (tag ++ ">")
  simp only [Filters.standard, map_cons, map_nil, mem_cons, not_mem_nil, or_false] at known
  rcases known with rfl | rfl | rfl | rfl | rfl | rfl
  · rfl
  · rfl
  · exact elements _ _
  · exact elements _ _
  · rfl
  · rfl

lemma NodeKind.of_redact {kind' : NodeKind} (same : kind.redact = kind'.redact) :
    kind = kind' ∨ ∃ value value', kind = .text value true ∧ kind' = .text value' true := by
  rcases kind.redact_cases with kept | ⟨value, struck, was, is⟩
  · rcases kind'.redact_cases with kept' | ⟨value', struck', was', is'⟩
    · exact .inl (kept.symm.trans (same.trans kept'))
    · rw [kept, is'] at same
      exact .inr ⟨struck', value', same, was'⟩
  · rcases kind'.redact_cases with kept' | ⟨value', struck', was', is'⟩
    · rw [is, kept'] at same
      exact .inr ⟨value, struck, was, same.symm⟩
    · exact .inr ⟨value, value', was, was'⟩

namespace Document

/-- Documents that differ at most in verbatim texts, and not in whether these mention the attributes
of a mixin. -/
def Kindred (doc doc' : Document) : Prop :=
  doc.redact = doc'.redact

namespace Kindred

variable {doc doc' : Document} (kindred : doc.Kindred doc')

include kindred

lemma view {β : Type} (view : Document → β)
    (kept : ∀ doc, view doc.redact = view doc) : view doc = view doc' :=
  (kept doc).symm.trans ((congrArg view kindred).trans (kept doc'))

lemma kind (id) : doc.kind id = doc'.kind id ∨ ∃ value value',
    doc.kind id = .text value true ∧ doc'.kind id = .text value' true := by
  apply NodeKind.of_redact
  rw [← kind_redact, ← kind_redact, kindred]

lemma position (id) : doc.position id = doc'.position id :=
  kindred.view (·.position id) fun seen => seen.position_redact id

lemma attributes (id) : doc.attributes id = doc'.attributes id :=
  kindred.view (·.attributes id) fun seen => seen.attributes_redact id

lemma children (id) : doc.children id = doc'.children id :=
  kindred.view (·.children id) fun seen => seen.children_redact id

lemma attribute_kind {id} (isAttribute : (doc.kind id).isAttribute) : doc.kind id = doc'.kind id := by
  rcases kindred.kind id with same | ⟨value, value', was, is⟩
  · exact same
  · rw [was] at isAttribute
    cases isAttribute

lemma dialect? : doc.dialect? = doc'.dialect? := by
  unfold Document.dialect?
  rw [kindred.view (·.descendants root) fun seen => seen.descendants_redact root]
  congr 1
  funext id
  rcases kindred.kind id with same | ⟨value, value', was, is⟩
  · rw [same]
  · rw [was, is]

lemma replace_text {content'}
    (mentioned : mentionsAttributes content = mentionsAttributes content') (pos)
    (id) : ((doc.create (.text content true) pos).1.replace id
        [(doc.create (.text content true) pos).2]).Kindred
      ((doc'.create (.text content' true) pos).1.replace id
        [(doc'.create (.text content' true) pos).2]) := by
  have kinds : NodeKind.redact (.text content true) = NodeKind.redact (.text content' true) := by
    rw [NodeKind.redact, NodeKind.redact, mentioned]
  have created := doc.create_redact (.text content true) pos
  have created' := doc'.create_redact (.text content' true) pos
  rw [kindred, kinds, created', Prod.mk.injEq] at created
  rw [Kindred, ← replace_redact, ← replace_redact, created.1, created.2]

lemma replace_template {included'} (alike : included.Kindred included') (id) :
    ((doc.graftChildren included root).1.replace id (doc.graftChildren included root).2).Kindred
      ((doc'.graftChildren included' root).1.replace id (doc'.graftChildren included' root).2) := by
  have grafted := doc.graftChildren_redact included root
  rw [kindred, alike, graftChildren_redact, Prod.mk.injEq] at grafted
  rw [Kindred, ← replace_redact, ← replace_redact, grafted.1, grafted.2]

lemma extend {layout layout' : Document} (alike : layout.Kindred layout') :
    (layout.extend doc).Kindred (layout'.extend doc') := by
  rw [Kindred, ← extend_redact, ← extend_redact, kindred, alike]

lemma expandMixins (limit quote) :
    Parity True Kindred (doc.expandMixins limit quote) (doc'.expandMixins limit quote) := by
  have expanded := doc.expandMixins_redact limit quote
  rw [kindred, expandMixins_redact] at expanded
  generalize doc.expandMixins limit quote = left at expanded ⊢
  generalize doc'.expandMixins limit quote = right at expanded ⊢
  cases left with
  | error failure =>
    cases right with
    | error failure' => exact .error
    | ok result' => cases expanded
  | ok result =>
    cases right with
    | error failure' => cases expanded
    | ok result' => exact .ok (Except.ok.inj expanded).symm

end Kindred

end Document

def Options.withPretty (options : Options) (pretty : Bool) : Options :=
  { options with format := options.format.withPretty pretty }

variable {ε α : Type}

lemma Parity.foldlM {σ σ' : Type} {alike} {step : σ → α → Except ε σ}
    {step' : σ' → α → Except ε σ'} (steps : ∀ state state' item, alike state state' →
      Parity True alike (step state item) (step' state' item)) (items : List α) {state : σ}
    {state' : σ'} (start : alike state state') :
    Parity True alike (items.foldlM step state) (items.foldlM step' state') := by
  induction items generalizing state state' with
  | nil => exact .ok start
  | cons item more ih =>
    exact ((steps state state' item start).bind fun _ _ same => ih same).congr and_self_iff

lemma Parity.after {β γ : Type} {alike} {next : α → Except ε β} {next' : α → Except ε γ} (result)
    (rest : ∀ value, Parity True alike (next value) (next' value)) :
    Parity True alike (result >>= next) (result >>= next') := by
  cases result with
  | error failure => exact .error
  | ok value => exact rest value

lemma Parity.mapError {δ β : Type} {condition} {alike : α → β → Prop} {first : Except ε α}
    {second : Except ε β} (parity : Parity condition alike first second) (change : ε → δ) :
    Parity condition alike (first.mapError change) (second.mapError change) := by
  constructor
  · intro left ok
    obtain ⟨holds, right, result', same⟩ := parity.follows left (ok_of_mapError ok)
    rw [result']
    exact ⟨holds, right, rfl, same⟩
  · intro holds right ok
    obtain ⟨left, result'⟩ := parity.leads holds right (ok_of_mapError ok)
    rw [result']
    exact ⟨left, rfl⟩

namespace Compiler

open Document

variable {options : Options} {disk : Disk}

abbrev formatted (options : Options) (pretty : Bool) : Compiler :=
  .ofOptions (options.withPretty pretty)

lemma filterFile_alike (file name pos) :
    Parity True (fun text text' => mentionsAttributes text = mentionsAttributes text')
      ((formatted options true).filterFile disk file name pos)
      ((formatted options false).filterFile disk file name pos) := by
  refine .after (readFile disk file) fun content => ?_
  dsimp only [formatted, ofOptions]
  cases found : Filters.standard.get? name with
  | none => exact .error
  | some filter =>
    refine .ok (Filter.mentionsAttributes_pretty ?_ _ _ _ _)
    obtain ⟨before, after, split, -⟩ := lookup_eq_some_iff.1 found
    rw [split]
    exact mem_map.2 ⟨(name, filter), by simp, rfl⟩

section Loader

variable {load load' : Loader} (loads : ∀ file pos,
  Parity True Kindred (load file pos) (load' file pos))

include loads

lemma includeFile_alike (origin) {doc'}
    (kindred : doc.Kindred doc') (id) :
    Parity True Kindred ((formatted options true).includeFile disk load origin doc id)
      ((formatted options false).includeFile disk load' origin doc' id) := by
  unfold includeFile
  rw [← kindred.view (·.isAttached id) fun seen => seen.isAttached_redact id, ← kindred.position id]
  rcases kindred.kind id with same | ⟨value, value', was, is⟩
  · rw [← same]
    split
    · rename_i name named _ _
      refine .after _ fun file => ?_
      have filter : (formatted options false).fileFilter? file named =
          (formatted options true).fileFilter? file named := rfl
      rw [filter]
      split
      · exact (filterFile_alike file _ _).map fun content content' mentioned =>
          kindred.replace_text mentioned _ id
      · exact (loads file _).map fun included included' alike => kindred.replace_template alike id
    · exact .ok kindred
  · rw [was, is]
    cases doc.isAttached id with
    | true | false => exact .ok kindred

lemma assemble_alike (source origin) :
    Parity True Kindred ((formatted options true).assemble disk load source origin)
      ((formatted options false).assemble disk load' source origin) := by
  refine .after _ fun doc => ?_
  exact Parity.foldlM (fun state state' id kindred => includeFile_alike loads origin kindred id) _ rfl

lemma extendLayout_alike (origin) {doc'} (kindred : doc.Kindred doc') :
    Parity True Kindred ((formatted options true).extendLayout disk load origin doc)
      ((formatted options false).extendLayout disk load' origin doc') := by
  unfold extendLayout
  rw [← kindred.view (·.importsOf .extending) fun seen => seen.importsOf_redact .extending]
  split
  · exact .ok kindred
  · rename_i id _
    rw [← kindred.position id]
    rcases kindred.kind id with same | ⟨value, value', was, is⟩
    · rw [← same]
      split
      · refine .after _ fun file => ?_
        exact (loads file _).map fun layout layout' alike => kindred.extend alike
      · exact .ok kindred
    · rw [was, is]
      exact .ok kindred
  · exact .error

end Loader

lemma loadWithin_alike (fuel source origin) :
    Parity True Kindred ((formatted options true).loadWithin disk fuel source origin)
      ((formatted options false).loadWithin disk fuel source origin) := by
  induction fuel using Nat.strong_induction_on generalizing source origin with
  | _ fuel ih =>
    have loads : ∀ file pos, Parity True Kindred ((formatted options true).loaderWithin disk fuel file pos)
        ((formatted options false).loaderWithin disk fuel file pos) := by
      intro file pos
      cases fuel with
      | zero => exact .error
      | succ fuel =>
        refine .after (readFile disk file) fun content => ?_
        exact (ih fuel (Nat.lt_succ_self fuel) content (some file)).mapError _
    rw [loadWithin_eq, loadWithin_eq]
    exact ((assemble_alike loads source origin).bind fun _ _ kindred =>
      extendLayout_alike loads origin kindred).congr and_self_iff

/-- Two runs that differ in the layout of lines give documents that differ at most in verbatim texts. -/
theorem document_alike (source) : Parity True Kindred ((formatted options true).document disk source)
    ((formatted options false).document disk source) :=
  ((loadWithin_alike options.maxDepth source none).bind fun _ _ kindred =>
    (kindred.expandMixins _ _).mapError Failure.template).congr and_self_iff

end Compiler

lemma Tree.AllAkin.map {tree tree'} (akin : ∀ id, Akin look (tree id) (tree' id))
    (ids : List Nat) : AllAkin look (ids.map tree) (ids.map tree') := by
  induction ids with
  | nil => exact .nil
  | cons id more ih => exact .cons (akin id) ih

namespace Document

variable {doc doc' : Document} (wf : doc.WellFormed)
  (kindred : doc.Kindred doc')

include wf kindred

lemma Kindred.attribute_tree (bound) {id} (isAttribute : (doc.kind id).isAttribute) :
    treeWithin bound doc id = treeWithin bound doc' id := by
  induction bound generalizing id with
  | zero =>
    rw [treeWithin, treeWithin, kindred.attribute_kind isAttribute, kindred.position]
  | succ bound ih =>
    have below : (doc.attributes id).map (treeWithin bound doc) = (doc.attributes id).map (treeWithin bound doc') :=
      map_congr_left fun inner owned => ih (wf.attribute_kind owned)
    have leaf := wf.leaf isAttribute
    rw [treeWithin, treeWithin, below, ← kindred.attribute_kind isAttribute,
      ← kindred.position, ← kindred.attributes, ← kindred.children, leaf, map_nil, map_nil]

lemma Kindred.treeWithin_akin (bound id) :
    Tree.Akin (fun _ => []) (treeWithin bound doc id) (treeWithin bound doc' id) := by
  have kinds : ∀ id, (doc.kind id).Akin (fun _ => []) (doc'.kind id) := by
    intro id
    rcases kindred.kind id with same | ⟨value, value', was, is⟩
    · rw [same]
      exact .same _
    · rw [was, is]
      exact .verbatim rfl
  induction bound generalizing id with
  | zero =>
    rw [treeWithin, kindred.position]
    exact .node (kinds id) .nil
  | succ bound ih =>
    have attrs : (doc.attributes id).map (treeWithin bound doc) = (doc.attributes id).map (treeWithin bound doc') :=
      map_congr_left fun inner owned =>
        kindred.attribute_tree wf bound (wf.attribute_kind owned)
    rw [treeWithin, attrs, kindred.position, kindred.attributes, kindred.children]
    exact .node (kinds id) (Tree.AllAkin.map ih (doc'.children id))

/-- Kindred documents are written alike, if the texts that are laid out close on their lines. -/
theorem Kindred.generate (options : EmissionOptions) :
    Parity (Emission.Closed (Emission.laidOut doc.tree)) (fun _ _ => True)
      (doc.generate .standard (options.withPretty true))
      (doc'.generate .standard (options.withPretty false)) := by
  have builtIn : Filters.standard.BuiltIn := fun _ mem => mem_map_of_mem mem
  have akin : doc.tree.Akin (fun _ => []) doc'.tree := by
    have size := kindred.view size size_redact
    unfold tree treeAt
    rw [← size]
    exact kindred.treeWithin_akin wf _ root
  let target : Target := ⟨options.format, .standard, (options.dialect <|> doc.dialect?).getD .html, options.charset⟩
  have fair : Emission.Fair (fun _ => []) target.filters := builtIn.fair Look.nothing
  have even := Emission.emit_even Look.nothing fair akin
  unfold Document.generate
  rw [← kindred.dialect?]
  exact even.map fun _ _ _ => trivial

end Document

namespace Compiler

open Document

/-- The layout of lines decides over success in one respect only: a template compiles with lines
laid out if and only if it compiles without and each text that is laid out closes its
interpolations on the lines they begin on. -/
theorem layout_needs_closed_lines (options : Options) (disk : Disk) (source : String) :
    (∃ code, (ofOptions (options.withPretty true)).compile disk source = .ok code) ↔
      (∃ code, (ofOptions (options.withPretty false)).compile disk source = .ok code) ∧
        ∀ document, (ofOptions (options.withPretty true)).document disk source = .ok document →
          Emission.Closed (Emission.laidOut document.tree) := by
  have alike : Parity True Kindred ((formatted options true).document disk source)
      ((formatted options false).document disk source) := document_alike source
  have written : ∀ {document document' : Document},
      (formatted options true).document disk source = .ok document → document.Kindred document' →
        Parity (Emission.Closed (Emission.laidOut document.tree)) (fun _ _ => True)
          ((formatted options true).generate document)
          ((formatted options false).generate document') := by
    intro document document' made kindred
    obtain ⟨loaded, loading, expansion⟩ := ok_of_bind made
    have wellFormed := (Produces.expanded (.loaded loading) (ok_of_mapError expansion)).levelled.1
    exact (kindred.generate wellFormed ⟨options.format, options.dialect, options.charset⟩).mapError _
  constructor
  · rintro ⟨code, compiled⟩
    obtain ⟨document, made, generated⟩ := ok_of_bind compiled
    obtain ⟨-, document', made', kindred⟩ := alike.follows document made
    obtain ⟨closed, code', generated', -⟩ := (written made kindred).follows code generated
    refine ⟨⟨code', ?_⟩, fun other madeToo => ?_⟩
    · rw [compile, made']
      exact generated'
    · rw [← Except.ok.inj (made.symm.trans madeToo)]
      exact closed
  · rintro ⟨⟨code', compiled'⟩, closed⟩
    obtain ⟨document', made', generated'⟩ := ok_of_bind compiled'
    obtain ⟨document, made⟩ := alike.leads trivial document' made'
    obtain ⟨-, other, madeToo, kindred⟩ := alike.follows document made
    rw [← Except.ok.inj (made'.symm.trans madeToo)] at kindred
    obtain ⟨code, generated⟩ :=
      (written made kindred).leads (closed document made) code' generated'
    refine ⟨code, ?_⟩
    rw [compile, made]
    exact generated

/-- A text that is given to a mixin as its content, with an expression over two lines. -/
def openLineSource : String :=
  "mixin m\n  block\n+m.\n  #\x7b1\n  + 2\x7d\n"

/-- A template that fails only because its lines are to be laid out. -/
theorem open_line_is_not_laid_out :
    (∃ code, (ofOptions (Options.standard.withPretty false)).compile ⟨[], []⟩ openLineSource =
      .ok code) ∧
    ¬ ∃ code, (ofOptions (Options.standard.withPretty true)).compile ⟨[], []⟩ openLineSource =
      .ok code := by
  have compact : ((ofOptions (Options.standard.withPretty false)).compile ⟨[], []⟩
      openLineSource).isOk = true := by
    decide +kernel
  have opened : ((ofOptions (Options.standard.withPretty true)).document ⟨[], []⟩
      openLineSource).toOption.any (fun document =>
        !(Emission.laidOut document.tree).all Emission.closesOnLines) = true := by
    decide +kernel
  constructor
  · cases compiled : (ofOptions (Options.standard.withPretty false)).compile ⟨[], []⟩
        openLineSource with
    | error failure =>
      rw [compiled] at compact
      cases compact
    | ok code => exact ⟨code, rfl⟩
  · intro pretty
    have closed := ((layout_needs_closed_lines .standard ⟨[], []⟩ openLineSource).1 pretty).2
    cases made : (ofOptions (Options.standard.withPretty true)).document ⟨[], []⟩ openLineSource with
    | error failure =>
      rw [made] at opened
      cases opened
    | ok document =>
      rw [made] at opened
      have closes := List.all_eq_true.2 (closed document made)
      simp [Except.toOption, closes] at opened

end Compiler

end PugTemplate
