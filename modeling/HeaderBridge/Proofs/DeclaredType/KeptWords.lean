import HeaderBridge.Proofs.DeclaredType.InnerWords
import HeaderBridge.Proofs.DeclaredType.Written
import HeaderBridge.Proofs.Grammar.Alternatives
import Mathlib.Data.List.Perm.Basic

/-! # No word is lost

Words stand around a base, behind stars and behind the caret of a block, in a type
and in all the types inside it. Each of them is found again in the type that is
read, and no others are, apart from the words for tools around a base, which are
dropped.
-/

namespace HeaderBridge

open Grammar Grammar.Expr

/-! ### Words in a parse tree -/

namespace Grammar.Node

def wordRules : List Rule := [.arcBehaviourSpecifier, .nullabilitySpecifier, .typeQualifier]

/-- The texts of the words in a tree, in source order. -/
def words (m : Node) : List String := (m.occurrences wordRules).map text

def isMarker (x : Node) : Bool :=
  x.rule = .typeQualifier && ["IBOutlet", "IBInspectable", "__unused"].contains x.text

/-- The rules of nodes that have words around a base among their parts. -/
def baseRules : List Rule := [.specifierQualifierList, .typeArgument]

def markers (m : Node) : List String :=
  (m.occurrences baseRules).flatMap fun list => DeclaredType.textsOf isMarker list.children

variable {m : Node}

theorem words_eq (m : Node) :
    m.words = (if m.rule ∈ wordRules then [m.text] else []) ++ m.children.flatMap words := by
  rw [words, occurrences_eq, List.map_append, List.map_flatMap]
  congr 1
  split <;> rfl

theorem markers_eq (m : Node) : m.markers =
    (if m.rule ∈ baseRules then DeclaredType.textsOf isMarker m.children else []) ++
      m.children.flatMap markers := by
  rw [markers, occurrences_eq, List.flatMap_append, List.flatMap_assoc]
  congr 1
  split <;> simp

def wordless : List Rule :=
  [.identifier, .primitiveType, .taggedTypeSpecifier, .tagKeyword, .protocolList, .protocolName,
    .declaratorSuffix, .arrayLength]

theorem Read.wordless (h : m.Read) (hr : m.rule ∈ wordless) : m.words = [] ∧ m.markers = [] := by
  have hclosed : ∀ r ∈ Node.wordless, (r ∉ wordRules ∧ r ∉ baseRules) ∧ (r.kind = .branch →
      ∀ r' ∈ r.body.seen.flatMap Rule.leaves, r' ∈ Node.wordless) := by decide
  rw [words, markers, h.occurrences_of_closed hr fun r hr => ⟨(hclosed r hr).1.1, (hclosed r hr).2⟩,
    h.occurrences_of_closed hr fun r hr => ⟨(hclosed r hr).1.2, (hclosed r hr).2⟩]
  exact ⟨rfl, rfl⟩

theorem Read.words_word (h : m.Read) (hr : m.rule ∈ wordRules) :
    m.words = [m.text] ∧ m.markers = [] := by
  have hchildren : m.children = [] := by
    refine List.eq_nil_iff_forall_not_mem.mpr fun x hx => ?_
    have hall : ∀ r ∈ wordRules, r.kind ≠ .branch := by decide
    exact hall _ hr (h.part hx).2.1
  have hbase : ∀ r ∈ wordRules, r ∉ baseRules := by decide
  rw [words_eq, markers_eq, hchildren, if_pos hr, if_neg (hbase _ hr)]
  exact ⟨rfl, rfl⟩

theorem isMarker_skeleton (x : Node) : isMarker x.skeleton = isMarker x := by
  rw [isMarker, isMarker, rule_skeleton]
  by_cases h : x.rule = .typeQualifier
  · rw [text_skeleton (by rw [h]; rfl)]
  · simp [h]

/-- What is collected from a tree node by node can be collected from its skeleton. -/
theorem collect_skeleton {f g : Node → List String} (hf : ∀ m, f m = g m ++ m.children.flatMap f)
    (hg : ∀ m, g m.skeleton = g m) (m : Node) : f m.skeleton = f m := by
  obtain ⟨r, s, t, ns⟩ := m
  rw [hf (Node.skeleton _), hg, hf (.mk r s t ns), children_skeleton, children, List.flatMap_map,
    List.flatMap_congr fun x _ => collect_skeleton hf hg x]

theorem words_skeleton (m : Node) : m.skeleton.words = m.words := by
  refine collect_skeleton words_eq (fun m => ?_) m
  rw [rule_skeleton]
  split
  · next hr =>
    have hplain : ∀ r ∈ wordRules, r.isPlain = false := by decide
    rw [text_skeleton (hplain _ hr)]
  · rfl

theorem markers_skeleton (m : Node) : m.skeleton.markers = m.markers := by
  refine collect_skeleton markers_eq (fun m => ?_) m
  rw [rule_skeleton, children_skeleton, DeclaredType.textsOf_skeleton isMarker_skeleton]
  intro x _ hx
  simp only [isMarker, Bool.and_eq_true, decide_eq_true_eq] at hx
  rw [hx.1]
  rfl

theorem words_branch {r : Rule} (hr : r ∉ wordRules) (ns : List Node) :
    (branch r ns).words = ns.flatMap words := by
  rw [words_eq, rule, if_neg hr]
  rfl

theorem markers_branch {r : Rule} (hr : r ∉ baseRules) (ns : List Node) :
    (branch r ns).markers = ns.flatMap markers := by
  rw [markers_eq, rule, if_neg hr]
  rfl

theorem markers_branch_base {r : Rule} (hr : r ∈ baseRules) (ns : List Node) :
    (branch r ns).markers = DeclaredType.textsOf isMarker ns ++ ns.flatMap markers := by
  rw [markers_eq, rule, if_pos hr]
  rfl

/-- An argument and a type name with the same parts have the same words. -/
theorem words_argument {n : Node} {base declarator : List Node}
    (hm : m.skeleton = .branch .typeArgument (base ++ declarator))
    (hn : n.skeleton = .typeName base declarator)
    (hpointer : declarator = [] ∨ ∃ ms, declarator = [.branch .pointer ms]) :
    m.words = n.words ∧ m.markers = n.markers := by
  rw [← words_skeleton m, ← words_skeleton n, ← markers_skeleton m, ← markers_skeleton n, hm, hn]
  rw [words_branch (r := .typeArgument) (by decide),
    markers_branch_base (r := .typeArgument) (by decide), typeName,
    words_branch (r := .typeName) (by decide), markers_branch (r := .typeName) (by decide)]
  rcases hpointer with rfl | ⟨ms, rfl⟩
  · simp [words_branch (r := .specifierQualifierList) (by decide),
      markers_branch_base (r := .specifierQualifierList) (by decide)]
  · -- stars are no words for tools
    have hstars : DeclaredType.textsOf isMarker (base ++ [.branch .pointer ms]) =
        DeclaredType.textsOf isMarker base := by
      rw [DeclaredType.textsOf, List.filter_append]
      simp [DeclaredType.textsOf, isMarker, rule]
    simp [hstars, words_branch (r := .specifierQualifierList) (by decide),
      markers_branch_base (r := .specifierQualifierList) (by decide),
      words_branch (r := .abstractDeclarator) (by decide),
      markers_branch (r := .abstractDeclarator) (by decide)]

end Grammar.Node

namespace DeclaredType

open Node (wordRules baseRules isMarker)

/-! ### Words that nodes add -/

/-- The nodes add their words, the words for tools around bases apart. -/
def Adds (before : List String) (ns : List Node) (behind : List String) : Prop :=
  (behind ++ ns.flatMap Node.markers).Perm (before ++ ns.flatMap Node.words)

namespace Adds

variable {us vs ws : List String} {ns ms : List Node} {m : Node}

theorem nil (ws : List String) : Adds ws [] ws := List.Perm.refl _

theorem append (h : Adds us ns vs) (h' : Adds vs ms ws) : Adds us (ns ++ ms) ws := by
  rw [Adds, List.perm_iff_count] at *
  intro w
  have hns := h w
  have hms := h' w
  simp only [List.flatMap_append, List.count_append] at *
  omega

theorem cons (h : Adds us [m] vs) (h' : Adds vs ns ws) : Adds us (m :: ns) ws := h.append h'

theorem perm (h : Adds us ns vs) (hns : ns.Perm ms) : Adds us ms vs :=
  ((hns.flatMap_right _).symm.append_left _).trans (h.trans ((hns.flatMap_right _).append_left _))

theorem add (h : Adds us ns vs) (ws : List String) : Adds (ws ++ us) ns (ws ++ vs) := by
  rw [Adds, List.append_assoc, List.append_assoc]
  exact List.Perm.append_left ws h

theorem congr (h : Adds us ns vs) {us' vs' : List String} (hus : us.Perm us') (hvs : vs.Perm vs') :
    Adds us' ns vs' :=
  (hvs.symm.append_right _).trans (h.trans (hus.append_right _))

theorem wordless (hm : m.Read) (hr : m.rule ∈ Node.wordless) : Adds ws [m] ws := by
  obtain ⟨hwords, hmarkers⟩ := hm.wordless hr
  simp [Adds, hwords, hmarkers]

theorem wordlessOf (hm : m.Read) {r : Rule} (hr : r ∈ Node.wordless) :
    Adds ws (m.childrenOf r) ws := by
  have hparts : ∀ x ∈ m.childrenOf r, x.Read ∧ x.rule ∈ Node.wordless := by
    intro x hx
    obtain ⟨hmem, rfl⟩ := Node.mem_childrenOf.mp hx
    exact ⟨(hm.part hmem).1, hr⟩
  generalize m.childrenOf r = ns at hparts
  induction ns with
  | nil => exact nil ws
  | cons x ns ih =>
    obtain ⟨⟨hx, hr⟩, hns⟩ := List.forall_mem_cons.mp hparts
    exact (wordless hx hr).cons (ih hns)

theorem node (hword : m.rule ∉ wordRules) (hbase : m.rule ∉ baseRules) (h : Adds us m.children vs) :
    Adds us [m] vs := by
  rw [Adds, List.flatMap_singleton, List.flatMap_singleton, Node.words_eq, Node.markers_eq,
    if_neg hword, if_neg hbase]
  exact h

theorem parts (rs : List Rule) (hm : m.Read) {r : Rule} (hr : m.rule = r)
    (hrs : (r ∉ wordRules ∧ r ∉ baseRules) ∧ rs.Nodup ∧ ∀ r' ∈ r.body.seen.flatMap Rule.leaves,
      r' ∈ rs)
    (h : Adds us (rs.flatMap m.childrenOf) vs) : Adds us [m] vs := by
  obtain ⟨⟨hword, hbase⟩, hnodup, hall⟩ := hrs
  subst hr
  exact node hword hbase (h.perm (Node.perm_childrenOf hnodup fun _ hx => hall _ (hm.part hx).2.2))

end Adds

/-! ### Stars and brackets -/

theorem specifierWords_wrap (a : Adornment) (t : DeclaredType) :
    (a.wrap t).specifierWords = a.specifiers ++ t.specifierWords := by
  obtain ⟨ss, qs⟩ := a
  cases ss <;> cases qs <;> rfl

theorem qualifierWords_wrap (a : Adornment) (t : DeclaredType) :
    (a.wrap t).qualifierWords = a.qualifiers ++ t.qualifierWords := by
  obtain ⟨ss, qs⟩ := a
  cases ss <;> cases qs <;> rfl

theorem words_wrap (a : Adornment) (t : DeclaredType) :
    (a.wrap t).words.Perm (a.specifiers ++ (a.qualifiers ++ t.words)) := by
  rw [words, words, specifierWords_wrap, qualifierWords_wrap, List.perm_iff_count]
  intro w
  simp only [List.count_append]
  omega

theorem words_qualify (t : DeclaredType) (qs : List String) :
    (t.qualify qs).words.Perm (qs ++ t.words) :=
  words_wrap ⟨[], qs⟩ t

theorem adds_addPointerLevel {level : Node} (h : level.Read) (hr : level.rule = .pointerLevel)
    (t : DeclaredType) : Adds t.words [level] (addPointerLevel t level).words := by
  have hword : ∀ x ∈ level.children, x.words = [x.text] ∧ x.markers = [] := by
    intro x hx
    obtain ⟨hread, hrule⟩ := h.part_of (P := (· ∈ wordRules)) hr (by decide) hx
    exact hread.words_word hrule
  have hwords : level.children.flatMap Node.words = level.children.map Node.text := by
    rw [List.flatMap_congr fun x hx => (hword x hx).1, ← List.map_eq_flatMap]
  have hmarkers : level.children.flatMap Node.markers = [] :=
    List.flatMap_eq_nil_iff.mpr fun x hx => (hword x hx).2
  have hsplit := (List.filter_append_perm isSpecifier level.children).map Node.text
  rw [List.map_append] at hsplit
  refine .node (by rw [hr]; decide) (by rw [hr]; decide) ?_
  rw [Adds, hwords, hmarkers, List.append_nil]
  refine (words_wrap _ _).trans ?_
  rw [← List.append_assoc]
  exact (hsplit.append_right _).trans List.perm_append_comm

theorem adds_foldl {f : DeclaredType → Node → DeclaredType} {ns : List Node}
    (h : ∀ x ∈ ns, ∀ t : DeclaredType, Adds t.words [x] (f t x).words) (t : DeclaredType) :
    Adds t.words ns (ns.foldl f t).words := by
  induction ns generalizing t with
  | nil => exact .nil _
  | cons x ns ih =>
    exact (h x List.mem_cons_self t).cons (ih (fun y hy => h y (List.mem_cons_of_mem _ hy)) _)

theorem adds_addPointer {p : Node} (h : p.Read) (hr : p.rule = .pointer) (t : DeclaredType) :
    Adds t.words [p] (addPointer t p).words := by
  refine .parts [.pointerLevel] h hr (by decide) ?_
  rw [List.flatMap_singleton]
  refine adds_foldl (fun level hlevel u => ?_) t
  obtain ⟨hmem, hrule⟩ := Node.mem_childrenOf.mp hlevel
  exact adds_addPointerLevel (h.part hmem).1 hrule u

theorem adds_addArray {s : Node} (h : s.Read) (hr : s.rule = .declaratorSuffix) (t : DeclaredType) :
    Adds t.words [s] (addArray t s).words :=
  .wordless h (by rw [hr]; decide)

/-! ### The types inside a type -/

/-- The types inside a type have the words of their nodes. -/
structure Inner.Keeps (inner : Inner) : Prop where
  argument : ∀ {a : Node} {t : DeclaredType}, a.Read → a.rule = .typeArgument →
    inner.argument a = some t → Adds [] [a] t.words
  parameter : ∀ {p : Node} {t : DeclaredType}, p.Read → p.rule = .parameterDeclaration →
    inner.parameter p = some t → Adds [] [p] t.words

theorem wordsAll_cons (t : DeclaredType) (ts : List DeclaredType) :
    (wordsAll (t :: ts)).Perm (t.words ++ wordsAll ts) := by
  rw [wordsAll, specifierWordsAll, qualifierWordsAll, words, wordsAll, List.perm_iff_count]
  intro w
  simp only [List.count_append]
  omega

theorem adds_mapM {f : Node → Option DeclaredType} {xs : List Node} {ts : List DeclaredType}
    (hf : ∀ x ∈ xs, ∀ t, f x = some t → Adds [] [x] t.words) (h : xs.mapM f = some ts) :
    Adds [] xs (wordsAll ts) := by
  replace h := forall₂_of_mapM h
  induction h with
  | nil => exact .nil _
  | @cons x t xs ts ht _ ih =>
    obtain ⟨hx, hxs⟩ := List.forall_mem_cons.mp hf
    have hxs := (ih hxs).add t.words
    rw [List.append_nil] at hxs
    exact ((hx t ht).cons hxs).congr (.refl _) (wordsAll_cons t ts).symm

section Readers

variable {inner : Inner} (hinner : inner.Keeps) {m : Node} (hm : m.Read) {t u : DeclaredType}

include hinner hm

theorem adds_blockParameters (hr : m.rule = .blockParameters) {ps : List DeclaredType}
    (h : (m.childrenOf .parameterDeclaration).mapM inner.parameter = some ps) :
    Adds [] [m] (wordsAll (if ps = [void] then [] else ps)) := by
  have hwords : wordsAll (if ps = [void] then [] else ps) = wordsAll ps := by
    split
    · next hvoid => rw [hvoid]; rfl
    · rfl
  refine .parts [.parameterDeclaration] hm hr (by decide) ?_
  rw [List.flatMap_singleton, hwords]
  refine adds_mapM (fun p hp t ht => ?_) h
  obtain ⟨hmem, hrule⟩ := Node.mem_childrenOf.mp hp
  exact hinner.parameter (hm.part hmem).1 hrule ht

theorem adds_addBlock (hr : m.rule ∈ [Rule.abstractBlockDeclarator, .directDeclarator])
    (h : addBlock inner t m = some u) : Adds t.words [m] u.words := by
  have hrules : ∀ r ∈ [Rule.abstractBlockDeclarator, .directDeclarator], r.kind = .branch ∧
      r ∉ wordRules ∧ r ∉ baseRules ∧ r.body.repeats .nullabilitySpecifier ≤ 1 ∧
      r.body.repeats .blockParameters ≤ 1 ∧ ∀ r' ∈ r.body.seen.flatMap Rule.leaves,
        r' ∈ [Rule.nullabilitySpecifier, .blockParameters, .identifier, .declaratorSuffix] := by
          decide
  obtain ⟨hkind, hword, hbase, hnullability, hparameters, hparts⟩ := hrules _ hr
  simp only [addBlock, Option.bind_eq_bind, Option.bind_eq_some_iff] at h
  obtain ⟨list, hlist, ps, hps, h⟩ := h
  cases h
  obtain ⟨hlread, hlrule, -⟩ := hm.of_child? hlist
  refine .parts _ hm rfl ⟨⟨hword, hbase⟩, by decide, hparts⟩ ?_
  simp only [List.flatMap_cons, List.flatMap_nil, List.append_nil,
    hm.childrenOf_eq_toList hkind _ hnullability, hm.childrenOf_eq_toList hkind _ hparameters,
    hlist, Option.toList_some]
  -- the word behind the caret, the parameters, and a name and brackets that have no words
  set qs := (m.childText? .nullabilitySpecifier).toList with hqs
  have hcaret : Adds t.words (m.child? .nullabilitySpecifier).toList (qs ++ t.words) := by
    cases hq : m.child? .nullabilitySpecifier with
    | none =>
      rw [hqs, Node.childText?, hq]
      exact .nil _
    | some q =>
      obtain ⟨hmem, hrule⟩ := Node.child?_eq_some hq
      obtain ⟨hwords, hmarkers⟩ := (hm.part hmem).1.words_word (by rw [hrule]; decide)
      rw [hqs, Node.childText?, hq]
      simpa [Adds, hwords, hmarkers] using (List.perm_append_singleton q.text t.words).symm
  have hlist := (adds_blockParameters hinner hlread hlrule hps).add (qs ++ t.words)
  rw [List.append_nil] at hlist
  refine (hcaret.append (hlist.append ((Adds.wordlessOf hm (by decide)).append
    (.wordlessOf hm (by decide))))).congr (.refl _) ?_
  refine List.Perm.trans ?_ (words_qualify _ _).symm
  rw [words, wordsAll, words, specifierWords, qualifierWords, List.perm_iff_count]
  intro w
  simp only [List.count_append]
  omega

theorem adds_readGeneric (hr : m.rule = .genericTypeSpecifier) (h : readGeneric inner m = some t) :
    Adds [] [m] t.words := by
  have hkind : m.rule.kind = .branch := by rw [hr]; rfl
  have hparts : ∀ vs, Adds [] (m.childrenOf .protocolList ++ m.childrenOf .genericsSpecifier) vs →
      Adds [] [m] vs := by
    intro vs hvs
    refine .parts [.identifier, .protocolList, .genericsSpecifier] hm hr (by decide) ?_
    simpa using (Adds.wordlessOf hm (r := .identifier) (by decide)).append hvs
  rw [readGeneric, Option.bind_eq_bind, Option.bind_eq_some_iff] at h
  obtain ⟨name, -, h⟩ := h
  apply hparts
  split at h
  · next list hlist =>
    have hmem := Node.child?_eq_some hlist
    have hnone : m.childrenOf .genericsSpecifier = [] := by
      refine (hm.childrenOf_apart hkind (r := .protocolList) (by rw [hr]; decide)).resolve_left
        fun hnil => ?_
      exact List.not_mem_nil (hnil ▸ Node.mem_childrenOf.mpr hmem)
    have hwords : t.words = [] := by
      have hnames : ∀ ps : List String, (generic name (ps.map named)).words = [] := by
        intro ps
        simp [words, specifierWords, qualifierWords, specifierWordsAll_eq, qualifierWordsAll_eq]
      cases h
      split
      · rfl
      · exact hnames _
    rw [hnone, List.append_nil, hwords]
    exact .wordlessOf hm (by decide)
  · next hnone =>
    simp only [Option.bind_eq_bind, Option.bind_eq_some_iff] at h
    obtain ⟨list, hlist, ts, hts, h⟩ := h
    cases h
    obtain ⟨hlread, hlrule, -⟩ := hm.of_child? hlist
    rw [hm.childrenOf_eq_toList hkind .protocolList (by rw [hr]; decide), hnone,
      hm.childrenOf_eq_toList hkind .genericsSpecifier (by rw [hr]; decide), hlist]
    refine .parts [.typeArgument] hlread hlrule (by decide) ?_
    rw [List.flatMap_singleton]
    refine adds_mapM (fun a ha t ht => ?_) hts
    obtain ⟨hmem, hrule⟩ := Node.mem_childrenOf.mp ha
    exact hinner.argument (hlread.part hmem).1 hrule ht

theorem adds_readSpecifier (hr : m.rule = .typeSpecifier) (h : readSpecifier inner m = some t) :
    Adds [] [m] t.words := by
  obtain ⟨part, hpart⟩ := hm.exists_part (by rw [hr]; rfl) (by rw [hr]; rfl)
  have hread := (hm.part (hpart ▸ List.mem_singleton_self part)).1
  refine .node (by rw [hr]; decide) (by rw [hr]; decide) ?_
  rw [readSpecifier, hpart] at h
  rw [hpart]
  simp only [List.head?_cons, Option.bind_eq_bind, Option.bind_some] at h
  split at h
  · next hrule =>
    have hwords : ∀ text, (ofPrimitive text).words = [] := by
      intro text
      rw [ofPrimitive]
      split <;> rfl
    cases h
    rw [hwords]
    exact .wordless hread (by rw [hrule]; decide)
  · next hrule =>
    obtain ⟨name, -, rfl⟩ := Option.map_eq_some_iff.mp h
    exact .wordless hread (by rw [hrule]; decide)
  · next hrule => exact adds_readGeneric hinner hread hrule h
  · next hrule =>
    have hwords : ∀ name, (ofName name).words = [] := by
      intro name
      rw [ofName]
      split <;> rfl
    cases h
    rw [hwords]
    exact .wordless hread (by rw [hrule]; decide)
  · cases h

end Readers

/-! ### Bases -/

/-- The texts of words, by what they say: specifiers, qualifiers of the whole and of the base, and
words for tools. -/
def sorted (xs : List Node) : List String :=
  textsOf isSpecifier xs ++ (textsOf (·.rule = .nullabilitySpecifier) xs ++
    (textsOf isBaseQualifier xs ++ textsOf isMarker xs))

theorem sorted_cons (x : Node) (xs : List Node) :
    (sorted (x :: xs)).Perm (sorted [x] ++ sorted xs) := by
  have hcons : ∀ test : Node → Bool, textsOf test (x :: xs) = textsOf test [x] ++
      textsOf test xs := by
    intro test
    rw [textsOf, textsOf, textsOf, ← List.map_append, ← List.filter_append, List.singleton_append]
  rw [sorted, sorted, sorted, List.perm_iff_count]
  intro w
  simp only [hcons, List.count_append]
  omega

theorem sorted_word {x : Node} (h : x.Read) (hr : x.rule ∈ wordRules) : sorted [x] = [x.text] := by
  have hrule : x.rule = .arcBehaviourSpecifier ∨ x.rule = .nullabilitySpecifier ∨
      x.rule = .typeQualifier := by simpa [wordRules] using hr
  rcases hrule with hr | hr | hr
  · simp [sorted, textsOf, isSpecifier, isBaseQualifier, isMarker, hr]
  · simp [sorted, textsOf, isSpecifier, isBaseQualifier, isMarker, hr]
  · have hmem : x.text ∈ Rule.typeQualifier.spellings :=
      h.text_mem (by rw [hr]; rfl) (by rw [hr]; rfl)
    -- `__kindof` is a specifier, three words qualify a base and three are for tools
    have hall : ∀ w ∈ Rule.typeQualifier.spellings, w = "__kindof" ∨
        (w = "const" ∨ w = "volatile" ∨ w = "restrict") ∨
        (w = "IBOutlet" ∨ w = "IBInspectable" ∨ w = "__unused") := by decide
    rcases hall _ hmem with ht | (ht | ht | ht) | ht | ht | ht <;>
      simp [sorted, textsOf, isSpecifier, isBaseQualifier, isMarker, hr, ht]

theorem perm_words {xs : List Node}
    (h : ∀ x ∈ xs, x.Read ∧ (x.rule ∈ wordRules ∨ x.rule = .typeSpecifier)) :
    (sorted xs ++ (xs.filter (·.rule = .typeSpecifier)).flatMap Node.words).Perm
      (xs.flatMap Node.words) := by
  induction xs with
  | nil => exact .nil
  | cons x xs ih =>
    obtain ⟨hx, hxs⟩ := List.forall_mem_cons.mp h
    obtain ⟨hread, hr⟩ := hx
    have hone : sorted [x] ++ ([x].filter (·.rule = .typeSpecifier)).flatMap Node.words =
        x.words := by
      rcases hr with hr | hr
      · have hne : ∀ r ∈ wordRules, r ≠ .typeSpecifier := by decide
        rw [sorted_word hread hr, (hread.words_word hr).1]
        simp [hne _ hr]
      · simp [sorted, textsOf, isSpecifier, isBaseQualifier, isMarker, hr]
    have hfilter : (x :: xs).filter (fun y => decide (y.rule = .typeSpecifier)) =
        [x].filter (·.rule = .typeSpecifier) ++ xs.filter (·.rule = .typeSpecifier) := by
      rw [← List.filter_append, List.singleton_append]
    rw [hfilter, List.flatMap_append, List.flatMap_cons, ← hone]
    refine List.perm_iff_count.mpr fun w => ?_
    have hcons := (sorted_cons x xs).count_eq w
    have hrest := (ih hxs).count_eq w
    simp only [List.count_append] at *
    omega

theorem markers_eq_of_words {xs : List Node}
    (h : ∀ x ∈ xs, x.Read ∧ (x.rule ∈ wordRules ∨ x.rule = .typeSpecifier)) :
    xs.flatMap Node.markers = (xs.filter (·.rule = .typeSpecifier)).flatMap Node.markers := by
  induction xs with
  | nil => rfl
  | cons x xs ih =>
    obtain ⟨⟨hread, hr⟩, hxs⟩ := List.forall_mem_cons.mp h
    rw [List.flatMap_cons, ih hxs]
    rcases hr with hr | hr
    · have hne : ∀ r ∈ wordRules, r ≠ .typeSpecifier := by decide
      rw [(hread.words_word hr).2, List.filter_cons_of_neg (by simpa using hne _ hr),
        List.nil_append]
    · rw [List.filter_cons_of_pos (by simpa using hr), List.flatMap_cons]

section Readers

variable {inner : Inner} (hinner : inner.Keeps) {m : Node} (hm : m.Read) {t u : DeclaredType}

include hinner hm

theorem adds_readBase (hr : m.rule = .specifierQualifierList) (h : readBase inner m = some t) :
    Adds [] [m] ((outerWords m).specifiers ++ ((outerWords m).qualifiers ++ t.words)) := by
  simp only [readBase, Option.bind_eq_bind, Option.bind_eq_some_iff] at h
  obtain ⟨q, hq, base, hbase, h⟩ := h
  cases h
  have hkind : m.rule.kind = .branch := by rw [hr]; rfl
  obtain ⟨hqread, hqrule, -⟩ := hm.of_child? hq
  have hparts : ∀ x ∈ m.children, x.Read ∧ (x.rule ∈ wordRules ∨ x.rule = .typeSpecifier) :=
    fun x hx =>
    hm.part_of (P := fun r => r ∈ wordRules ∨ r = .typeSpecifier) hr (by decide) hx
  have hspecifier : m.children.filter (·.rule = .typeSpecifier) = [q] := by
    have hone := hm.childrenOf_eq_toList hkind .typeSpecifier (by rw [hr]; decide)
    rw [hq] at hone
    exact hone
  have hwords := perm_words hparts
  have hmarkers := markers_eq_of_words hparts
  rw [hspecifier, List.flatMap_singleton] at hwords hmarkers
  have hinside := adds_readSpecifier hinner hqread hqrule hbase
  rw [Adds, List.flatMap_singleton, List.flatMap_singleton] at hinside ⊢
  have hword : m.rule ∉ wordRules := by rw [hr]; decide
  have hbasis : m.rule ∈ baseRules := by rw [hr]; decide
  rw [Node.words_eq, Node.markers_eq, if_neg hword, if_pos hbasis, hmarkers]
  refine List.perm_iff_count.mpr fun w => ?_
  have hbasewords := (words_qualify base (textsOf isBaseQualifier m.children)).count_eq w
  have hsorted := hwords.count_eq w
  have hin := hinside.count_eq w
  simp only [sorted, outerWords, List.count_append, List.count_nil] at *
  omega

/-! ### Declarators -/

omit hinner hm in
theorem adds_foldlM {f : DeclaredType → Node → Option DeclaredType} {ns : List Node}
    (hf : ∀ x ∈ ns, ∀ t u, f t x = some u → Adds t.words [x] u.words) (h : ns.foldlM f t = some u) :
    Adds t.words ns u.words := by
  induction ns generalizing t with
  | nil =>
    cases h
    exact .nil _
  | cons x ns ih =>
    rw [List.foldlM_cons, Option.bind_eq_bind, Option.bind_eq_some_iff] at h
    obtain ⟨v, hv, h⟩ := h
    exact (hf x List.mem_cons_self t v hv).cons
      (ih (fun y hy => hf y (List.mem_cons_of_mem x hy)) h)

theorem adds_addAbstract (hr : m.rule = .abstractDeclarator) (h : addAbstract inner t m = some u) :
    Adds t.words [m] u.words := by
  refine .node (by rw [hr]; decide) (by rw [hr]; decide) (adds_foldlM (fun x hx v w hw => ?_) h)
  obtain ⟨hread, hrule⟩ := hm.part_of (P := fun r => r = .pointer ∨ r = .abstractBlockDeclarator ∨
    r = .declaratorSuffix) hr (by decide) hx
  rcases hrule with hrule | hrule | hrule <;> rw [addAbstractPart, hrule] at hw
  · cases hw
    exact adds_addPointer hread hrule v
  · exact adds_addBlock hinner hread (by rw [hrule]; decide) hw
  · cases hw
    exact adds_addArray hread hrule v

omit hinner in
theorem adds_suffixes (hr : m.rule = .directDeclarator) (hnone : m.child? .blockParameters = none) :
    Adds t.words [m] ((m.childrenOf .declaratorSuffix).foldl addArray t).words := by
  have hkind : m.rule.kind = .branch := by rw [hr]; rfl
  have hnullability : m.childrenOf .nullabilitySpecifier = [] :=
    hm.childrenOf_brings hkind (by rw [hr]; decide) hnone
  have hparameters : m.childrenOf .blockParameters = [] := by
    rw [hm.childrenOf_eq_toList hkind _ (by rw [hr]; decide), hnone]
    rfl
  refine .parts [.nullabilitySpecifier, .blockParameters, .identifier, .declaratorSuffix] hm hr
    (by decide) ?_
  simp only [List.flatMap_cons, List.flatMap_nil, List.append_nil, hnullability, hparameters,
    List.nil_append]
  refine (Adds.wordlessOf hm (by decide)).append (adds_foldl (fun s hs v => ?_) t)
  obtain ⟨hmem, hrule⟩ := Node.mem_childrenOf.mp hs
  exact adds_addArray (hm.part hmem).1 hrule v

theorem adds_addDeclarator (hr : m.rule = .declarator) (h : addDeclarator inner t m = some u) :
    Adds t.words [m] u.words := by
  obtain ⟨v, direct, hv, hdirect, h⟩ := addDeclarator_eq_some h
  have hkind : m.rule.kind = .branch := by rw [hr]; rfl
  obtain ⟨hread, hrule, -⟩ := hm.of_child? hdirect
  refine .parts [.pointer, .directDeclarator] hm hr (by decide) ?_
  simp only [List.flatMap_cons, List.flatMap_nil, List.append_nil,
    hm.childrenOf_eq_toList hkind .pointer (by rw [hr]; decide),
    hm.childrenOf_eq_toList hkind .directDeclarator (by rw [hr]; decide), hdirect,
    Option.toList_some]
  have hstars : Adds t.words (m.child? .pointer).toList v.words := by
    rcases hv with ⟨hnone, rfl⟩ | ⟨p, hp, rfl⟩
    · rw [hnone]
      exact .nil _
    · rw [hp]
      obtain ⟨hp, hprule, -⟩ := hm.of_child? hp
      exact adds_addPointer hp hprule t
  refine hstars.append ?_
  rcases h with h | ⟨hnone, rfl⟩
  · exact adds_addBlock hinner hread (by rw [hrule]; decide) h
  · exact adds_suffixes hread hrule hnone

/-! ### Whole types -/

omit hinner hm in
theorem adds_wrap {a : Adornment} {list : Node} {ds : List Node}
    (hbase : Adds [] [list] (a.specifiers ++ (a.qualifiers ++ t.words)))
    (h : Adds t.words ds u.words) : Adds [] (list :: ds) (a.wrap u).words :=
  (hbase.cons ((h.add a.qualifiers).add a.specifiers)).congr (.refl _) (words_wrap a u).symm

theorem adds_readTypeName (hr : m.rule = .typeName) (h : readTypeName inner m = some t) :
    Adds [] [m] t.words := by
  obtain ⟨list, b, u, hlist, hb, hu, rfl⟩ := readTypeName_eq_some h
  have hkind : m.rule.kind = .branch := by rw [hr]; rfl
  obtain ⟨hread, hrule, -⟩ := hm.of_child? hlist
  refine .parts [.specifierQualifierList, .abstractDeclarator] hm hr (by decide) ?_
  simp only [List.flatMap_cons, List.flatMap_nil, List.append_nil,
    hm.childrenOf_eq_toList hkind .specifierQualifierList (by rw [hr]; decide),
    hm.childrenOf_eq_toList hkind .abstractDeclarator (by rw [hr]; decide), hlist,
    Option.toList_some, List.singleton_append]
  refine adds_wrap (adds_readBase hinner hread hrule hb) ?_
  rcases hu with ⟨hnone, rfl⟩ | ⟨d, hd, hu⟩
  · rw [hnone]
    exact .nil _
  · rw [hd]
    obtain ⟨hd, hdrule, -⟩ := hm.of_child? hd
    exact adds_addAbstract hinner hd hdrule hu

theorem adds_readParameter (hr : m.rule = .parameterDeclaration)
    (h : readParameter inner m = some t) : Adds [] [m] t.words := by
  simp only [readParameter, Option.bind_eq_bind, Option.bind_eq_some_iff] at h
  obtain ⟨list, hlist, b, hb, h⟩ := h
  have hkind : m.rule.kind = .branch := by rw [hr]; rfl
  obtain ⟨hread, hrule, -⟩ := hm.of_child? hlist
  refine .parts [.specifierQualifierList, .declarator, .abstractDeclarator] hm hr (by decide) ?_
  simp only [List.flatMap_cons, List.flatMap_nil, List.append_nil,
    hm.childrenOf_eq_toList hkind .specifierQualifierList (by rw [hr]; decide), hlist,
    Option.toList_some, List.singleton_append]
  have hdeclarator := hm.childrenOf_eq_toList hkind .declarator (by rw [hr]; decide)
  have habstract := hm.childrenOf_eq_toList hkind .abstractDeclarator (by rw [hr]; decide)
  split at h
  · next d hd =>
    obtain ⟨u, hu, h⟩ := Option.bind_eq_some_iff.mp h
    cases h
    rw [hd] at hdeclarator
    have hnone : m.childrenOf .abstractDeclarator = [] := by
      refine (hm.childrenOf_apart hkind (r := .declarator) (by rw [hr]; decide)).resolve_left ?_
      rw [hdeclarator]
      exact List.cons_ne_nil _ _
    rw [hdeclarator, hnone, List.append_nil]
    obtain ⟨hd, hdrule, -⟩ := hm.of_child? hd
    exact adds_wrap (adds_readBase hinner hread hrule hb) (adds_addDeclarator hinner hd hdrule hu)
  · next d hnone hd =>
    obtain ⟨u, hu, h⟩ := Option.bind_eq_some_iff.mp h
    cases h
    rw [hdeclarator, habstract, hnone, hd]
    obtain ⟨hd, hdrule, -⟩ := hm.of_child? hd
    exact adds_wrap (adds_readBase hinner hread hrule hb) (adds_addAbstract hinner hd hdrule hu)
  · next hnone hnone' =>
    cases h
    rw [hdeclarator, habstract, hnone, hnone']
    exact adds_wrap (adds_readBase hinner hread hrule hb) (.nil _)

/-- The text of an argument is parsed again, to a tree with the same words. -/
theorem adds_argument (hr : m.rule = .typeArgument)
    (h : (parseTypeName? m.text).bind (readTypeName inner) = some t) : Adds [] [m] t.words := by
  obtain ⟨base, declarator, n, hm, hpointer, hparse, hn⟩ := parseTypeName?_argument hm hr
  obtain ⟨hread, hrule⟩ := read_of_parseTypeName? hparse
  rw [hparse, Option.bind_some] at h
  have hadds := adds_readTypeName hinner hread hrule h
  rw [Adds, List.flatMap_singleton, List.flatMap_singleton] at hadds ⊢
  obtain ⟨hwords, hmarkers⟩ := Node.words_argument hm hn hpointer
  rw [hwords, hmarkers]
  exact hadds

end Readers

theorem Inner.ofLevels_keeps (n : Nat) : (Inner.ofLevels n).Keeps := by
  induction n with
  | zero => exact ⟨fun _ _ h => (by cases h), fun _ _ h => (by cases h)⟩
  | succ n ih =>
    exact ⟨fun ha hr h => adds_argument ih ha hr h, fun hp hr h => adds_readParameter ih hp hr h⟩

/-! ### Specifiers and qualifiers -/

theorem Written.mem_words {stage : Stage} {t : DeclaredType} (h : Written stage t) :
    (∀ w ∈ t.specifierWords, w ∈ frontWords) ∧ ∀ w ∈ t.qualifierWords, w ∈ starWords := by
  have hwrap : ∀ {a : Adornment} {t : DeclaredType}, (∀ s ∈ a.specifiers, s ∈ frontWords) →
      (∀ q ∈ a.qualifiers, q ∈ starWords) →
      ((∀ w ∈ t.specifierWords, w ∈ frontWords) ∧ ∀ w ∈ t.qualifierWords, w ∈ starWords) →
      (∀ w ∈ (a.wrap t).specifierWords, w ∈ frontWords) ∧
        ∀ w ∈ (a.wrap t).qualifierWords, w ∈ starWords := by
    intro a t hss hqs ht
    rw [specifierWords_wrap, qualifierWords_wrap, List.forall_mem_append, List.forall_mem_append]
    exact ⟨⟨hss, ht.1⟩, hqs, ht.2⟩
  have hnullability : ∀ {q : String}, q ∈ Rule.nullabilitySpecifier.spellings → q ∈ starWords :=
    fun hq => mem_starWords (List.mem_append_left _ hq)
  have hall : ∀ {ts : List DeclaredType}, (∀ t ∈ ts, (∀ w ∈ t.specifierWords, w ∈ frontWords) ∧
      ∀ w ∈ t.qualifierWords, w ∈ starWords) →
      (∀ w ∈ specifierWordsAll ts, w ∈ frontWords) ∧ ∀ w ∈ qualifierWordsAll ts, w ∈ starWords := by
    intro ts hts
    rw [specifierWordsAll_eq, qualifierWordsAll_eq, List.forall_mem_flatMap,
      List.forall_mem_flatMap]
    exact ⟨fun t ht => (hts t ht).1, fun t ht => (hts t ht).2⟩
  induction h with
  | void | name _ | scalar _ _ | object _ => exact ⟨List.forall_mem_nil _, List.forall_mem_nil _⟩
  | arguments _ _ _ ih => exact hall ih
  | @qualify t qs _ hqs ih =>
    refine @hwrap ⟨[], qs⟩ t (List.forall_mem_nil _) (fun q hq => ?_) ih
    exact mem_starWords (List.mem_append_right _ (hqs q hq))
  | ofQualified _ ih | ofPointer _ ih => exact ih
  | star _ hqs hss ih => exact hwrap hss hqs ih
  | argument _ ha ih | declared _ ha ih =>
    exact hwrap ha.specifiers (fun q hq => hnullability (ha.qualifiers q hq)) ih
  | array _ _ _ ih => exact ih
  | @block name r ps qs a _ _ _ hqs ha ihr ihps =>
    refine hwrap ha.specifiers (fun q hq => hnullability (ha.qualifiers q hq)) ?_
    refine @hwrap ⟨[], qs⟩ (.block name r ps) (List.forall_mem_nil _) ?_ ?_
    · rcases hqs with rfl | ⟨q, hq, rfl⟩
      · exact List.forall_mem_nil _
      · exact List.forall_mem_singleton.mpr (hnullability hq)
    · rw [specifierWords, qualifierWords, List.forall_mem_append, List.forall_mem_append]
      exact ⟨⟨ihr.1, (hall ihps).1⟩, ihr.2, (hall ihps).2⟩

/-! ### Types that are read -/

/-- The specifiers and qualifiers of a type that is read, at all its layers and inside it, are the
words of its parse tree, each as often as it is written, apart from the words for tools around
bases. Ownership words and `__kindof` are specifiers, and all others are qualifiers. -/
theorem words_of_readWithin {d : Nat} {s : String} {t : DeclaredType}
    (h : readWithin d s = some t) :
    ∃ m, parseTypeName? s = some m ∧
      (t.specifierWords ++ t.qualifierWords ++ m.markers).Perm m.words ∧
      (∀ w ∈ t.specifierWords, w ∈ Rule.arcBehaviourSpecifier.spellings ++ ["__kindof"]) ∧
      ∀ w ∈ t.qualifierWords, w ∈ Rule.nullabilitySpecifier.spellings ++
        ["const", "volatile", "restrict"] ++ ["IBOutlet", "IBInspectable", "__unused"] := by
  obtain ⟨hspecifiers, hqualifiers⟩ := (written_of_readWithin h).mem_words
  obtain ⟨m, hparse, h⟩ := Option.bind_eq_some_iff.mp h
  obtain ⟨hm, hrule⟩ := read_of_parseTypeName? hparse
  have hadds := adds_readTypeName (Inner.ofLevels_keeps d) hm hrule h
  rw [Adds, List.flatMap_singleton, List.flatMap_singleton] at hadds
  exact ⟨m, hparse, hadds, hspecifiers, hqualifiers⟩

def markedSpelling : String :=
  "IBOutlet A<__kindof IBOutlet B * IBOutlet const> * (^ _Nullable)(int n, const C *)"

/-- A word behind a star is kept where the same word in front of the base is dropped. -/
theorem words_of_readWithin_arguments : ∃ t m,
    readWithin 2 markedSpelling = some t ∧ parseTypeName? markedSpelling = some m ∧
    m.words = ["IBOutlet", "__kindof", "IBOutlet", "IBOutlet", "const", "_Nullable", "const"] ∧
    m.markers = ["IBOutlet", "IBOutlet"] ∧
    (t.specifierWords ++ t.qualifierWords ++ m.markers).Perm m.words := by
  have hread : readWithin 2 markedSpelling =
      some (qualified (block none
        (pointer (generic "A"
          [specified ["__kindof"] (qualified (pointer (named "B")) ["IBOutlet", "const"])]))
        [named "int", pointer (qualified (named "C") ["const"])]) ["_Nullable"]) := by
    decide +kernel
  have htexts : (parseTypeName? markedSpelling).map (fun m => (m.words, m.markers)) =
      some (["IBOutlet", "__kindof", "IBOutlet", "IBOutlet", "const", "_Nullable", "const"],
        ["IBOutlet", "IBOutlet"]) := by
    decide +kernel
  obtain ⟨m, hparse, hperm, -⟩ := words_of_readWithin hread
  rw [hparse, Option.map_some, Option.some_inj, Prod.mk.injEq] at htexts
  exact ⟨_, m, hread, hparse, htexts.1, htexts.2, hperm⟩

end DeclaredType

end HeaderBridge
