import HeaderBridge.Lowering.Basic
import HeaderBridge.Proofs.Outline.Respelling

/-! # The nullability of a type in its parse nodes

The nullability of a type is that of its outermost layer. For a type name that is
the first word among its specifiers, or else the first word behind the caret of
its block or behind its last star. An array has none.
-/

namespace HeaderBridge

open Grammar

namespace DeclaredType

/-! ### Words of the outer layers -/

theorem outerQualifiers_qualify (t : DeclaredType) (qs : List String) :
    (t.qualify qs).outerQualifiers = qs ++ t.outerQualifiers := by
  cases qs <;> rfl

theorem outerQualifiers_wrap (a : Adornment) (t : DeclaredType) :
    (a.wrap t).outerQualifiers = a.qualifiers ++ t.outerQualifiers := by
  rw [Adornment.wrap, ← outerQualifiers_qualify]
  cases a.specifiers <;> rfl

theorem nullability_wrap (a : Adornment) (t : DeclaredType) :
    (a.wrap t).nullability = (a.qualifiers.findSome? Nullability.ofSpelling?).or t.nullability := by
  rw [nullability, outerQualifiers_wrap, List.findSome?_append, nullability]

theorem unqualified_wrap (a : Adornment) (t : DeclaredType) :
    (a.wrap t).unqualified = t.unqualified := by
  have hqualify : (t.qualify a.qualifiers).unqualified = t.unqualified := by
    cases a.qualifiers <;> rfl
  rw [Adornment.wrap, ← hqualify]
  cases a.specifiers <;> rfl

theorem isReference_wrap (a : Adornment) (t : DeclaredType) :
    Lowering.isReference (a.wrap t) = Lowering.isReference t := by
  rw [Lowering.isReference, unqualified_wrap, Lowering.isReference]

/-- The qualifiers of a base say nothing about nullability. -/
theorem nullability_readBase {inner : Inner} {m : Node} {t : DeclaredType}
    (h : readBase inner m = some t) : t.nullability = none := by
  obtain ⟨b, hb, rfl⟩ := exists_readSpecifier h
  have houter : b.outerQualifiers = [] := by
    cases b with
    | void | named | object | generic => rfl
    | _ => cases hb
  rw [nullability, outerQualifiers_qualify, houter, List.append_nil, List.findSome?_eq_none_iff]
  intro q hq
  obtain ⟨x, hx, rfl⟩ := List.mem_map.mp hq
  have hx := (List.mem_filter.mp hx).2
  simp only [isBaseQualifier, Bool.and_eq_true, List.contains_iff_mem] at hx
  have hall : ∀ q ∈ ["const", "volatile", "restrict"], Nullability.ofSpelling? q = none := by decide
  exact hall _ hx.2

/-! ### Words in parse nodes -/

def nullabilityWords (n : Node) : List String := textsOf (·.rule = .nullabilitySpecifier) n.children

def outermostWords (d : Node) : List String :=
  match d.child? .abstractBlockDeclarator with
  | some b => (b.childText? .nullabilitySpecifier).toList
  | none =>
    ((d.child? .pointer).bind (·.childrenOf .pointerLevel |>.getLast?)).map nullabilityWords
      |>.getD []

/-- The nullability words of a type name that belong to the type as a whole. -/
def ownWords (n : Node) : List String :=
  ((n.child? .specifierQualifierList).map nullabilityWords).getD [] ++
    ((n.child? .abstractDeclarator).map outermostWords).getD []

def spellsArray (n : Node) : Bool :=
  (n.child? .abstractDeclarator).any fun d => (d.child? .declaratorSuffix).isSome

theorem nullabilityWords_skeleton (m : Node) :
    nullabilityWords m.skeleton = nullabilityWords m := by
  rw [nullabilityWords, nullabilityWords, Node.children_skeleton]
  refine textsOf_skeleton (fun x => by rw [Node.rule_skeleton]) fun x _ hx => ?_
  rw [of_decide_eq_true hx]
  rfl

theorem outermostWords_skeleton (m : Node) : outermostWords m.skeleton = outermostWords m := by
  simp only [outermostWords, Node.child?_skeleton]
  cases m.child? .abstractBlockDeclarator with
  | some b =>
    simp only [Option.map_some, Node.childText?_skeleton b (r := .nullabilitySpecifier) rfl]
  | none =>
    cases m.child? .pointer with
    | none => rfl
    | some p =>
      simp only [Option.map_some, Option.map_none, Option.bind_some, Node.childrenOf_skeleton,
        List.getLast?_map, Option.map_map]
      cases (p.childrenOf .pointerLevel).getLast? with
      | none => rfl
      | some level => simp [nullabilityWords_skeleton]

theorem findSome?_levelWords {ns : List Node} (h : ∀ n ∈ ns, n.IsWord) :
    (textsOf (!isSpecifier ·) ns).findSome? Nullability.ofSpelling? =
      (textsOf (·.rule = .nullabilitySpecifier) ns).findSome? Nullability.ofSpelling? := by
  have hcons : ∀ (test : Node → Bool) (n : Node) (ns : List Node),
      textsOf test (n :: ns) = (if test n then [n.text] else []) ++ textsOf test ns := by
    intro test n ns
    by_cases ht : test n <;> simp [textsOf, ht]
  induction ns with
  | nil => rfl
  | cons n ns ih =>
    rw [hcons, hcons, List.findSome?_append, List.findSome?_append,
      ih fun m hm => h m (List.mem_cons_of_mem n hm)]
    congr 1
    obtain ⟨w, r, rfl, hr⟩ := h n List.mem_cons_self
    have hmem : String.ofList w ∈ r.spellings := by simpa using List.find?_some hr
    have hrules : r = .arcBehaviourSpecifier ∨ r = .nullabilitySpecifier ∨ r = .typeQualifier := by
      simpa using List.mem_of_find?_eq_some hr
    rcases hrules with rfl | rfl | rfl
    · rfl
    · rfl
    · -- what is left are words such as `const`
      have hall : ∀ q ∈ Rule.typeQualifier.spellings, Nullability.ofSpelling? q = none := by decide
      have hnone := hall _ hmem
      by_cases hs : isSpecifier (.token .typeQualifier w) = true
      · rw [hs]
        rfl
      · rw [Bool.eq_false_iff.mpr hs]
        simpa [Node.rule, Node.text] using hnone

/-! ### Declarators -/

theorem Stars.isWord {x : List Char} {ms : List Node} (h : Stars x ms) :
    ∀ m ∈ ms, ∀ n ∈ m.children, n.IsWord := by
  induction h with
  | one ht =>
    intro m hm
    obtain rfl := List.mem_singleton.mp hm
    exact ht.isWord
  | cons ht hg hy ih =>
    intro m hm
    rcases List.mem_cons.mp hm with rfl | hm
    · exact ht.isWord
    · exact ih m hm

theorem nullability_addPointer {x : List Char} {ms : List Node} (h : Stars x ms)
    (t : DeclaredType) :
    (addPointer t (.branch .pointer ms)).nullability =
      ((((Node.branch .pointer ms).childrenOf .pointerLevel).getLast?.map nullabilityWords).getD
        []).findSome?
        Nullability.ofSpelling? := by
  have hlevels : (Node.branch .pointer ms).childrenOf .pointerLevel = ms :=
    List.filter_eq_self.mpr fun m hm => by simp [h.rule m hm]
  rw [addPointer, hlevels]
  have hwords := Stars.isWord h
  cases hlast : ms.getLast? with
  | none =>
    rw [List.getLast?_eq_none_iff] at hlast
    subst hlast
    cases h
  | some level =>
    obtain ⟨ls, rfl⟩ := List.getLast?_eq_some_iff.mp hlast
    rw [List.foldl_append, List.foldl_cons, List.foldl_nil, addPointerLevel, nullability_wrap,
      findSome?_levelWords (hwords level (by simp))]
    change (nullabilityWords level |>.findSome? _).or none = _
    rw [Option.or_none]
    rfl

theorem isReference_foldl_addArray {ns : List Node} (hne : ns ≠ []) (t : DeclaredType) :
    Lowering.isReference (ns.foldl addArray t) = false := by
  have hns := List.dropLast_concat_getLast hne
  rw [← hns, List.foldl_append]
  rfl

theorem nullability_addBlock {inner : Inner} {t u : DeclaredType} {b : Node}
    (h : addBlock inner t b = some u) :
    u.nullability = (b.childText? .nullabilitySpecifier).toList.findSome?
      Nullability.ofSpelling? := by
  simp only [addBlock, Option.bind_eq_bind, Option.bind_eq_some_iff] at h
  obtain ⟨list, -, ps, -, h⟩ := h
  obtain rfl := Option.some.inj h
  rw [nullability, outerQualifiers_qualify]
  exact congrArg (List.findSome? _) (List.append_nil _)

/-- An array is no reference, and all other types have the nullability of the outermost words. -/
def OutermostNullability (d : Node) (u : DeclaredType) : Prop :=
  if (d.child? .declaratorSuffix).isSome then Lowering.isReference u = false
  else u.nullability = (outermostWords d).findSome? Nullability.ofSpelling?

theorem outermost_ending {r z : List Char} {ns ps : List Node} (h : Ending r z ns)
    (hps : ps = [] ∨ ∃ ms, ps = [.branch .pointer ms]) {inner : Inner} {t u : DeclaredType}
    (hu : addAbstract inner t (.branch .abstractDeclarator ns) = some u) :
    OutermostNullability (.branch .abstractDeclarator (ps ++ ns)) u := by
  have hnone : ∀ r, r ≠ .pointer → ps.find? (·.rule = r) = none := by
    intro r hr
    rcases hps with rfl | ⟨ms, rfl⟩
    · rfl
    · simp [Node.rule, Ne.symm hr]
  have hchild : ∀ r, r ≠ .pointer →
      (Node.branch .abstractDeclarator (ps ++ ns)).child? r = ns.find? (·.rule = r) := by
    intro r hr
    rw [Node.child?, Node.children, List.find?_append, hnone r hr, Option.none_or]
  rw [OutermostNullability, hchild _ (by decide)]
  cases h with
  | arrays h =>
    obtain ⟨n, ns, rfl⟩ := List.exists_cons_of_ne_nil h.ne_nil
    rw [addAbstract_suffixes inner t h.rule] at hu
    obtain rfl := Option.some.inj hu
    rw [List.find?_cons_of_pos (by simp [h.rule n List.mem_cons_self])]
    exact isReference_foldl_addArray h.ne_nil t
  | block h =>
    rw [addAbstract_block] at hu
    rw [outermostWords, hchild _ (by decide)]
    exact nullability_addBlock hu

theorem outermost_abstract {r y : List Char} {ns : List Node} (h : AbstractText r y ns)
    {inner : Inner}
    {t u : DeclaredType} (hu : addAbstract inner t (.branch .abstractDeclarator ns) = some u) :
    OutermostNullability (.branch .abstractDeclarator ns) u := by
  cases h with
  | stars hx =>
    rw [addAbstract_pointer] at hu
    obtain rfl := Option.some.inj hu
    exact nullability_addPointer hx t
  | ending hz => exact outermost_ending hz (.inl rfl) hu
  | both hx hg hz =>
    rw [addAbstract_pointer] at hu
    exact outermost_ending hz (.inr ⟨_, rfl⟩) hu

/-! ### Type names -/

theorem outermost_skeleton {m : Node} {u : DeclaredType} (h : OutermostNullability m.skeleton u) :
    OutermostNullability m u := by
  rwa [OutermostNullability, Node.child?_skeleton, Option.isSome_map, outermostWords_skeleton] at h

/-- The nullability of a type is that of its own words, unless the type is an array. -/
theorem nullability_readTypeName {n : Node} (h : n.Read) (hr : n.rule = .typeName) {d : Nat}
    {t : DeclaredType} (ht : readTypeName (.ofLevels d) n = some t) :
    if spellsArray n then Lowering.isReference t = false
    else t.nullability = (ownWords n).findSome? Nullability.ofSpelling? := by
  have hkind : n.rule.kind = .branch := by rw [hr]; rfl
  obtain ⟨list, hlist⟩ := h.exists_child? hkind .specifierQualifierList (by rw [hr]; rfl)
  have howned : (outerWords list).qualifiers = nullabilityWords list := rfl
  simp only [ownWords, spellsArray, hlist, Option.map_some, Option.getD_some, List.findSome?_append]
  cases hd : n.child? .abstractDeclarator with
  | none =>
    simp only [readTypeName, hlist, hd, Option.bind_eq_bind, Option.bind_some,
      Option.bind_eq_some_iff] at ht
    obtain ⟨base, hbase, ht⟩ := ht
    obtain rfl := Option.some.inj ht
    rw [nullability_wrap, howned, nullability_readBase hbase]
    rfl
  | some a =>
    simp only [readTypeName, hlist, hd, Option.bind_eq_bind, Option.bind_some,
      Option.bind_eq_some_iff] at ht
    obtain ⟨base, -, u, hu, ht⟩ := ht
    obtain rfl := Option.some.inj ht
    obtain ⟨ha, har, -⟩ := h.of_child? hd
    obtain ⟨y, g, r, ns, -, -, -, habstract, -, hskeleton⟩ := ha.trim_abstract har
    rw [← addAbstract_skeleton (Inner.ofLevels_sees_direct d) ha, hskeleton] at hu
    have houtermost := outermost_skeleton (hskeleton ▸ outermost_abstract habstract hu)
    rw [OutermostNullability] at houtermost
    rw [isReference_wrap, nullability_wrap, howned, Option.any_some, Option.map_some,
      Option.getD_some]
    split at houtermost
    · next harray => rw [if_pos harray, houtermost]
    · next harray => rw [if_neg harray, houtermost]

end DeclaredType

end HeaderBridge
