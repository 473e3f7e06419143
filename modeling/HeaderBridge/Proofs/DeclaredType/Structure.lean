import HeaderBridge.Proofs.DeclaredType.TypeNames

/-! # Types from the structure of a tree

A type depends on the skeleton of its parse tree only. In particular an argument
may be read from its own parts, and need not be parsed again.
-/

namespace HeaderBridge

open Grammar

/-! ### Skeletons of nodes -/

namespace Grammar.Node

theorem rule_skeleton (m : Node) : m.skeleton.rule = m.rule := by
  cases m
  rw [skeleton_mk]
  rfl

theorem children_skeleton (m : Node) : m.skeleton.children = m.children.map Node.skeleton := by
  cases m
  rw [skeleton_mk]
  rfl

theorem text_skeleton {m : Node} (h : m.rule.isPlain = false) : m.skeleton.text = m.text := by
  obtain ⟨r, s, t, ns⟩ := m
  have h : r.isPlain = false := h
  rw [skeleton_mk, h]
  rfl

theorem child?_skeleton (m : Node) (r : Rule) :
    m.skeleton.child? r = (m.child? r).map Node.skeleton := by
  rw [child?, child?, children_skeleton, List.find?_map]
  simp only [Function.comp_def, rule_skeleton]

theorem childrenOf_skeleton (m : Node) (r : Rule) :
    m.skeleton.childrenOf r = (m.childrenOf r).map Node.skeleton := by
  rw [childrenOf, childrenOf, children_skeleton, List.filter_map]
  simp only [Function.comp_def, rule_skeleton]

theorem childText?_skeleton (m : Node) {r : Rule} (h : r.isPlain = false) :
    m.skeleton.childText? r = m.childText? r := by
  rw [childText?, childText?, child?_skeleton, Option.map_map]
  cases hx : m.child? r with
  | none => rfl
  | some x =>
    obtain ⟨-, rfl⟩ := child?_eq_some hx
    simp [text_skeleton h]

end Grammar.Node

namespace DeclaredType

/-! ### Readers see the skeleton -/

theorem isSpecifier_skeleton (x : Node) : isSpecifier x.skeleton = isSpecifier x := by
  rw [isSpecifier, isSpecifier, Node.rule_skeleton]
  by_cases h : x.rule = .typeQualifier
  · rw [Node.text_skeleton (by rw [h]; rfl)]
  · simp [h]

theorem isBaseQualifier_skeleton (x : Node) : isBaseQualifier x.skeleton = isBaseQualifier x := by
  rw [isBaseQualifier, isBaseQualifier, Node.rule_skeleton]
  by_cases h : x.rule = .typeQualifier
  · rw [Node.text_skeleton (by rw [h]; rfl)]
  · simp [h]

theorem textsOf_skeleton {test : Node → Bool} {parts : List Node}
    (htest : ∀ x, test x.skeleton = test x)
    (hplain : ∀ x ∈ parts, test x = true → x.rule.isPlain = false) :
    textsOf test (parts.map Node.skeleton) = textsOf test parts := by
  rw [textsOf, textsOf, List.filter_map, List.map_map]
  simp only [Function.comp_def, htest]
  refine List.map_congr_left fun x hx => ?_
  obtain ⟨hx, htx⟩ := List.mem_filter.mp hx
  exact Node.text_skeleton (hplain x hx htx)

theorem isPlain_of_isSpecifier {x : Node} (h : isSpecifier x = true) : x.rule.isPlain = false := by
  simp only [isSpecifier, Bool.or_eq_true, Bool.and_eq_true, decide_eq_true_eq] at h
  rcases h with h | ⟨h, -⟩ <;> rw [h] <;> rfl

theorem isPlain_of_isBaseQualifier {x : Node} (h : isBaseQualifier x = true) :
    x.rule.isPlain = false := by
  simp only [isBaseQualifier, Bool.and_eq_true, decide_eq_true_eq] at h
  rw [h.1]
  rfl

theorem outerWords_skeleton (m : Node) : outerWords m.skeleton = outerWords m := by
  rw [outerWords, outerWords, Node.children_skeleton,
    textsOf_skeleton isSpecifier_skeleton fun x _ hx => isPlain_of_isSpecifier hx, textsOf_skeleton]
  · intro x
    rw [Node.rule_skeleton]
  · intro x _ hx
    rw [of_decide_eq_true hx]
    rfl

theorem addPointerLevel_skeleton {level : Node} (h : level.Read) (hr : level.rule = .pointerLevel)
    (t : DeclaredType) : addPointerLevel t level.skeleton = addPointerLevel t level := by
  have hwords : ∀ x ∈ level.children, x.rule.isPlain = false := fun x hx =>
    (h.part_of (P := fun r => r.isPlain = false) hr (by decide) hx).2
  rw [addPointerLevel, addPointerLevel, Node.children_skeleton,
    textsOf_skeleton isSpecifier_skeleton fun x hx _ => hwords x hx,
    textsOf_skeleton (fun x => by rw [isSpecifier_skeleton]) fun x hx _ => hwords x hx]

theorem foldl_skeleton {f : DeclaredType → Node → DeclaredType} {xs : List Node}
    (h : ∀ x ∈ xs, ∀ t, f t x.skeleton = f t x) (t : DeclaredType) :
    (xs.map Node.skeleton).foldl f t = xs.foldl f t := by
  induction xs generalizing t with
  | nil => rfl
  | cons x xs ih =>
    rw [List.map_cons, List.foldl_cons, List.foldl_cons, h x List.mem_cons_self,
      ih fun y hy => h y (List.mem_cons_of_mem x hy)]

theorem addPointer_skeleton {p : Node} (h : p.Read) (t : DeclaredType) :
    addPointer t p.skeleton = addPointer t p := by
  rw [addPointer, addPointer, Node.childrenOf_skeleton]
  refine foldl_skeleton (fun level hlevel u => ?_) t
  obtain ⟨hmem, hrule⟩ := Node.mem_childrenOf.mp hlevel
  exact addPointerLevel_skeleton (h.part hmem).1 hrule u

theorem addArray_skeleton (t : DeclaredType) (suffix : Node) :
    addArray t suffix.skeleton = addArray t suffix := by
  rw [addArray, addArray, Node.childText?_skeleton _ rfl]

/-- The second way to read the types inside sees in the skeletons what the first sees. -/
structure Inner.Sees (inner inner' : Inner) : Prop where
  argument : ∀ a : Node, a.Read → a.rule = .typeArgument →
    inner.argument a = inner'.argument a.skeleton
  parameter : ∀ p : Node, p.Read → p.rule = .parameterDeclaration →
    inner.parameter p = inner'.parameter p.skeleton

theorem mapM_eq_mapM_map {α β : Type} {node : α → β} {f : α → Option DeclaredType}
    {g : β → Option DeclaredType} {xs : List α} (h : ∀ x ∈ xs, f x = g (node x)) :
    xs.mapM f = (xs.map node).mapM g := by
  induction xs with
  | nil => rfl
  | cons x xs ih =>
    rw [List.map_cons, List.mapM_cons, List.mapM_cons, h x List.mem_cons_self,
      ih fun y hy => h y (List.mem_cons_of_mem x hy)]

theorem foldlM_skeleton {f g : DeclaredType → Node → Option DeclaredType} {xs : List Node}
    (h : ∀ x ∈ xs, ∀ t, g t x.skeleton = f t x) (t : DeclaredType) :
    (xs.map Node.skeleton).foldlM g t = xs.foldlM f t := by
  induction xs generalizing t with
  | nil => rfl
  | cons x xs ih =>
    rw [List.map_cons, List.foldlM_cons, List.foldlM_cons, h x List.mem_cons_self]
    congr 1
    funext u
    exact ih (fun y hy => h y (List.mem_cons_of_mem x hy)) u

section Sees

variable {inner inner' : Inner} (h : inner.Sees inner') {m : Node} (hm : m.Read)
include h hm

theorem readGeneric_skeleton : readGeneric inner' m.skeleton = readGeneric inner m := by
  simp only [readGeneric, Node.childText?_skeleton m (r := .identifier) rfl, Node.child?_skeleton]
  congr 1
  funext name
  cases hprotocols : m.child? .protocolList with
  | some list =>
    have hnames : ((list.childrenOf .protocolName).map Node.skeleton).map Node.text =
        (list.childrenOf .protocolName).map Node.text := by
      rw [List.map_map]
      refine List.map_congr_left fun x hx => ?_
      exact Node.text_skeleton (by rw [(Node.mem_childrenOf.mp hx).2]; rfl)
    simp only [Option.map_some, Node.childrenOf_skeleton, hnames]
  | none =>
    cases hlist : m.child? .genericsSpecifier with
    | none => rfl
    | some list =>
      obtain ⟨hread, -⟩ := hm.of_child? hlist
      have harguments : (list.childrenOf .typeArgument).mapM inner.argument =
          ((list.childrenOf .typeArgument).map Node.skeleton).mapM inner'.argument := by
        refine mapM_eq_mapM_map fun a ha => ?_
        obtain ⟨hmem, ha⟩ := Node.mem_childrenOf.mp ha
        exact h.argument a (hread.part hmem).1 ha
      simp only [Option.map_some, Option.map_none, Option.bind_eq_bind, Option.bind_some,
        Node.childrenOf_skeleton, harguments]

theorem readSpecifier_skeleton : readSpecifier inner' m.skeleton = readSpecifier inner m := by
  simp only [readSpecifier, Node.children_skeleton, List.head?_map]
  cases hpart : m.children.head? with
  | none => rfl
  | some part =>
    obtain ⟨hread, -⟩ := hm.part (List.mem_of_mem_head? hpart)
    simp only [Option.map_some, Option.bind_eq_bind, Option.bind_some, Node.rule_skeleton]
    split
    · next hrule => rw [Node.text_skeleton (by rw [hrule]; rfl)]
    · rw [Node.childText?_skeleton part rfl]
    · exact readGeneric_skeleton h hread
    · next hrule => rw [Node.text_skeleton (by rw [hrule]; rfl)]
    · rfl

theorem readBase_skeleton : readBase inner' m.skeleton = readBase inner m := by
  simp only [readBase, Node.child?_skeleton, Node.children_skeleton,
    textsOf_skeleton isBaseQualifier_skeleton fun x _ hx => isPlain_of_isBaseQualifier hx]
  cases hs : m.child? .typeSpecifier with
  | none => rfl
  | some s =>
    obtain ⟨hread, -⟩ := hm.of_child? hs
    simp only [Option.map_some, Option.bind_eq_bind, Option.bind_some,
      readSpecifier_skeleton h hread]

theorem addBlock_skeleton (t : DeclaredType) :
    addBlock inner' t m.skeleton = addBlock inner t m := by
  simp only [addBlock, Node.child?_skeleton, Node.childText?_skeleton m (r := .identifier) rfl,
    Node.childText?_skeleton m (r := .nullabilitySpecifier) rfl]
  cases hlist : m.child? .blockParameters with
  | none => rfl
  | some list =>
    obtain ⟨hread, -⟩ := hm.of_child? hlist
    have hparameters : (list.childrenOf .parameterDeclaration).mapM inner.parameter =
        ((list.childrenOf .parameterDeclaration).map Node.skeleton).mapM inner'.parameter := by
      refine mapM_eq_mapM_map fun p hp => ?_
      obtain ⟨hmem, hp⟩ := Node.mem_childrenOf.mp hp
      exact h.parameter p (hread.part hmem).1 hp
    simp only [Option.map_some, Option.bind_eq_bind, Option.bind_some, Node.childrenOf_skeleton,
      hparameters]

theorem addAbstract_skeleton (t : DeclaredType) :
    addAbstract inner' t m.skeleton = addAbstract inner t m := by
  have hpart : ∀ part ∈ m.children, ∀ t,
      addAbstractPart inner' t part.skeleton = addAbstractPart inner t part := by
    intro part hpart t
    obtain ⟨hread, -⟩ := hm.part hpart
    rw [addAbstractPart, addAbstractPart, Node.rule_skeleton]
    split
    · rw [addPointer_skeleton hread]
    · exact addBlock_skeleton h hread t
    · rw [addArray_skeleton]
    · rfl
  rw [addAbstract, addAbstract, Node.children_skeleton]
  exact foldlM_skeleton hpart t

theorem addDeclarator_skeleton (t : DeclaredType) :
    addDeclarator inner' t m.skeleton = addDeclarator inner t m := by
  have hpointer : ∀ p, m.child? .pointer = some p → addPointer t p.skeleton = addPointer t p := by
    intro p hp
    obtain ⟨hread, hrule, -⟩ := hm.of_child? hp
    exact addPointer_skeleton hread t
  simp only [addDeclarator, Node.child?_skeleton]
  cases hd : m.child? .directDeclarator with
  | none => rfl
  | some direct =>
    obtain ⟨hread, -⟩ := hm.of_child? hd
    have hblock := addBlock_skeleton h hread
    simp only [Option.map_some, Option.bind_eq_bind, Option.bind_some, Node.child?_skeleton,
      Node.childrenOf_skeleton, foldl_skeleton fun x _ u => addArray_skeleton u x]
    cases hp : m.child? .pointer with
    | none => cases direct.child? .blockParameters <;> simp [hblock]
    | some p => cases direct.child? .blockParameters <;> simp [hblock, hpointer p hp]

theorem readTypeName_skeleton : readTypeName inner' m.skeleton = readTypeName inner m := by
  simp only [readTypeName, Node.child?_skeleton]
  cases hlist : m.child? .specifierQualifierList with
  | none => rfl
  | some list =>
    obtain ⟨hread, hrule, -⟩ := hm.of_child? hlist
    simp only [Option.map_some, Option.bind_eq_bind, Option.bind_some, outerWords_skeleton,
      readBase_skeleton h hread]
    congr 1
    funext base
    cases hd : m.child? .abstractDeclarator with
    | none => rfl
    | some d =>
      obtain ⟨hread, -⟩ := hm.of_child? hd
      simp only [Option.map_some, addAbstract_skeleton h hread]

theorem readParameter_skeleton : readParameter inner' m.skeleton = readParameter inner m := by
  simp only [readParameter, Node.child?_skeleton]
  cases hlist : m.child? .specifierQualifierList with
  | none => rfl
  | some list =>
    obtain ⟨hread, hrule, -⟩ := hm.of_child? hlist
    simp only [Option.map_some, Option.bind_eq_bind, Option.bind_some, outerWords_skeleton,
      readBase_skeleton h hread]
    congr 1
    funext base
    cases hd : m.child? .declarator with
    | some d =>
      obtain ⟨hread, hrule, -⟩ := hm.of_child? hd
      simp only [Option.map_some, addDeclarator_skeleton h hread]
    | none =>
      cases ha : m.child? .abstractDeclarator with
      | none => rfl
      | some d =>
        obtain ⟨hread, -⟩ := hm.of_child? ha
        simp only [Option.map_some, Option.map_none, addAbstract_skeleton h hread]

end Sees

/-! ### Arguments from their own parts -/

def readArgument (inner : Inner) (node : Node) : Option DeclaredType :=
  (readBase inner node).map fun base =>
    (outerWords node).wrap ((node.childrenOf .pointer).foldl addPointer base)

/-- How types are read for the given number of remaining levels if nothing is parsed again. -/
def Inner.direct : Nat → Inner
  | 0 => ⟨fun _ => none, fun _ => none⟩
  | n + 1 => { argument := readArgument (direct n), parameter := readParameter (direct n) }

theorem readTypeName_eq_readArgument {base declarator : List Node} (inner : Inner)
    (hbase : ∀ x ∈ base, x.rule ≠ .pointer)
    (hpointer : declarator = [] ∨ ∃ ms, declarator = [.branch .pointer ms]) :
    readTypeName inner (.typeName base declarator) =
      readArgument inner (.branch .typeArgument (base ++ declarator)) := by
  have hbase' : readBase inner (.branch .typeArgument (base ++ declarator)) =
      readBase inner (.branch .specifierQualifierList base) := by
    rcases hpointer with rfl | ⟨ms, rfl⟩
    · rw [List.append_nil]
      rfl
    · simp [readBase, Node.child?, Node.children, textsOf, isBaseQualifier, Node.rule]
  have houter : outerWords (.branch .typeArgument (base ++ declarator)) =
      outerWords (.branch .specifierQualifierList base) := by
    rcases hpointer with rfl | ⟨ms, rfl⟩
    · rw [List.append_nil]
      rfl
    · simp [outerWords, Node.children, textsOf, isSpecifier, Node.rule]
  have hstars : (Node.branch .typeArgument (base ++ declarator)).childrenOf .pointer =
      declarator := by
    have hnone : base.filter (fun x => decide (x.rule = .pointer)) = [] := by simpa using hbase
    change (base ++ declarator).filter _ = _
    rw [List.filter_append, hnone, List.nil_append]
    rcases hpointer with rfl | ⟨ms, rfl⟩ <;> rfl
  rw [readArgument, hbase', houter, hstars]
  rcases hpointer with rfl | ⟨ms, rfl⟩
  · change (readBase inner (.branch .specifierQualifierList base)).bind _ = _
    cases readBase inner (.branch .specifierQualifierList base) <;> rfl
  · change (readBase inner (.branch .specifierQualifierList base)).bind _ = _
    cases readBase inner (.branch .specifierQualifierList base) <;> rfl

theorem rule_ne_pointer_of_typeName {m : Node} (hm : m.Read) (hr : m.rule = .typeName)
    {base declarator : List Node} (hskel : m.skeleton = .typeName base declarator) :
    ∀ x ∈ base, x.rule ≠ .pointer := by
  obtain ⟨list, hlist⟩ := hm.exists_child? (by rw [hr]; rfl) .specifierQualifierList
    (by rw [hr]; rfl)
  obtain ⟨hread, hrule, -⟩ := hm.of_child? hlist
  have hbase : list.children.map Node.skeleton = base := by
    have hchild := m.child?_skeleton .specifierQualifierList
    rw [hskel, hlist] at hchild
    have hlist : Node.branch .specifierQualifierList base = list.skeleton := Option.some.inj hchild
    rw [← Node.children_skeleton, ← hlist]
    rfl
  rw [← hbase]
  intro x hx
  obtain ⟨y, hy, rfl⟩ := List.mem_map.mp hx
  rw [Node.rule_skeleton]
  exact (hread.part_of (P := (· ≠ .pointer)) hrule (by decide) hy).2

theorem Inner.ofLevels_sees_direct (n : Nat) : (Inner.ofLevels n).Sees (Inner.direct n) := by
  induction n with
  | zero => exact ⟨fun _ _ _ => rfl, fun _ _ _ => rfl⟩
  | succ n ih =>
    refine ⟨fun a ha hr => ?_, fun p hp hr => ?_⟩
    · obtain ⟨base, declarator, m, hskel, hpointer, hparse, hm⟩ := parseTypeName?_argument ha hr
      obtain ⟨hread, hrule⟩ := read_of_parseTypeName? hparse
      simp only [ofLevels, direct, hparse, Option.bind_some]
      rw [← readTypeName_skeleton ih hread, hm, hskel,
        readTypeName_eq_readArgument _ (rule_ne_pointer_of_typeName hread hrule hm) hpointer]
    · exact (readParameter_skeleton ih hp).symm

/-- A spelling denotes the type that the skeleton of its parse tree denotes. -/
theorem readWithin_of_shape {s : String} {n : Node} (d : Nat)
    (h : (Expr.call .typeName).shape (Expr.skipGap s.toList) = some ([], [n])) :
    readWithin d s = readTypeName (.direct d) n := by
  obtain ⟨m, hparse, rfl⟩ := parseTypeName?_of_shape h
  obtain ⟨hread, -⟩ := read_of_parseTypeName? hparse
  rw [readWithin, hparse, Option.bind_some,
    readTypeName_skeleton (Inner.ofLevels_sees_direct d) hread]

end DeclaredType

end HeaderBridge
