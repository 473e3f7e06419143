import HeaderBridge.Proofs.Declaration.Refinement

/-! # What stands where in an outline

The outline of a header has its types at the top, each with a name. The lists of
protocols and of instance variables stand in the types, and every keyword stands
where it takes effect: the access words among instance variables, the section
words among members, and the audit markers at the top or among members. Nothing
of this kind stands any deeper.
-/

namespace HeaderBridge.Outline

open Grammar Declaration

/-! ### Places for nodes -/

def typeTags : List Tag := [.classInterface, .categoryInterface, .protocolDeclaration]

/-- A keyword takes effect in a node with the given tag. -/
def Keyword.StandsIn : Keyword → Tag → Prop
  | .auditBegin, t | .auditEnd, t => t = .header ∨ t ∈ typeTags
  | .atOptional, t | .atRequired, t => t ∈ typeTags
  | _, t => t = .ivarList

/-- A node of the given kind has its place in a node with the given tag. -/
def Kind.StandsIn : Kind → Tag → Prop
  | .header, _ => False
  | .classInterface slot, t | .categoryInterface slot, t | .protocolDeclaration slot, t =>
    slot.isValid = true ∧ t = .header
  | .protocolList, t | .ivarList, t => t ∈ typeTags
  | .keyword k, t => k.StandsIn t
  | _, _ => True

theorem Tag.mem_all (t : Tag) : t ∈ Tag.all := by
  cases t <;> simp [Tag.all]

theorem Kind.standsIn_list {k : Kind} {t : Tag} (h : k.tag = .ivarList ∨ k.tag = .protocolList) :
    k.StandsIn t ↔ t ∈ typeTags := by
  cases k <;> simp_all [Kind.tag, Kind.StandsIn]

theorem Kind.standsIn_of_tag {k : Kind}
    (h : k.tag ∉ .header :: .ivarList :: .protocolList :: .keyword :: typeTags) (t : Tag) :
    k.StandsIn t := by
  cases k <;> simp_all [Kind.tag, Kind.StandsIn, typeTags]

theorem Kind.StandsIn.tag_notMem {k : Kind} {t : Tag} (h : k.StandsIn t) (ht : t ≠ .header) :
    k.tag ∉ .header :: typeTags := by
  cases k <;> simp_all [StandsIn, Kind.tag, typeTags]

/-- Every node of a tree has its place. -/
inductive Sketch.Placed : Sketch → Prop where
  | mk {kind : Kind} {span : Option Span} {parts : List Sketch} :
      (∀ s ∈ parts, s.kind.StandsIn kind.tag) → (∀ s ∈ parts, s.Placed) →
      Placed (.mk kind span parts)

theorem Sketch.Placed.parts {s : Sketch} (h : s.Placed) :
    ∀ q ∈ s.parts, q.kind.StandsIn s.kind.tag ∧ q.Placed := by
  cases h with
  | mk hstands hplaced => exact fun q hq => ⟨hstands q hq, hplaced q hq⟩

theorem Sketch.placed_leaf (k : Kind) (n : Node) : (Sketch.leaf k n).Placed :=
  .mk (by simp) (by simp)

/-! ### Places for rules -/

/-- The tags of the nodes in which a rule is met. Only the rules of the nodes that have
their place are told apart. -/
def hosts : Rule → List Tag
  | .translationUnit => []
  | .classInterface | .categoryInterface | .protocolDeclaration => [.header]
  | .nonnullAuditMarker => .header :: typeTags
  | .interfaceDeclarationList | .protocolDeclarationList | .protocolSectionKeyword
  | .instanceVariables => typeTags
  | .visibilitySection | .accessModifier => [.ivarList]
  | _ => Tag.all

def keywordRules : List Rule := [.accessModifier, .protocolSectionKeyword, .nonnullAuditMarker]

/-- Where the leaves of a rule are added. -/
def Scope.opened (c : Scope) (r : Rule) : Scope :=
  { c with tag := ((c.opens? r).map Kind.tag).getD c.tag }

def Scope.within (c : Scope) (r : Rule) : Scope := (c.opened r).inside r

structure Scope.Admits (c : Scope) (r : Rule) : Prop where
  host : c.tag ∈ hosts r
  /-- Lists of protocols that are no part of a generic type belong to types. -/
  list : r = .protocolList → c.inGeneric = true ∨ c.tag ∈ typeTags

theorem Scope.Admits.part {c : Scope} {r r' : Rule} (h : c.Admits r) (hr : r.kind = .branch)
    (hr' : r' ∈ r.body.seen.flatMap Rule.leaves) : (c.within r).Admits r' := by
  have htag : (c.within r).tag = (Scope.within { tag := c.tag, inGeneric := c.inGeneric } r).tag :=
    rfl
  have hall : ∀ r ∈ Rule.all, r.kind = .branch → ∀ t ∈ hosts r, ∀ g : Bool,
      ∀ r' ∈ r.body.seen.flatMap Rule.leaves,
        (Scope.within { tag := t, inGeneric := g } r).tag ∈ hosts r' ∧
        (r' = .protocolList → r = .genericTypeSpecifier ∨
          (Scope.within { tag := t, inGeneric := g } r).tag ∈ typeTags) := by
    decide +kernel
  obtain ⟨hhost, hlist⟩ := Rule.forall_of_all hall r hr c.tag h.host c.inGeneric r' hr'
  constructor
  · rw [htag]
    exact hhost
  · intro heq
    rcases hlist heq with rfl | hmem
    · left
      simp [within, inside]
    · right
      rw [htag]
      exact hmem

/-! ### Trees of parse nodes -/

section Sketches

variable {types : TypeReader} {c : Scope} {n : Node}

/-- The leaves that a parse node may add: their kinds, and the parse nodes whose spans they have. -/
inductive LeafOf (types : TypeReader) (n : Node) : Kind → Node → Prop where
  | superclass {x : Node} : n.child? .superclassName = some x →
    LeafOf types n (.superclassName x.text) x
  | category {x : Node} : n.child? .categoryName = some x → LeafOf types n (.categoryName x.text) x
  | piece {r : Rule} {x : Node} : r ∈ [Rule.selector, .identifier] → n.child? r = some x →
      LeafOf types n (.identifier x.text) x
  | protocolName : n.rule = .protocolName → LeafOf types n (.protocolName n.text) n
  | keyword {k : Keyword} : n.rule ∈ keywordRules → Keyword.ofSpelling? n.text = some k →
      LeafOf types n (.keyword k) n
  | propertyName {field specifiers declarator : Node} {name : String} :
    n.rule = .propertyDeclaration →
      propertyParts? n = some (field, specifiers, declarator) →
      DeclaredType.declaratorName? declarator = some name →
      LeafOf types n (.identifier name) declarator
  | propertyType {field specifiers declarator : Node} {t : DeclaredType} :
      propertyParts? n = some (field, specifiers, declarator) →
      types.declaration specifiers declarator = some t → LeafOf types n (.typeName t) field
  | modifier {m : Modifier} : modifierOf? n = some m → LeafOf types n (.modifier m) n
  | typeName {t : DeclaredType} : types.typeName n = some t → LeafOf types n (.typeName t) n
  | nullability : n.rule = .nullabilitySpecifier → LeafOf types n (.nullability n.text) n

theorem mem_leaves {s : Sketch} (hs : s ∈ leaves types c n) :
    (∃ k m, LeafOf types n k m ∧ s = .leaf k m) ∨
      ∃ list field specifiers, n.child? .fieldDeclaratorList = some list ∧ field ∈ list.children ∧
        ivarSketch? types specifiers field = some s := by
  have hmap : ∀ {α : Type} {x : Option α} {k : α → Kind} {m : α → Node},
      s ∈ (x.map fun a => Sketch.leaf (k a) (m a)).toList → (∀ a ∈ x, LeafOf types n (k a) (m a)) →
      ∃ k m, LeafOf types n k m ∧ s = .leaf k m := by
    rintro α x k m hs hk
    obtain ⟨a, ha, rfl⟩ := Option.map_eq_some_iff.mp (Option.mem_toList.mp hs)
    exact ⟨_, _, hk a ha, rfl⟩
  have hname : s ∈ Sketch.leaf? .superclassName (n.child? .superclassName)
      ++ Sketch.leaf? .categoryName (n.child? .categoryName) →
      ∃ k m, LeafOf types n k m ∧ s = .leaf k m :=
    fun hs => (List.mem_append.mp hs).elim (hmap · fun _ => .superclass) (hmap · fun _ => .category)
  unfold leaves at hs
  split at hs
  · exact .inl (hname hs)
  · exact .inl (hname hs)
  · next hr =>
    split at hs
    · exact .inl ⟨_, _, .protocolName hr, List.mem_singleton.mp hs⟩
    · cases hs
  · next hr => exact .inl (hmap hs fun _ => .keyword (by rw [hr]; decide))
  · next hr => exact .inl (hmap hs fun _ => .keyword (by rw [hr]; decide))
  · next hr => exact .inl (hmap hs fun _ => .keyword (by rw [hr]; decide))
  · split at hs
    · split at hs
      · next specifiers list _ hlist =>
        obtain ⟨field, hfield, hs⟩ := List.mem_filterMap.mp hs
        exact .inr ⟨list, field, specifiers, hlist, (Node.mem_childrenOf.mp hfield).1, hs⟩
      · cases hs
    · cases hs
  · next hr =>
    split at hs
    · cases hs
    · next hparts =>
      exact .inl ((List.mem_append.mp hs).elim (hmap · fun _ => .propertyName hr hparts)
        (hmap · fun _ => .propertyType hparts))
  · exact .inl (hmap hs fun _ => .modifier)
  · exact .inl (hmap hs fun _ => .piece (by decide))
  · exact .inl ((List.mem_append.mp hs).elim (hmap · fun _ => .piece (by decide))
      (hmap · fun _ => .piece (by decide)))
  · exact .inl (hmap hs fun _ => .typeName)
  · next hr =>
    split at hs
    · cases hs
    · exact .inl ⟨_, _, .nullability hr, List.mem_singleton.mp hs⟩
  · cases hs

theorem sketches_eq_opened (types : TypeReader) (c : Scope) (n : Node) : sketches types c n =
    match c.opens? n.rule with
    | some kind => [.mk (filled n kind) (some (spanOf n))
        (leaves types (c.opened n.rule) n ++ sketchesAll types (c.within n.rule) n.children)]
    | none =>
      leaves types (c.opened n.rule) n ++ sketchesAll types (c.within n.rule) n.children := by
  rw [sketches_eq]
  cases hopens : c.opens? n.rule <;> simp [Scope.within, Scope.opened, hopens]

/-- What holds of the leaves of all parse nodes, and of an opened node where it holds of its parts,
holds of all trees that are added. -/
theorem forall_sketches {Q : Scope → Node → Prop} {P : Tag → Node → Sketch → Prop}
    (hpart : ∀ {c n x}, Q c n → x ∈ n.children → Q (c.within n.rule) x ∧ ∀ {t s}, P t x s → P t n s)
    (hleaf : ∀ {c n s}, Q c n → s ∈ leaves types (c.opened n.rule) n → P (c.opened n.rule).tag n s)
    (hopen : ∀ {c n kind parts}, Q c n → c.opens? n.rule = some kind →
      (filled n kind).tag = kind.tag →
      (∀ s ∈ parts, P kind.tag n s) → P c.tag n (.mk (filled n kind) (some (spanOf n)) parts)) :
    ∀ (n : Node) (c : Scope), Q c n → ∀ s ∈ sketches types c n, P c.tag n s
  | .mk r pos t ns, c, hn, s, hs => by
    have hparts : ∀ s ∈
        leaves types (c.opened r) (.mk r pos t ns) ++ sketchesAll types (c.within r) ns,
        P (c.opened r).tag (.mk r pos t ns) s := by
      intro s hs
      rcases List.mem_append.mp hs with hs | hs
      · exact hleaf hn hs
      · rw [sketchesAll_eq] at hs
        obtain ⟨x, hx, hs⟩ := List.mem_flatMap.mp hs
        obtain ⟨hq, hmono⟩ := hpart hn hx
        exact hmono (forall_sketches hpart hleaf hopen x _ hq s hs)
    rw [sketches_eq_opened] at hs
    cases hopens : c.opens? (Node.mk r pos t ns).rule with
    | none =>
      have htag : (c.opened r).tag = c.tag := by
        rw [Scope.opened, show c.opens? r = none from hopens]; rfl
      rw [hopens] at hs
      exact htag ▸ hparts s hs
    | some kind =>
      have htag : (c.opened r).tag = kind.tag := by
        rw [Scope.opened, show c.opens? r = some kind from hopens]; rfl
      rw [hopens, List.mem_singleton] at hs
      subst hs
      exact hopen hn hopens (tag_filled rfl fun _ => (lookup_of_opens? hopens).1) (htag ▸ hparts)

/-- A keyword is met where it takes effect. -/
theorem standsIn_keyword (hn : n.Read) (hr : n.rule ∈ keywordRules) (hc : c.tag ∈ hosts n.rule)
    {k : Keyword} (hk : Keyword.ofSpelling? n.text = some k) : k.StandsIn c.tag := by
  simp only [keywordRules, List.mem_cons, List.not_mem_nil, or_false] at hr
  rcases hr with hr | hr | hr
  · have htext := hn.text_mem (by rw [hr]; rfl) (by rw [hr]; rfl)
    rw [hr, hosts, List.mem_singleton] at hc
    simp only [List.mem_cons, List.not_mem_nil, or_false] at htext
    rcases htext with h | h | h | h <;> rw [h] at hk <;> cases hk <;> exact hc
  · have htext := hn.text_mem (by rw [hr]; rfl) (by rw [hr]; rfl)
    rw [hr, hosts] at hc
    rcases List.mem_pair.mp htext with h | h <;> rw [h] at hk <;> cases hk <;> exact hc
  · have htext := hn.text_mem (by rw [hr]; rfl) (by rw [hr]; rfl)
    rw [hr, hosts, List.mem_cons] at hc
    rcases List.mem_pair.mp htext with h | h <;> rw [h] at hk <;> cases hk <;> exact hc

theorem placed_leaves (hn : n.Read) (hc : n.rule ∈ keywordRules → c.tag ∈ hosts n.rule) {s : Sketch}
    (hs : s ∈ leaves types c n) : s.kind.StandsIn c.tag ∧ s.Placed := by
  rcases mem_leaves hs with ⟨k, m, hleaf, rfl⟩ | ⟨list, field, specifiers, -, -, hs⟩
  · refine ⟨?_, Sketch.placed_leaf k m⟩
    cases hleaf with
    | keyword hr hk => exact standsIn_keyword hn hr (hc hr) hk
    | _ => trivial
  · simp only [ivarSketch?, Option.bind_eq_bind, Option.bind_eq_some_iff, Option.pure_def,
      Option.some.injEq] at hs
    obtain ⟨declarator, -, name, -, type, -, rfl⟩ := hs
    refine ⟨trivial, .mk ?_ ?_⟩ <;> intro q hq <;> rcases List.mem_pair.mp hq with rfl | rfl
    · trivial
    · trivial
    · exact .mk (by simp) (by simp)
    · exact Sketch.placed_leaf _ _

theorem filled_of_name? (hr : n.rule ∈ typeRules) {name : String}
    (hname : Direct.name? n = some name) (k : Kind) : filled n k = k.setName name := by
  unfold Direct.name? at hname
  simp only [typeRules, List.mem_cons, List.not_mem_nil, or_false] at hr
  rcases hr with hr | hr | hr
  · rw [if_neg (by rw [hr]; decide)] at hname
    simp only [filled, hr, hname]
  · rw [if_neg (by rw [hr]; decide)] at hname
    simp only [filled, hr, hname]
  · rw [if_pos hr] at hname
    simp only [filled, hr, hname]

theorem standsIn_opened (hn : n.Read) (hc : c.Admits n.rule) {kind : Kind}
    (h : c.opens? n.rule = some kind) : (filled n kind).StandsIn c.tag := by
  obtain ⟨hlookup, -⟩ := lookup_of_opens? h
  have hall : ∀ r ∈ Rule.all, ∀ tag ∈ Tag.all, headerTargets.lookup r = some (.fresh tag) →
      (r ∈ typeRules ∧ tag ∈ typeTags ∧ ∀ t ∈ hosts r, t = .header) ∨
      (tag = .ivarList ∧ ∀ t ∈ hosts r, t ∈ typeTags) ∨ (tag = .protocolList ∧ r = .protocolList) ∨
      tag ∉ .header :: .ivarList :: .protocolList :: .keyword :: typeTags := by decide +kernel
  have htag : (filled n kind).tag = kind.tag := tag_filled rfl fun _ => hlookup
  rcases Rule.forall_of_all hall n.rule _ (Tag.mem_all kind.tag) hlookup with
    ⟨htype, hmem, hhost⟩ | ⟨heq, hhost⟩ | ⟨heq, hlist⟩ | hnone
  · -- a type is met at the top, and its name is filled in
    obtain ⟨name, hname⟩ := exists_name? hn htype
    rw [filled_of_name? htype hname, hhost _ hc.host]
    cases kind <;> simp [Kind.tag, typeTags] at hmem <;> exact ⟨rfl, rfl⟩
  · rw [heq] at htag
    exact (Kind.standsIn_list (.inl htag)).mpr (hhost _ hc.host)
  · rw [heq] at htag
    have hmem : c.tag ∈ typeTags := by
      refine (hc.list hlist).resolve_left fun hg => ?_
      simp [Scope.opens?, hg, hlist] at h
    exact (Kind.standsIn_list (.inr htag)).mpr hmem
  · rw [← htag] at hnone
    exact Kind.standsIn_of_tag hnone c.tag

theorem placed_sketches (types : TypeReader) (n : Node) (c : Scope) (hn : n.Read)
    (hc : c.Admits n.rule) : ∀ s ∈ sketches types c n, s.kind.StandsIn c.tag ∧ s.Placed := by
  refine forall_sketches (Q := fun c n => n.Read ∧ c.Admits n.rule)
    (P := fun t _ s => s.kind.StandsIn t ∧ s.Placed) (fun h hx => ?_) (fun h hs => ?_)
    (fun h hopens htag hparts => ?_) n c ⟨hn, hc⟩
  · obtain ⟨hread, hbranch, hrule⟩ := h.1.part hx
    exact ⟨⟨hread, h.2.part hbranch hrule⟩, fun hs => hs⟩
  · -- the rules of keywords open nothing
    refine placed_leaves h.1 (fun hr => ?_) hs
    have hall : ∀ r ∈ keywordRules, headerTargets.lookup r = none := by decide
    rw [Scope.opened, Scope.opens?, hall _ hr, ite_self]
    exact h.2.host
  · exact ⟨standsIn_opened h.1 h.2 hopens, .mk (fun q hq => htag ▸ (hparts q hq).1) fun q hq =>
      (hparts q hq).2⟩

end Sketches

/-! ### Outlines -/

/-- The nodes of an outline are numbered in pre-order, and each has its place. -/
structure Arranged (o : Outline) : Prop where
  layout : Layout o root 1 (o.childrenOf root) o.size
  top : o.kindOf? root = some .header
  stands : ∀ p i, i ∈ o.childrenOf p →
    ∃ t k, o.kindOf? p = some t ∧ o.kindOf? i = some k ∧ k.StandsIn t.tag

theorem Arranged.kind_of_mem {o : Outline} (ha : Arranged o) {p i : Nat} {t : Kind}
    (ht : o.kindOf? p = some t) (hi : i ∈ o.childrenOf p) :
    ∃ k, o.kindOf? i = some k ∧ k.StandsIn t.tag := by
  obtain ⟨t', k, ht', hk, hstands⟩ := ha.stands p i hi
  obtain rfl : t = t' := Option.some.inj (ht.symm.trans ht')
  exact ⟨k, hk, hstands⟩

/-- Every node of a layout holds a tree with a property that trees hand down to their parts, if the
trees at its top have it. -/
theorem Layout.exists_sketch {P : Sketch → Prop} (hP : ∀ s, P s → ∀ q ∈ s.parts, P q) {o : Outline}
    {p a c : Nat} {is : List Nat} (h : Layout o p a is c) :
    ∀ {ss : List Sketch}, Sketch.StandAt o ss is → (∀ s ∈ ss, P s) →
      ∀ i, a ≤ i → i < c → ∃ s : Sketch, s.StandsAt o i ∧ P s := by
  induction h with
  | nil => intro ss _ _ i hi hic; omega
  | @cons p a b c is _ _ _ ih ih' =>
    rintro (_ | ⟨s, ss⟩) hstand hss i hi hic
    · cases hstand
    obtain ⟨_, _, heq, hs, hrest⟩ := hstand
    obtain ⟨rfl, rfl⟩ := List.cons.inj heq
    have hown := hss s List.mem_cons_self
    rcases Nat.lt_or_ge i b with hib | hbi
    · rcases Nat.eq_or_lt_of_le hi with rfl | hlt
      · exact ⟨s, hs, hown⟩
      · exact ih (Sketch.standAt_iff.mpr hs.childrenOf) (hP s hown) i hlt hib
    · exact ih' hrest (fun q hq => hss q (List.mem_cons_of_mem _ hq)) i hbi hic

theorem Sketch.StandAt.exists_of_mem {o : Outline} {ss : List Sketch} {ids : List Nat} {i : Nat}
    (h : StandAt o ss ids) (hi : i ∈ ids) : ∃ s ∈ ss, s.StandsAt o i := by
  induction ss generalizing ids with
  | nil =>
    obtain rfl : ids = [] := h
    cases hi
  | cons s ss ih =>
    obtain ⟨id, rest, rfl, hs, hrest⟩ := h
    rcases List.mem_cons.mp hi with rfl | hi
    · exact ⟨s, List.mem_cons_self, hs⟩
    · obtain ⟨q, hq, hstands⟩ := ih hrest hi
      exact ⟨q, List.mem_cons_of_mem _ hq, hstands⟩

theorem arranged_plantAll {ss : List Sketch}
    (hss : ∀ s ∈ ss, s.kind.StandsIn .header ∧ s.Placed) :
    Arranged (Outline.empty.plantAll root ss) := by
  have hroot : root < Outline.empty.size := by decide
  obtain ⟨-, -, ids, hids, -⟩ := planted_plantAll hroot ss
  have hstand := standAt_root ss
  obtain ⟨-, -, hlayout⟩ := layout_plantAll ss rfl
  generalize Outline.empty.plantAll root ss = o at hids hstand hlayout ⊢
  have htop : o.kindOf? root = some .header := by
    rw [kindOf?, hids]
    rfl
  refine ⟨hlayout, htop, fun p i hi => ?_⟩
  -- a node holds a tree, and its children hold the parts of the tree
  have hparts : ∃ t parts, o.kindOf? p = some t ∧ Sketch.StandAt o parts (o.childrenOf p) ∧
      ∀ s ∈ parts, s.kind.StandsIn t.tag := by
    rcases Nat.eq_zero_or_pos p with rfl | hpos
    · exact ⟨_, ss, htop, hstand, fun s hs => (hss s hs).1⟩
    · have hp : p < o.size := by
        by_contra hge
        rw [childrenOf_of_size_le (Nat.le_of_not_lt hge)] at hi
        cases hi
      obtain ⟨s, hs, hplaced⟩ := hlayout.exists_sketch (fun _ h q hq => (h.parts q hq).2) hstand
        (fun s hs => (hss s hs).2) p hpos hp
      exact ⟨_, s.parts, hs.kindOf?, Sketch.standAt_iff.mpr hs.childrenOf,
        fun q hq => (hplaced.parts q hq).1⟩
  obtain ⟨t, parts, ht, hstand, hstands⟩ := hparts
  obtain ⟨s, hs, hi⟩ := hstand.exists_of_mem hi
  exact ⟨t, s.kind, ht, hi.kindOf?, hstands s hs⟩

theorem arranged_of_parse {types : TypeReader} {text : String} {tree : Node} {o : Outline}
    (h : Header.parse text = .ok tree) (ho : ofTreeWith types tree = .ok o) : Arranged o := by
  rw [ofTreeWith_eq types h] at ho
  obtain rfl := Except.ok.inj ho
  refine arranged_plantAll fun s hs => ?_
  obtain ⟨n, hn, hs⟩ := List.mem_flatMap.mp hs
  obtain ⟨hread, hrule⟩ := Header.read_of_parse h n hn
  have hall : ∀ r ∈ Rule.translationUnit.body.seen.flatMap Rule.leaves,
      .header ∈ hosts r ∧ r ≠ .protocolList := by decide
  exact placed_sketches types n _ hread
    ⟨(hall _ hrule).1, fun heq => absurd heq (hall _ hrule).2⟩ s hs

end HeaderBridge.Outline
