import HeaderBridge.Proofs.Declaration.Settings
import HeaderBridge.Proofs.Outline.Arrangement

/-! # Lists of protocols

The same angle brackets hold the protocols that a type adopts, the arguments of
generic types and the protocols that an object has to conform to. Only the first
are lists of protocols in the outline, one for each list that a type is declared
with, and only these become conformances.
-/

namespace HeaderBridge

open Grammar

namespace Outline

variable {o : Outline} (ha : Arranged o)
include ha

/-! ### Lists in an outline -/

theorem Arranged.tag_of_protocolList {p i : Nat} {t : Kind} (ht : o.kindOf? p = some t)
    (hi : i ∈ o.childrenOf p) (h : o.hasTag .protocolList i = true) : t.tag ∈ typeTags := by
  obtain ⟨k, hk, hstands⟩ := ha.kind_of_mem ht hi
  rw [hasTag, hk] at h
  exact (Kind.standsIn_list (.inr (by simpa using h))).mp hstands

theorem Arranged.filter_protocolList_eq_nil {p a c : Nat} {is : List Nat} (hl : Layout o p a is c) :
    ∀ {t : Kind}, o.kindOf? p = some t → t.tag ∉ .header :: typeTags →
      (∀ i ∈ is, i ∈ o.childrenOf p) →
      (List.range' a (c - a)).filter (o.hasTag .protocolList) = [] := by
  induction hl with
  | nil => simp
  | @cons p a b c is _ hb hc ih ih' =>
    intro t ht htag his
    have hmem := his a List.mem_cons_self
    have hnot : ¬ o.hasTag .protocolList a = true := fun h =>
      htag (List.mem_cons_of_mem _ (ha.tag_of_protocolList ht hmem h))
    obtain ⟨k, hk, hstands⟩ := ha.kind_of_mem ht hmem
    have hktag := hstands.tag_notMem fun h => htag (h ▸ List.mem_cons_self)
    rw [Layout.range'_eq hb.le hc.le, List.filter_cons_of_neg hnot, List.filter_append,
      ih hk hktag fun _ hi => hi, ih' ht htag fun i hi => his i (List.mem_cons_of_mem _ hi)]
    rfl

theorem Arranged.filter_protocolList_below {p a c : Nat} {is : List Nat} (hl : Layout o p a is c)
    {t : Kind} (ht : o.kindOf? p = some t) (htag : t.tag ≠ .header)
    (his : ∀ i ∈ is, i ∈ o.childrenOf p) :
    (List.range' a (c - a)).filter (o.hasTag .protocolList) =
      is.filter (o.hasTag .protocolList) := by
  induction hl with
  | nil => simp
  | @cons p a b c is _ hb hc _ ih =>
    obtain ⟨k, hk, hstands⟩ := ha.kind_of_mem ht (his a List.mem_cons_self)
    rw [Layout.range'_eq hb.le hc.le, List.filter_cons, List.filter_append,
      ha.filter_protocolList_eq_nil hb hk (hstands.tag_notMem htag) fun _ hi => hi,
      ih ht fun i hi => his i (List.mem_cons_of_mem _ hi), List.nil_append, List.filter_cons]

theorem Arranged.filter_protocolList_root {a c : Nat} {is : List Nat} (hl : Layout o root a is c)
    (his : ∀ i ∈ is, i ∈ o.childrenOf root) :
    (List.range' a (c - a)).filter (o.hasTag .protocolList) =
      is.flatMap fun i => o.childrenWith i .protocolList := by
  generalize hroot : root = p at hl his
  induction hl with
  | nil => simp
  | @cons p a b c is _ hb hc _ ih =>
    subst hroot
    have hmem := his a List.mem_cons_self
    have hnot : ¬ o.hasTag .protocolList a = true := fun h =>
      absurd (ha.tag_of_protocolList ha.top hmem h) (by decide)
    obtain ⟨k, hk, hstands⟩ := ha.kind_of_mem ha.top hmem
    have hktag : k.tag ≠ .header := by
      intro h
      cases k <;> simp_all [Kind.tag, Kind.StandsIn]
    rw [Layout.range'_eq hb.le hc.le, List.filter_cons_of_neg hnot, List.filter_append,
      ha.filter_protocolList_below hb hk hktag fun _ hi => hi, List.flatMap_cons,
      ih rfl fun i hi => his i (List.mem_cons_of_mem _ hi)]
    rfl

theorem Arranged.descendants_protocolList :
    (o.descendants root).filter (o.hasTag .protocolList) =
      (o.childrenOf root).flatMap fun i => o.childrenWith i .protocolList := by
  rw [ha.layout.descendants_eq (Nat.le_refl _)]
  exact ha.filter_protocolList_root ha.layout fun _ hi => hi

omit ha

/-! ### Lists in a parse tree -/

/-- A node of an outline that stands for a list of protocols, with one child for each name. -/
structure ListsProtocols (o : Outline) (id : Nat) (list : Node) : Prop where
  kind : o.kindOf? id = some .protocolList
  span : (o.get? id).bind Entry.span = some (spanOf list)
  names : List.Forall₂ (fun i name => o.kindOf? i = some (.protocolName name.text))
    (o.childrenOf id) (list.childrenOf .protocolName)

variable {types : TypeReader} {n : Node}

theorem forall₂_listsProtocols {t : Tag} {lists : List Node} {ids : List Nat}
    (hlists : ∀ list ∈ lists, list.Read ∧ list.rule = .protocolList)
    (h : Sketch.StandAt o (lists.flatMap (sketches types { tag := t })) ids) :
    List.Forall₂ (ListsProtocols o) ids lists := by
  induction lists generalizing ids with
  | nil =>
    obtain rfl : ids = [] := h
    exact .nil
  | cons list lists ih =>
    obtain ⟨hread, hr⟩ := hlists list List.mem_cons_self
    rw [List.flatMap_cons, sketches_protocolList_eq types t hread hr] at h
    obtain ⟨id, rest, rfl, hid, hrest⟩ := h
    refine .cons ⟨hid.kindOf?, ?_, ?_⟩ (ih (fun m hm => hlists m (List.mem_cons_of_mem _ hm)) hrest)
    · obtain ⟨e, he, -, hspan, -⟩ := hid
      rw [he]
      exact hspan
    · have hnames := hid.childrenOf
      rw [Sketch.parts_mk, List.forall₂_map_right_iff] at hnames
      exact hnames.imp fun i name hi => hi.kindOf?

theorem filter_members (hn : n.Read) :
    (Declaration.Direct.members n).filter (·.rule = .protocolList) =
      n.childrenOf .protocolList := by
  have hpart : ∀ c ∈ n.children,
      (if c.rule = .interfaceDeclarationList ∨ c.rule = .protocolDeclarationList then c.children
        else [c]).filter (·.rule = .protocolList) =
          if c.rule ∈ [Rule.protocolList] then [c] else [] := by
    intro c hc
    have hread := (hn.part hc).1
    by_cases hlist : c.rule = .interfaceDeclarationList ∨ c.rule = .protocolDeclarationList
    · have hall : ∀ r ∈ ([.interfaceDeclarationList, .protocolDeclarationList] : List Rule),
          r ∉ [Rule.protocolList] ∧ ∀ r' ∈ r.body.seen.flatMap Rule.leaves, r' ≠ .protocolList := by
        decide
      obtain ⟨hne, hparts⟩ := hall c.rule (by simpa using hlist)
      rw [if_pos hlist, if_neg hne, List.filter_eq_nil_iff]
      intro x hx
      simpa using hparts _ (hread.part hx).2.2
    · rw [if_neg hlist]
      by_cases hc : c.rule = .protocolList <;> simp [hc]
  rw [Declaration.Direct.members, List.filter_flatMap, Node.flatMap_eq_filter hpart]
  simp [Node.childrenOf]

/-- The lists of protocols in the tree of a type are those that the type is declared with. -/
theorem HoldsType.partsWith_protocolList {s : Sketch} (hn : n.Read) (hr : n.rule ∈ typeRules)
    (hs : HoldsType types n s) : ∃ t, s.partsWith .protocolList =
      (n.childrenOf .protocolList).flatMap (sketches types { tag := t }) := by
  obtain ⟨t, ht, hparts⟩ := hs.parts
  refine ⟨t, ?_⟩
  have hleaves : (Sketch.leaf? .superclassName (n.child? .superclassName)
      ++ Sketch.leaf? .categoryName (n.child? .categoryName)).filter
        (fun q => decide (q.kind.tag = .protocolList)) = [] := by
    cases n.child? .superclassName <;> cases n.child? .categoryName <;>
      simp [Sketch.leaf?, Kind.tag]
  rw [Sketch.partsWith, hparts, List.filter_append, hleaves, List.nil_append, ← filter_members hn]
  refine filter_flatMap_tag fun x hx q hq => ?_
  obtain ⟨hread, hrule⟩ := read_of_mem_members hn hr hx
  constructor
  · exact (tag_of_mem_member hread hrule ht hq).2
  · intro hlist
    rw [sketches_protocolList_eq types t hread hlist, List.mem_singleton] at hq
    rw [hq]
    rfl

theorem parts_of_not_type (hn : n.Read) (hr : n.rule = .nonnullAuditMarker ∨ n.rule ∉ declaring)
    (hp : n.rule ≠ .protocolList) : ∀ s ∈ sketches types { tag := .header } n, s.parts = [] := by
  intro s hs
  by_cases hmarker : n.rule = .nonnullAuditMarker
  · rw [sketches_of_token hn (by rw [hmarker]; rfl) (by rw [hmarker]; rfl) (by rw [hmarker]; rfl),
      leaves, hmarker, Option.mem_toList, Option.map_eq_some_iff] at hs
    obtain ⟨k, -, rfl⟩ := hs
    rfl
  · rw [sketches_of_not_declaring hn (hr.resolve_left hmarker) hp (by decide),
      annotationLeaves] at hs
    simp only [reduceCtorEq, Bool.false_eq_true, or_self, if_false, List.mem_map] at hs
    obtain ⟨word, -, rfl⟩ := hs
    rfl

/-- The lists of protocols of an outline stand for those that the types of the header are
declared with. -/
theorem forall₂_protocolLists {ns : List Node}
    (hns : ∀ n ∈ ns, n.Read ∧ n.rule ∈ Rule.translationUnit.body.seen.flatMap Rule.leaves)
    {ids : List Nat} (h : Sketch.StandAt o (ns.flatMap (sketches types { tag := .header })) ids) :
    List.Forall₂ (ListsProtocols o) (ids.flatMap fun i => o.childrenWith i .protocolList)
      ((ns.flatMap (Node.occurrences typeRules)).flatMap (·.childrenOf .protocolList)) := by
  have hall : ∀ r ∈ Rule.translationUnit.body.seen.flatMap Rule.leaves,
      (r ∈ typeRules ∨ r = .nonnullAuditMarker ∨ r ∉ declaring) ∧ r ≠ .protocolList ∧
        1 ≤ r.nesting := by decide
  have hnesting : ∀ r ∈ typeRules, r.nesting = 1 := by decide
  induction ns generalizing ids with
  | nil =>
    obtain rfl : ids = [] := h
    exact .nil
  | cons n ns ih =>
    obtain ⟨hn, hrule⟩ := hns n List.mem_cons_self
    obtain ⟨hcases, hp, hdeep⟩ := hall _ hrule
    rw [List.flatMap_cons, Sketch.standAt_append] at h
    obtain ⟨is, js, rfl, his, hjs⟩ := h
    have hself : n.occurrences typeRules = if n.rule ∈ typeRules then [n] else [] :=
      hn.occurrences_eq_self fun r hr => by have := hnesting r hr; omega
    rw [List.flatMap_cons, List.flatMap_append, List.flatMap_append, hself]
    refine List.rel_append ?_ (ih (fun m hm => hns m (List.mem_cons_of_mem _ hm)) hjs)
    by_cases htype : n.rule ∈ typeRules
    · obtain ⟨s, hs, hholds⟩ := sketches_type types .header hn htype
      rw [hs] at his
      obtain ⟨i, _, rfl, hi, rfl⟩ := his
      obtain ⟨t, hparts⟩ := hholds.partsWith_protocolList hn htype
      have hlists := hi.childrenWith .protocolList
      rw [hparts, ← Sketch.standAt_iff] at hlists
      rw [if_pos htype, List.flatMap_singleton, List.flatMap_singleton]
      refine forall₂_listsProtocols (fun list hlist => ?_) hlists
      obtain ⟨hmem, hr⟩ := Node.mem_childrenOf.mp hlist
      exact ⟨(hn.part hmem).1, hr⟩
    · have hnil : is.flatMap (fun i => o.childrenWith i .protocolList) = [] := by
        refine List.flatMap_eq_nil_iff.mpr fun i hi => ?_
        obtain ⟨s, hs, hstands⟩ := his.exists_of_mem hi
        have hchildren := hstands.childrenOf
        rw [parts_of_not_type hn (hcases.resolve_left htype) hp s hs,
          List.forall₂_nil_right_iff] at hchildren
        rw [childrenWith, hchildren]
        rfl
      rw [hnil, if_neg htype]
      exact .nil

end Outline

namespace Declaration

open Outline

variable {types : TypeReader} {n : Node}

def conformances (n : Node) : List String :=
  ((n.child? .protocolList).map fun list =>
    (list.childrenOf .protocolName).map fun name => Lowering.protocolName name.text).getD []

theorem flatMap_protocolsAt (ns : List Node) : ns.flatMap Direct.protocolsAt =
    (ns.filter (·.rule = .protocolList)).flatMap fun list =>
      (list.childrenOf .protocolName).map fun name => Lowering.protocolName name.text := by
  induction ns with
  | nil => rfl
  | cons n ns ih =>
    rw [List.flatMap_cons, ih, Direct.protocolsAt]
    by_cases hr : n.rule = .protocolList <;> simp [hr]

theorem protocols_typeAt (policy : Policy) {x : Bool × Node} (hn : x.2.Read)
    (hr : x.2.rule ∈ typeRules) :
    (Direct.typeAt types policy x).protocols = conformances x.2 := by
  have hall : ∀ r ∈ typeRules, r.kind = .branch ∧ r.body.repeats .protocolList ≤ 1 := by decide
  obtain ⟨hkind, hrepeats⟩ := hall _ hr
  have hmembers : (Direct.typeAt types policy x).protocols =
      (Direct.members x.2).flatMap Direct.protocolsAt := by
    rw [Direct.typeAt, Direct.typeOf, Direct.foldl_gather]
    rfl
  rw [hmembers, flatMap_protocolsAt, filter_members hn, hn.childrenOf_eq_toList hkind _ hrepeats,
    conformances]
  cases x.2.child? .protocolList <;> simp

/-- Angle brackets of types never become conformances. The lists of protocols of an outline stand,
in order, for the lists that types are declared with, each with its names, and the protocols of a
declaration are the names in its own list. -/
theorem protocols_of_own_list {text : String} {tree : Node} (h : Header.parse text = .ok tree)
    (maxDepth : Nat) (policy : Policy) :
    ∃ o, Header.outlineWithin maxDepth text = .ok o ∧
      List.Forall₂ (ListsProtocols o) ((o.descendants root).filter (o.hasTag .protocolList))
        ((tree.occurrences typeRules).flatMap (·.childrenOf .protocolList)) ∧
      List.Forall₂ (fun n d => d.protocols = conformances n) (tree.occurrences typeRules)
        (ofOutline policy o) := by
  obtain ⟨o, houtline, ho⟩ := exists_outlineWithin h maxDepth
  refine ⟨o, houtline, ?_, ?_⟩
  · have ha : Arranged o := arranged_of_parse h ho
    have hstand :
        Sketch.StandAt o (tree.children.flatMap (sketches (.respelled maxDepth) { tag := .header }))
        (o.childrenOf root) := by
      rw [ofTreeWith_eq _ h] at ho
      obtain rfl := Except.ok.inj ho
      exact standAt_root _
    have htop : tree.rule ∉ typeRules := by
      rw [(parse_translationUnit h).1]
      decide
    rw [ha.descendants_protocolList, Node.occurrences_eq, if_neg htop, List.nil_append]
    exact forall₂_protocolLists (Header.read_of_parse h) hstand
  · have hforall := forall₂_ofOutline h ho policy
      (R := fun x d => d.protocols = conformances x.2) fun x hn hr => protocols_typeAt policy hn hr
    rw [← Direct.map_snd_audits_types false tree, List.forall₂_map_left_iff]
    exact hforall

def genericHeader : String :=
  "@interface A<T> : B <P, NSObject>\n@property NSArray<id<Q>> *x;\n@end\n@protocol S\n@end"

/-- Neither the parameter of a generic class nor the arguments in the type of a property are among
its protocols. -/
theorem protocols_of_own_list_generic : ∃ tree o,
    Header.parse genericHeader = .ok tree ∧ Header.outlineWithin 32 genericHeader = .ok o ∧
      List.Forall₂ (ListsProtocols o) ((o.descendants root).filter (o.hasTag .protocolList))
        ((tree.occurrences typeRules).flatMap (·.childrenOf .protocolList)) ∧
      List.Forall₂ (fun n d => d.protocols = conformances n) (tree.occurrences typeRules)
        (ofOutline {} o) ∧
      (o.descendants root).filter (o.hasTag .protocolList) = [3] ∧
      (ofOutline {} o).map (·.protocols) = [["P", "NSObjectProtocol"], []] := by
  have hok : (Header.parse genericHeader).isOk = true := by decide +kernel
  obtain ⟨tree, h⟩ := Header.exists_parse hok
  obtain ⟨o, ho, hlists, hprotocols⟩ := protocols_of_own_list h 32 {}
  have hvalues : (Header.outlineWithin 32 genericHeader).toOption.map
        (fun o => ((o.descendants root).filter (o.hasTag .protocolList),
          (ofOutline {} o).map (·.protocols))) = some ([3], [["P", "NSObjectProtocol"], []]) := by
    decide +kernel
  rw [ho] at hvalues
  obtain ⟨hthree, hnames⟩ := Prod.mk.inj (Option.some.inj hvalues)
  exact ⟨tree, o, h, ho, hlists, hprotocols, hthree, hnames⟩

end Declaration

end HeaderBridge
