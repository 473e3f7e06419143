import HeaderBridge.Proofs.Grammar.Nodes
import HeaderBridge.Proofs.Outline.Lookup

/-! # Types in an outline

The parse node of a type adds nothing to an outline but its nullability words,
and of these only the ones outside the lists of other types.
-/

namespace HeaderBridge.Outline

open Grammar

mutual

/-- The nullability words of a parse node that stand outside every list of types,
in source order. -/
def annotations : Node → List Node
  | .mk r s t ns =>
    if r = .nullabilitySpecifier then [.mk r s t ns]
    else if ListsTypes r then []
    else annotationsAll ns

def annotationsAll : List Node → List Node
  | [] => []
  | n :: ns => annotations n ++ annotationsAll ns

end

theorem annotationsAll_eq (ns : List Node) : annotationsAll ns = ns.flatMap annotations := by
  induction ns with
  | nil => rfl
  | cons n ns ih => rw [annotationsAll, ih, List.flatMap_cons]

theorem annotations_eq {n : Node} (hr : n.rule ≠ .nullabilitySpecifier) (hl : ¬ ListsTypes n.rule) :
    annotations n = n.children.flatMap annotations := by
  obtain ⟨r, s, t, ns⟩ := n
  simp only [Node.rule] at hr hl
  rw [annotations, if_neg hr, if_neg hl, annotationsAll_eq]
  rfl

/-- The rules that declare something or lead to one that does. -/
def declaring : List Rule :=
  [.translationUnit, .externalDeclaration, .nonnullAuditMarker, .classInterface, .categoryInterface,
    .protocolDeclaration, .protocolDeclarationList, .protocolSectionKeyword, .instanceVariables,
    .visibilitySection, .ivarEntry, .accessModifier, .interfaceDeclarationList, .interfaceMember,
    .propertyDeclaration, .propertyAttributesList, .propertyAttribute, .methodDeclaration,
    .methodType, .methodSelector, .keywordDeclarator, .fieldDeclaration, .typeName, .typeNameEntry]

theorem not_declaring_part {r r' : Rule} (hr : r ∉ declaring)
    (h : r' ∈ r.body.seen.flatMap Rule.leaves) :
    r' ∉ declaring ∧ (r' = .protocolList → r = .genericTypeSpecifier) := by
  have hall : ∀ r ∈ Rule.all, r ∉ declaring → ∀ r' ∈ r.body.seen.flatMap Rule.leaves,
      r' ∉ declaring ∧ (r' = .protocolList → r = .genericTypeSpecifier) := by decide +kernel
  exact Rule.forall_of_all hall r hr r' h

theorem opens?_eq_none {c : Scope} {r : Rule} (hr : r ∉ declaring)
    (hp : r = .protocolList → c.inGeneric = true) : c.opens? r = none := by
  unfold Scope.opens?
  split
  · rfl
  · next hne =>
    have hlist : r ≠ .protocolList := fun h => hne ⟨hp h, h⟩
    have hall : ∀ r ∈ Rule.all, r ∉ declaring → r ≠ .protocolList → headerTargets.lookup r =
        none := by
      decide
    rw [Rule.forall_of_all hall r hr hlist]

theorem leaves_eq {types : TypeReader} {c : Scope} {n : Node} (hr : n.rule ∉ declaring)
    (hne : n.rule ≠ .nullabilitySpecifier) (ht : c.tag ≠ .protocolList) :
      leaves types c n = [] := by
  unfold leaves
  split <;> simp_all [declaring]

/-- The leaves for the nullability words of a parse node, where there are any. -/
def annotationLeaves (c : Scope) (n : Node) : List Sketch :=
  if c.inList ∨ c.tag = .ivarList then []
  else (annotations n).map fun word => .leaf (.nullability word.text) word

theorem flatMap_annotationLeaves (c : Scope) {n : Node} (hn : n.Read) :
    n.children.flatMap (annotationLeaves (c.inside n.rule)) =
      if n.rule = .nullabilitySpecifier then [] else annotationLeaves c n := by
  by_cases hne : n.rule = .nullabilitySpecifier
  · have hnil : n.children = [] := by
      refine List.eq_nil_iff_forall_not_mem.mpr fun x hx => ?_
      have hbranch := (hn.part hx).2.1
      rw [hne] at hbranch
      cases hbranch
    rw [hnil, if_pos hne]
    rfl
  · rw [if_neg hne]
    unfold annotationLeaves
    by_cases hl : ListsTypes n.rule
    · have hnil : annotations n = [] := by
        obtain ⟨r, s, t, ns⟩ := n
        simp only [Node.rule] at hne hl
        rw [annotations, if_neg hne, if_pos hl]
      simp [Scope.inside, hl, hnil]
    · rw [annotations_eq hne hl, List.map_flatMap]
      by_cases hc : c.inList = true ∨ c.tag = .ivarList
      · simp [Scope.inside, hl, hc]
      · simp [Scope.inside, hl, hc]

mutual

theorem sketches_eq_annotationLeaves (types : TypeReader) : ∀ (n : Node) (c : Scope), n.Read →
    n.rule ∉ declaring → (n.rule = .protocolList → c.inGeneric = true) → c.tag ≠ .protocolList →
      sketches types c n = annotationLeaves c n
  | .mk r s t ns, c, hn, hr, hp, ht => by
    have hopens : c.opens? (Node.mk r s t ns).rule = none := opens?_eq_none hr hp
    have hparts := sketchesAll_eq_annotationLeaves types ns (c.inside r) (by
      intro x hx
      obtain ⟨hread, -, hrule⟩ := hn.part hx
      obtain ⟨hdecl, hprot⟩ := not_declaring_part hr hrule
      refine ⟨hread, hdecl, fun h => ?_⟩
      have hgeneric : r = .genericTypeSpecifier := hprot h
      simp [Scope.inside, hgeneric]) ht
    rw [sketches_eq, hopens]
    change leaves types c (.mk r s t ns) ++ sketchesAll types (c.inside r) ns = _
    have hflat : ns.flatMap (annotationLeaves (c.inside r)) =
        if r = .nullabilitySpecifier then [] else annotationLeaves c (.mk r s t ns) :=
      flatMap_annotationLeaves c hn
    rw [hparts, hflat]
    by_cases hne : r = .nullabilitySpecifier
    · subst hne
      rw [if_pos rfl, List.append_nil, annotationLeaves, annotations, if_pos rfl]
      rfl
    · rw [if_neg hne, leaves_eq hr hne ht, List.nil_append]

theorem sketchesAll_eq_annotationLeaves (types : TypeReader) : ∀ (ns : List Node) (c : Scope),
    (∀ n ∈ ns, n.Read ∧ n.rule ∉ declaring ∧ (n.rule = .protocolList → c.inGeneric = true)) →
      c.tag ≠ .protocolList → sketchesAll types c ns = ns.flatMap (annotationLeaves c)
  | [], _, _, _ => rfl
  | n :: ns, c, h, ht => by
    obtain ⟨hn, hr, hp⟩ := h n List.mem_cons_self
    rw [sketchesAll, List.flatMap_cons, sketches_eq_annotationLeaves types n c hn hr hp ht,
      sketchesAll_eq_annotationLeaves types ns c (fun m hm => h m (List.mem_cons_of_mem _ hm)) ht]

end

end HeaderBridge.Outline
