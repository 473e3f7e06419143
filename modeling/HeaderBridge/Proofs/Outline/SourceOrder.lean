import HeaderBridge.Proofs.Grammar.SteadyRules
import HeaderBridge.Proofs.Outline.Spans

/-! # The order of parts

The parts of a header and of a type stand in its outline in the order of their
spans: every parse node in them adds at most one tree, and the superclass or
category of a type stands before all that its other parts add.
-/

namespace HeaderBridge

open Grammar

/-! ### Spans one behind the other -/

namespace Span

def Before (a b : Span) : Prop := a.stop ≤ b.start

/-- The spans stand one behind the other between two offsets. -/
def InOrder : Nat → List Span → Nat → Prop
  | lo, [], hi => lo ≤ hi
  | lo, s :: ss, hi => lo ≤ s.start ∧ s.start ≤ s.stop ∧ InOrder s.stop ss hi

namespace InOrder

variable {lo mid hi : Nat} {ss ts : List Span}

theorem append (h : InOrder lo ss mid) (h' : InOrder mid ts hi) : InOrder lo (ss ++ ts) hi := by
  induction ss generalizing lo with
  | nil =>
    cases ts with
    | nil => exact Nat.le_trans h h'
    | cons t ts => exact ⟨Nat.le_trans h h'.1, h'.2⟩
  | cons s ss ih => exact ⟨h.1, h.2.1, ih h.2.2⟩

theorem le_start (h : InOrder lo ss hi) : ∀ s ∈ ss, lo ≤ s.start := by
  induction ss generalizing lo with
  | nil => simp
  | cons s ss ih =>
    obtain ⟨hlo, hle, hrest⟩ := h
    intro r hr
    rcases List.mem_cons.mp hr with rfl | hr
    · exact hlo
    · exact Nat.le_trans (Nat.le_trans hlo hle) (ih hrest r hr)

theorem pairwise (h : InOrder lo ss hi) : ss.Pairwise Before := by
  induction ss generalizing lo with
  | nil => exact .nil
  | cons s ss ih => exact .cons h.2.2.le_start (ih h.2.2)

end InOrder

end Span

namespace Outline

open Declaration

/-! ### Trees one behind the other -/

/-- The trees have spans, which stand one behind the other between two offsets. -/
def Sketch.InOrder (lo : Nat) (ss : List Sketch) (hi : Nat) : Prop :=
  ∃ spans : List Span, ss.map Sketch.span = spans.map some ∧ Span.InOrder lo spans hi

namespace Sketch.InOrder

variable {lo mid hi : Nat} {ss ts : List Sketch}

theorem nil (h : lo ≤ hi) : InOrder lo [] hi := ⟨[], rfl, h⟩

theorem append (h : InOrder lo ss mid) (h' : InOrder mid ts hi) : InOrder lo (ss ++ ts) hi := by
  obtain ⟨spans, hspans, horder⟩ := h
  obtain ⟨spans', hspans', horder'⟩ := h'
  refine ⟨spans ++ spans', ?_, horder.append horder'⟩
  rw [List.map_append, hspans, hspans', List.map_append]

theorem of_span {s : Sketch} {n : Node} (h : s.span = some (spanOf n)) (hlo : lo ≤ n.start)
    (hhi : n.stop ≤ hi) : InOrder lo [s] hi := by
  have hstop := n.stop_eq
  exact ⟨[spanOf n], by simp [h], hlo, by simp only [spanOf]; omega, hhi⟩

theorem flatMap {f : Node → List Sketch} {ns : List Node} {p : Nat} {cs : List Char}
    (h : Strewn p cs ns) (hf : ∀ n ∈ ns, InOrder n.start (f n) n.stop) :
    InOrder p (ns.flatMap f) (p + bytes cs) := by
  induction ns generalizing p cs with
  | nil => exact nil (Nat.le_add_right _ _)
  | cons n ns ih =>
    obtain ⟨a, b, rfl, hstart, hrest⟩ := h
    have hown := hf n List.mem_cons_self
    have hbehind := ih hrest fun m hm => hf m (List.mem_cons_of_mem _ hm)
    have hfront : InOrder p [] n.start := nil (by omega)
    rw [n.add_bytes_eq hstart, List.flatMap_cons]
    exact (hfront.append hown).append hbehind

theorem behind_leaf {f : Node → List Sketch} {ls : List Sketch} {as bs : List Node} {p : Nat}
    {cs : List Char} (h : Strewn p cs (as ++ bs))
    (hls : ls = [] ∨ ∃ k, ∃ x ∈ as, ls = [Sketch.leaf k x]) (has : ∀ x ∈ as, f x = [])
    (hbs : ∀ x ∈ bs, InOrder x.start (f x) x.stop) :
    InOrder p (ls ++ (as ++ bs).flatMap f) (p + bytes cs) := by
  obtain ⟨a, b, rfl, ha, hb⟩ := h.split
  have hfront : InOrder p ls (p + bytes a) := by
    rcases hls with rfl | ⟨k, x, hx, rfl⟩
    · exact nil (Nat.le_add_right _ _)
    · obtain ⟨a₁, a₂, rfl, hstart⟩ := ha.of_mem hx
      have hstop := x.add_bytes_eq hstart a₂
      exact of_span (n := x) rfl (by omega) (by omega)
  rw [List.flatMap_append, List.flatMap_eq_nil_iff.mpr has, List.nil_append, bytes_append,
    ← Nat.add_assoc]
  exact hfront.append (flatMap hb hbs)

end Sketch.InOrder

/-! ### Rules that add at most one tree -/

section Order

variable {types : TypeReader} {t : Tag} {n : Node}

/-- Rules outside of declarations and names of types, whose parse nodes hold no nullability words
but those in lists of types. -/
def bareRules : List Rule :=
  [.endOfInput, .identifier, .preprocessorDirective, .classForwardDeclaration,
    .protocolForwardDeclaration, .implementationBlock, .skippedDeclaration, .skippedMember,
    .className, .superclassName, .categoryName, .genericParameterClause]

theorem annotations_of_bare : ∀ n : Node, n.Read → n.rule ∈ bareRules → annotations n = []
  | .mk r s t ns, hn, hr => by
    have hall : ∀ r ∈ bareRules, r ≠ .nullabilitySpecifier ∧ (¬ ListsTypes r → r.kind = .branch →
        ∀ r' ∈ r.body.seen.flatMap Rule.leaves, r' ∈ bareRules) := by decide
    obtain ⟨hne, hparts⟩ := hall r hr
    by_cases hl : ListsTypes r
    · rw [annotations, if_neg hne, if_pos hl]
    · rw [annotations, if_neg hne, if_neg hl, annotationsAll_eq]
      refine List.flatMap_eq_nil_iff.mpr fun x hx => ?_
      obtain ⟨hread, hbranch, hrule⟩ := hn.part hx
      exact annotations_of_bare x hread (hparts hl hbranch _ hrule)
termination_by n => sizeOf n
decreasing_by
  have hlt := List.sizeOf_lt_of_mem (show x ∈ ns from hx)
  simp only [Node.mk.sizeOf_spec]
  omega

theorem sketches_of_bare (hn : n.Read) (hr : n.rule ∈ bareRules) (ht : t ≠ .protocolList) :
    sketches types { tag := t } n = [] := by
  have hall : ∀ r ∈ bareRules, r ∉ declaring ∧ r ≠ .protocolList := by decide
  rw [sketches_of_not_declaring hn (hall _ hr).1 (hall _ hr).2 ht, annotationLeaves,
    annotations_of_bare n hn hr]
  simp

theorem sketches_of_keyword (hn : n.Read) (hr : n.rule ∈ keywordRules) :
    sketches types { tag := t } n =
      ((Keyword.ofSpelling? n.text).map fun k => Sketch.leaf (.keyword k) n).toList := by
  simp only [keywordRules, List.mem_cons, List.not_mem_nil, or_false] at hr
  rcases hr with hr | hr | hr <;>
    rw [sketches_of_token hn (by rw [hr]; rfl) (by rw [hr]; rfl) (by rw [hr]; rfl), leaves, hr]

/-- The rules of types, of their members and outside of declarations. -/
def soleRules : List Rule := typeRules ++ memberRules ++ bareRules

/-- A parse node of these rules adds one tree, which has the span of the node, or none. -/
theorem inOrder_sketches (hn : n.Read) (hr : n.rule ∈ soleRules) (ht : t ≠ .protocolList) :
    Sketch.InOrder n.start (sketches types { tag := t } n) n.stop := by
  have hle : n.start ≤ n.stop := by
    rw [n.stop_eq]
    omega
  have hone : ∀ k parts, Sketch.InOrder n.start [.mk k (some (spanOf n)) parts] n.stop := fun _ _ =>
    .of_span (n := n) rfl (Nat.le_refl _) (Nat.le_refl _)
  by_cases hbare : n.rule ∈ bareRules
  · rw [sketches_of_bare hn hbare ht]
    exact .nil hle
  · cases hopens : Scope.opens? { tag := t } n.rule with
    | some kind =>
      rw [sketches_eq, hopens]
      exact hone _ _
    | none =>
      have hall : ∀ r ∈ soleRules, r ∉ bareRules → Scope.opens? { tag := .header } r = none →
          r ∈ keywordRules := by decide
      rw [sketches_of_keyword hn (hall _ hr hbare hopens)]
      cases Keyword.ofSpelling? n.text with
      | none => exact .nil hle
      | some k => exact hone _ _

/-! ### Types -/

/-- The rules of the names for which a type has leaves of its own. -/
def titleRules : List Rule := [.superclassName, .categoryName]

def listRules : List Rule := [.interfaceDeclarationList, .protocolDeclarationList]

theorem children_split {a b : Expr} (hn : n.Read) (hk : n.rule.kind = .branch)
    (hbody : ∀ cs, n.rule.body.reading .spaced cs = (Expr.seq a b).reading .spaced cs) :
    ∃ as bs, n.children = as ++ bs ∧ (∀ x ∈ as, x.rule ∈ a.seen.flatMap Rule.leaves) ∧
      ∀ x ∈ bs, x.rule ∈ b.seen.flatMap Rule.leaves := by
  obtain ⟨x, c, hsolid, -, hread⟩ := hn.body hk
  rw [hbody, Expr.reading_seq, Reading.andThen_eq_some] at hread
  obtain ⟨cs, ns, ms, ha, hb, hchildren⟩ := hread
  obtain ⟨as, bs, hsplit, rfl, rfl⟩ := List.map_eq_append_iff.mp hchildren
  refine ⟨as, bs, hsplit, fun x hx => ?_, fun x hx => ?_⟩
  · have hrule := (Expr.reading_nodes hsolid ha x.unplaced (List.mem_map_of_mem hx)).2
    rwa [Node.rule_unplaced] at hrule
  · have hrule := (Expr.reading_nodes (solid_skipGap cs) hb x.unplaced (List.mem_map_of_mem hx)).2
    rwa [Node.rule_unplaced] at hrule

/-- What an interface consists of behind its superclass or its category. -/
def interfaceTail : Expr :=
  .seq (.opt (Expr.enclosed '<' '>' (.call .protocolList))) (.seq (.opt (.call .instanceVariables))
    (.seq (.call .interfaceDeclarationList) (.lit "@end")))

theorem reading_interfaceTail (a : Expr) (cs : List Char) :
    (Expr.seq (.seq (.seq (.seq a (.opt (Expr.enclosed '<' '>' (.call .protocolList))))
      (.opt (.call .instanceVariables))) (.call .interfaceDeclarationList)) (.lit "@end")).reading
        .spaced cs = (Expr.seq a interfaceTail).reading .spaced cs := by
  rw [Expr.reading_seq_assoc, Expr.reading_seq_assoc, Expr.reading_seq_assoc, interfaceTail]

/-- The first parts of a type are its names, and its superclass or category is among them. -/
theorem exists_names (hn : n.Read) (hr : n.rule ∈ typeRules) :
    ∃ as bs, n.children = as ++ bs ∧ (∀ x ∈ as, x.rule ∈ bareRules) ∧
      ∀ x ∈ bs, x.rule ∉ titleRules := by
  -- an interface is read as a head with these names and a tail without them
  have hsplit : ∀ head : Expr, n.rule.kind = .branch →
      (∀ cs, n.rule.body.reading .spaced cs = (Expr.seq head interfaceTail).reading .spaced cs) →
      (∀ r ∈ head.seen.flatMap Rule.leaves, r ∈ bareRules) →
      ∃ as bs, n.children = as ++ bs ∧ (∀ x ∈ as, x.rule ∈ bareRules) ∧
        ∀ x ∈ bs, x.rule ∉ titleRules := by
    intro head hk hbody hhead
    obtain ⟨as, bs, hchildren, has, hbs⟩ := children_split hn hk hbody
    have htail : ∀ r ∈ interfaceTail.seen.flatMap Rule.leaves, r ∉ titleRules := by decide
    exact ⟨as, bs, hchildren, fun x hx => hhead _ (has x hx), fun x hx => htail _ (hbs x hx)⟩
  simp only [typeRules, List.mem_cons, List.not_mem_nil, or_false] at hr
  rcases hr with hr | hr | hr
  · refine hsplit (.seq interfaceHead (.opt superclassPart)) (by rw [hr]; rfl) (fun cs => ?_)
      (by decide)
    rw [← reading_interfaceTail, hr]
    rfl
  · refine hsplit
      (.seq (.seq (.seq interfaceHead (.lit "(")) (.opt (.call .categoryName))) (.lit ")"))
      (by rw [hr]; rfl) (fun cs => ?_) (by decide)
    rw [← reading_interfaceTail, hr]
    rfl
  · exact ⟨[], n.children, rfl, by simp, fun x hx =>
      (hn.part_of (P := (· ∉ titleRules)) hr (by decide) hx).2⟩

theorem leaf?_names (hn : n.Read) (hr : n.rule ∈ typeRules) {as bs : List Node}
    (hchildren : n.children = as ++ bs)
    (hbs : ∀ x ∈ bs, x.rule ∉ titleRules) {ls : List Sketch}
    (hls : ls = Sketch.leaf? .superclassName (n.child? .superclassName)
      ++ Sketch.leaf? .categoryName (n.child? .categoryName)) :
    ls = [] ∨ ∃ k, ∃ x ∈ as, ls = [Sketch.leaf k x] := by
  have hfront : ∀ {r : Rule} {x : Node}, r ∈ titleRules →
      n.child? r = some x → x ∈ as := by
    intro r x hr hx
    obtain ⟨hmem, rfl⟩ := Node.child?_eq_some hx
    rw [hchildren] at hmem
    exact (List.mem_append.mp hmem).resolve_right fun hmem => hbs x hmem hr
  -- no type has both
  have hall : ∀ r ∈ typeRules, .superclassName ∉ r.body.seen.flatMap Rule.leaves ∨
      .categoryName ∉ r.body.seen.flatMap Rule.leaves := by decide
  have hrule : ∀ {r : Rule} {x : Node}, n.child? r = some x →
      r ∈ n.rule.body.seen.flatMap Rule.leaves := by
    intro r x hx
    obtain ⟨hmem, rfl⟩ := Node.child?_eq_some hx
    exact (hn.part hmem).2.2
  subst hls
  cases hsuper : n.child? .superclassName with
  | none =>
    cases hcategory : n.child? .categoryName with
    | none => exact .inl rfl
    | some x => exact .inr ⟨_, x, hfront (by decide) hcategory, rfl⟩
  | some x =>
    cases hcategory : n.child? .categoryName with
    | none => exact .inr ⟨_, x, hfront (by decide) hsuper, rfl⟩
    | some y =>
      rcases hall _ hr with habsent | habsent
      · exact absurd (hrule hsuper) habsent
      · exact absurd (hrule hcategory) habsent

theorem inOrder_member (hn : n.Read) (hl : n.Laid) (hr : n.rule ∈ listRules ∨ n.rule ∈ soleRules)
    (ht : t ≠ .protocolList) :
    Sketch.InOrder n.start (sketches types { tag := t } n) n.stop := by
  rcases hr with hlist | hsole
  · -- a list of members adds what its members add
    have hsketches : sketches types { tag := t } n =
        n.children.flatMap (sketches types { tag := t }) := by
      rcases List.mem_pair.mp hlist with hr | hr <;>
        rw [sketches_of_opens?_none (by rw [hr]; rfl) (by rw [hr]; rfl), leaves, hr] <;> rfl
    rw [hsketches, n.stop_eq]
    refine .flatMap hl.strewn fun x hx => ?_
    obtain ⟨hread, -, hrule⟩ := hn.part hx
    have hall : ∀ r ∈ listRules, ∀ r' ∈ r.body.seen.flatMap Rule.leaves, r' ∈ soleRules := by decide
    exact inOrder_sketches hread (hall _ hlist _ hrule) ht
  · exact inOrder_sketches hn hsole ht

/-- The parts of a type stand one behind the other. -/
theorem HoldsType.inOrder {s : Sketch} (hn : n.Read) (hl : n.Laid) (hr : n.rule ∈ typeRules)
    (hs : HoldsType types n s) : Sketch.InOrder n.start s.parts n.stop := by
  obtain ⟨t, ht, hparts⟩ := hs.parts
  obtain ⟨as, bs, hchildren, has, hbs⟩ := exists_names hn hr
  have hall : ∀ r ∈ typeRules, ∀ r' ∈ r.body.seen.flatMap Rule.leaves,
      r' ∈ listRules ∨ r' ∈ soleRules := by decide
  have hread : ∀ x ∈ n.children, x.Read ∧ x.Laid ∧ (x.rule ∈ listRules ∨ x.rule ∈ soleRules) := by
    intro x hx
    obtain ⟨hread, -, hrule⟩ := hn.part hx
    exact ⟨hread, hl.child hx, hall _ hr _ hrule⟩
  have hstrewn := hl.strewn
  rw [hparts, ← flatMap_sketches_members, n.stop_eq]
  rw [hchildren] at hread hstrewn ⊢
  refine .behind_leaf hstrewn (leaf?_names hn hr hchildren hbs rfl) (fun x hx => ?_) fun x hx => ?_
  · exact sketches_of_bare (hread x (List.mem_append_left _ hx)).1 (has x hx) ht
  · obtain ⟨hx, hlaid, hrule⟩ := hread x (List.mem_append_right _ hx)
    exact inOrder_member hx hlaid hrule ht

end Order

end Outline

end HeaderBridge
