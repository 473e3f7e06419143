import HeaderBridge.Proofs.Grammar.Nodes
import Mathlib.Data.List.Basic

/-! # Where declarations stand in a parse tree

Declarations are nested in few ways: a header holds types, a type holds its
members, a member holds field declarations. So the nodes of such a rule, which
may stand anywhere below a node, are all found at one place below it.
-/

namespace HeaderBridge.Grammar

namespace Node

mutual

def occurrences (rs : List Rule) : Node → List Node
  | .mk r s t ns => (if r ∈ rs then [.mk r s t ns] else []) ++ occurrencesAll rs ns

def occurrencesAll (rs : List Rule) : List Node → List Node
  | [] => []
  | n :: ns => occurrences rs n ++ occurrencesAll rs ns

end

variable {rs : List Rule}

theorem occurrencesAll_eq (rs : List Rule) (ns : List Node) :
    occurrencesAll rs ns = ns.flatMap (occurrences rs) := by
  induction ns with
  | nil => rfl
  | cons n ns ih => rw [occurrencesAll, ih, List.flatMap_cons]

theorem occurrences_eq (rs : List Rule) (n : Node) :
    n.occurrences rs =
      (if n.rule ∈ rs then [n] else []) ++ n.children.flatMap (occurrences rs) := by
  obtain ⟨r, s, t, ns⟩ := n
  rw [occurrences, occurrencesAll_eq]
  rfl

theorem within_of_mem_occurrences {m : Node} : ∀ n : Node, m ∈ n.occurrences rs →
    m.Within n ∧ m.rule ∈ rs
  | .mk r s t ns, h => by
    rw [occurrences, occurrencesAll_eq, List.mem_append] at h
    rcases h with h | h
    · by_cases hr : r ∈ rs
      · rw [if_pos hr, List.mem_singleton] at h
        rw [h]
        exact ⟨.self, hr⟩
      · simp [hr] at h
    · obtain ⟨c, hc, h⟩ := List.mem_flatMap.mp h
      obtain ⟨hwithin, hrule⟩ := within_of_mem_occurrences c h
      exact ⟨.inside hc hwithin, hrule⟩

/-- Every node of a tree that has one of the given rules occurs in it. -/
theorem mem_occurrences_of_within {m n : Node} (h : m.Within n) (hr : m.rule ∈ rs) :
    m ∈ n.occurrences rs := by
  induction h with
  | self => rw [occurrences_eq, if_pos hr]; exact List.mem_append_left _ (List.mem_singleton_self m)
  | @inside r s t ns c hc _ ih =>
    rw [occurrences, occurrencesAll_eq]
    exact List.mem_append_right _ (List.mem_flatMap.mpr ⟨c, hc, ih⟩)

theorem filter_occurrences {rs' : List Rule} (h : ∀ r ∈ rs', r ∈ rs) (n : Node) :
    (n.occurrences rs).filter (·.rule ∈ rs') = n.occurrences rs' := by
  obtain ⟨r, s, t, ns⟩ := n
  rw [occurrences, occurrences, occurrencesAll_eq, occurrencesAll_eq, List.filter_append,
    List.filter_flatMap, List.flatMap_congr fun x _ => filter_occurrences h x]
  congr 1
  by_cases hr' : r ∈ rs'
  · simp [h r hr', hr', Node.rule]
  · by_cases hr : r ∈ rs <;> simp [hr, hr', Node.rule]

theorem flatMap_eq_filter {ns : List Node} {f : Node → List Node}
    (h : ∀ x ∈ ns, f x = if x.rule ∈ rs then [x] else []) :
    ns.flatMap f = ns.filter (·.rule ∈ rs) := by
  induction ns with
  | nil => rfl
  | cons x xs ih =>
    rw [List.flatMap_cons, List.filter_cons, h x List.mem_cons_self,
      ih fun y hy => h y (List.mem_cons_of_mem _ hy)]
    by_cases hx : x.rule ∈ rs <;> simp [hx]

end Node

/-! ### Depth of nesting -/

/-- How deep the nodes of a rule are nested, for the rules that are not nested in themselves. -/
def Rule.nesting : Rule → Nat
  | .translationUnit | .externalDeclaration => 0
  | .classInterface | .categoryInterface | .protocolDeclaration => 1
  | .interfaceDeclarationList | .protocolDeclarationList | .interfaceMember => 2
  | .methodDeclaration | .propertyDeclaration | .instanceVariables | .nonnullAuditMarker => 3
  | .visibilitySection | .ivarEntry => 4
  | .fieldDeclaration => 5
  | .fieldDeclaratorList => 6
  | .fieldDeclarator => 7
  | _ => 8

/-- The parts of a node are nested deeper, unless the node belongs to a type or a name. -/
theorem Rule.nesting_part {r r' : Rule} (h : r' ∈ r.body.seen.flatMap Rule.leaves) :
    r.nesting < r'.nesting ∨ r.nesting = 8 ∧ r'.nesting = 8 := by
  have hall : ∀ r ∈ Rule.all, ∀ r' ∈ r.body.seen.flatMap Rule.leaves,
      r.nesting < r'.nesting ∨ r.nesting = 8 ∧ r'.nesting = 8 := by decide +kernel
  exact Rule.forall_of_all hall r r' h

namespace Node.Read

variable {rs : List Rule} {n : Node}

theorem occurrences_eq_nil (rs : List Rule) : ∀ n : Node, n.Read →
    (∀ r ∈ rs, r.nesting < n.rule.nesting) → n.occurrences rs = []
  | .mk r s t ns, hn, h => by
    have hrule : r ∉ rs := fun hr => Nat.lt_irrefl _ (h r hr)
    rw [occurrences, if_neg hrule, List.nil_append, occurrencesAll_eq]
    refine List.flatMap_eq_nil_iff.mpr fun x hx => ?_
    obtain ⟨hread, -, hpart⟩ := hn.part hx
    refine occurrences_eq_nil rs x hread fun r' hr' => ?_
    have hlt : r'.nesting < r.nesting := h r' hr'
    have hle : r.nesting < x.rule.nesting ∨ r.nesting = 8 ∧ x.rule.nesting = 8 :=
      Rule.nesting_part hpart
    omega

theorem occurrences_eq_self (hn : n.Read)
    (h : ∀ r ∈ rs, r.nesting ≤ n.rule.nesting ∧ r.nesting < 8) :
    n.occurrences rs = if n.rule ∈ rs then [n] else [] := by
  have hparts : n.children.flatMap (occurrences rs) = [] := by
    refine List.flatMap_eq_nil_iff.mpr fun x hx => ?_
    obtain ⟨hread, -, hpart⟩ := hn.part hx
    refine occurrences_eq_nil rs x hread fun r hr => ?_
    have hle := h r hr
    have hlt := Rule.nesting_part hpart
    omega
  rw [occurrences_eq, hparts, List.append_nil]

/-- Where the parts of a node are nested as deep as the given rules, the nodes of these rules
are among the parts. -/
theorem occurrences_eq_filter (hn : n.Read) (hrule : n.rule ∉ rs)
    (h : ∀ x ∈ n.children, ∀ r ∈ rs, r.nesting ≤ x.rule.nesting ∧ r.nesting < 8) :
    n.occurrences rs = n.children.filter (·.rule ∈ rs) := by
  rw [Node.occurrences_eq, if_neg hrule, List.nil_append]
  exact flatMap_eq_filter fun x hx => (hn.part hx).1.occurrences_eq_self (h x hx)

theorem occurrences_eq_flatMap (hn : n.Read) (hrule : n.rule ∉ rs) (r : Rule)
    (h : ∀ r' ∈ n.rule.body.seen.flatMap Rule.leaves, r' ≠ r → ∀ q ∈ rs, q.nesting < r'.nesting) :
    n.occurrences rs = (n.childrenOf r).flatMap (occurrences rs) := by
  have hpart : ∀ x ∈ n.children,
      x.occurrences rs = if x.rule = r then x.occurrences rs else [] := by
    intro x hx
    obtain ⟨hread, -, hxr⟩ := hn.part hx
    by_cases heq : x.rule = r
    · rw [if_pos heq]
    · rw [if_neg heq, occurrences_eq_nil rs x hread (h _ hxr heq)]
  rw [Node.occurrences_eq, if_neg hrule, List.nil_append, childrenOf]
  generalize n.children = xs at hpart ⊢
  induction xs with
  | nil => rfl
  | cons x xs ih =>
    rw [List.flatMap_cons, ih fun y hy => hpart y (List.mem_cons_of_mem _ hy),
      hpart x List.mem_cons_self]
    by_cases heq : x.rule = r <;> simp [heq]

end Node.Read

/-! ### Parts that stand alone -/

/-- How many nodes of a rule a match of an expression leaves at most, as long as it is not more
than one. -/
def Expr.repeats (r : Rule) : Expr → Nat
  | .call r' => if r ∈ r'.leaves then (if r'.kind = .group then 2 else 1) else 0
  | seq a b => a.repeats r + b.repeats r
  | choice a b => max (a.repeats r) (b.repeats r)
  | opt a => a.repeats r
  | many a => if r ∈ a.seen.flatMap Rule.leaves then 2 else 0
  | literal _ | char _ | start | finish | notAhead _ => 0

theorem Expr.filter_eq_nil {r : Rule} {e : Expr} (he : r ∉ e.seen.flatMap Rule.leaves)
    {cs c : List Char} {ns : List Node} (hcs : Solid cs) (h : e.reading .spaced cs = some (c, ns)) :
    ns.filter (·.rule = r) = [] := by
  refine List.filter_eq_nil_iff.mpr fun x hx hxr => ?_
  rw [decide_eq_true_eq] at hxr
  exact he (hxr ▸ (reading_nodes hcs h x hx).2)

theorem Expr.length_filter_le {r : Rule} {e : Expr} (he : e.repeats r ≤ 1) {cs c : List Char}
    {ns : List Node} (hcs : Solid cs) (h : e.reading .spaced cs = some (c, ns)) :
    (ns.filter (·.rule = r)).length ≤ e.repeats r := by
  induction e generalizing cs c ns with
  | call r' =>
    by_cases hr : r ∈ r'.leaves
    · have hkind : r'.kind = .branch ∨ r'.kind = .token := by
        cases hk : r'.kind with
        | branch => exact .inl rfl
        | token => exact .inr rfl
        | group => simp [repeats, hr, hk] at he
        | blank => simp [Rule.leaves, hk] at hr
      rw [reading_call] at h
      obtain ⟨t, ms, rfl⟩ := Rule.reading_singleton hkind h
      have hone : (Expr.call r').repeats r = 1 := by
        rcases hkind with hk | hk <;> simp [repeats, hr, hk]
      rw [hone]
      exact List.length_filter_le _ _
    · rw [filter_eq_nil (by simpa [seen] using hr) hcs h]
      exact Nat.zero_le _
  | seq a b iha ihb =>
    rw [repeats] at he ⊢
    rw [reading_seq, Reading.andThen_eq_some] at h
    obtain ⟨c₁, ns₁, ns₂, h₁, h₂, rfl⟩ := h
    rw [List.filter_append, List.length_append]
    exact Nat.add_le_add (iha (by omega) hcs h₁) (ihb (by omega) (solid_skipGap c₁) h₂)
  | choice a b iha ihb =>
    rw [repeats] at he ⊢
    rw [reading_choice, Option.or_eq_some_iff] at h
    rcases h with h | ⟨-, h⟩
    · exact (iha (by omega) hcs h).trans (Nat.le_max_left _ _)
    · exact (ihb (by omega) hcs h).trans (Nat.le_max_right _ _)
  | opt a ih =>
    rw [repeats] at he ⊢
    rw [reading_opt] at h
    cases ha : a.reading .spaced cs with
    | none =>
      rw [ha] at h
      obtain ⟨rfl, rfl⟩ := Prod.mk.inj (Option.some.inj h)
      exact Nat.zero_le _
    | some y =>
      rw [ha] at h
      obtain rfl := Option.some.inj h
      exact ih he hcs ha
  | many a ih =>
    by_cases hr : r ∈ a.seen.flatMap Rule.leaves
    · rw [repeats, if_pos hr] at he
      omega
    · rw [filter_eq_nil (e := many a) hr hcs h]
      exact Nat.zero_le _
  | _ =>
    rw [filter_eq_nil (by simp [seen]) hcs h]
    exact Nat.zero_le _

theorem Node.Read.childrenOf_eq_toList {m : Node} (h : m.Read) (hk : m.rule.kind = .branch)
    (r : Rule) (hr : m.rule.body.repeats r ≤ 1) : m.childrenOf r = (m.child? r).toList := by
  obtain ⟨t, c, hsolid, -, hread⟩ := h.body hk
  have hle := Expr.length_filter_le hr hsolid hread
  have hlength : (m.childrenOf r).length ≤ 1 := by
    rw [List.filter_map, List.length_map] at hle
    simp only [Function.comp_def, Node.rule_unplaced] at hle
    exact hle.trans hr
  rw [child?_eq_head?]
  cases hl : m.childrenOf r with
  | nil => rfl
  | cons y ys =>
    rw [hl, List.length_cons, Nat.succ_le_succ_iff, Nat.le_zero,
      List.length_eq_zero_iff] at hlength
    rw [hlength]
    rfl

theorem Node.Read.childrenOf_eq {m : Node} (h : m.Read) (hk : m.rule.kind = .branch) (r : Rule)
    (hs : m.rule.body.surely [r] = true) (hr : m.rule.body.repeats r ≤ 1) :
    ∃ x, m.child? r = some x ∧ m.childrenOf r = [x] := by
  obtain ⟨x, hx⟩ := h.exists_child? hk r hs
  refine ⟨x, hx, ?_⟩
  rw [h.childrenOf_eq_toList hk r hr, hx]
  rfl

end HeaderBridge.Grammar
