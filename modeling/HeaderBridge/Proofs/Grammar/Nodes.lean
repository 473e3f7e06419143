import HeaderBridge.Proofs.Grammar.Shape

/-! # The nodes of a reading

Every node that a reading leaves was read by its own rule, from a place where no
gap begins, within the text of the reading. Which nodes a match leaves for sure
can be seen from the expression.
-/

namespace HeaderBridge.Grammar

open HeaderBridge.Grammar.Expr

variable {cs c : List Char} {m x : Node} {r : Rule} {ns : List Node}

/-! ### Where nodes are read -/

/-- The node is read by its own rule, somewhere between two places. -/
def Node.ReadBetween (cs c : List Char) (m : Node) : Prop :=
  ∃ ds ds', ds <:+ cs ∧ c <:+ ds' ∧ Solid ds ∧ m.rule.reading .spaced ds = some (ds', [m])

theorem Node.ReadBetween.mono {cs₁ c₁ : List Char} (h : m.ReadBetween cs₁ c₁) (hcs : cs₁ <:+ cs)
    (hc : c <:+ c₁) : m.ReadBetween cs c := by
  obtain ⟨ds, ds', hds, hds', hsolid, hread⟩ := h
  exact ⟨ds, ds', hds.trans hcs, hc.trans hds', hsolid, hread⟩

theorem Rule.reading_singleton (hr : r.kind = .branch ∨ r.kind = .token)
    (h : r.reading .spaced cs = some (c, ns)) : ∃ t ms, ns = [.mk r 0 t ms] := by
  rcases hr with hr | hr
  · rw [reading_branch hr] at h
    obtain ⟨y, -, hy⟩ := Option.map_eq_some_iff.mp h
    exact ⟨_, _, (congrArg Prod.snd hy).symm⟩
  · rw [reading_token hr] at h
    obtain ⟨y, -, hy⟩ := Option.map_eq_some_iff.mp h
    exact ⟨_, _, (congrArg Prod.snd hy).symm⟩

theorem Rule.reading_text (hr : r.kind = .branch ∨ r.kind = .token)
    (h : r.reading .spaced cs = some (c, [m])) : cs = m.text.toList ++ c := by
  obtain ⟨x, rfl⟩ := reading_suffix h
  have hnamed : ∀ y : Reading, Reading.named r (x ++ c) y = some (c, [m]) → m.text.toList = x := by
    intro y hy
    obtain ⟨z, -, hz⟩ := Option.map_eq_some_iff.mp hy
    obtain ⟨rfl, hm⟩ := Prod.mk.inj hz
    rw [← List.singleton_inj.mp hm]
    simp [Node.text]
  rcases hr with hr | hr
  · rw [reading_branch hr] at h
    rw [hnamed _ h]
  · rw [reading_token hr] at h
    rw [hnamed _ h]

namespace Expr

def seen : Expr → List Rule
  | .call r => [r]
  | seq a b | choice a b => a.seen ++ b.seen
  | opt a | many a => a.seen
  | literal _ | char _ | start | finish | notAhead _ => []

/-- A property of the nodes between two places holds of the nodes of a reading if it holds of
those of the rules that are called. -/
theorem reading_forall {P : List Char → List Char → Node → Prop}
    (hmono : ∀ cs cs₁ c c₁ x, cs₁ <:+ cs → c <:+ c₁ → P cs₁ c₁ x → P cs c x) (e : Expr)
    (hcall : ∀ r ∈ e.seen, ∀ cs c ns, Solid cs → r.reading .spaced cs = some (c, ns) →
      ∀ x ∈ ns, P cs c x)
    (hcs : Solid cs) (h : e.reading .spaced cs = some (c, ns)) : ∀ x ∈ ns, P cs c x := by
  -- the nodes of one part, and behind a gap those of the next
  have hjoin : ∀ {a b : Expr} {cs c₁ c : List Char} {ns ms : List Node}, Reads .spaced a cs c₁ ns →
      Reads .spaced b (skipGap c₁) c ms → (∀ x ∈ ns, P cs c₁ x) → (∀ x ∈ ms, P (skipGap c₁) c x) →
      ∀ x ∈ ns ++ ms, P cs c x := by
    intro a b cs c₁ c ns ms ha hb hns hms x hx
    rcases List.mem_append.mp hx with hx | hx
    · exact hmono _ _ _ _ _ (List.suffix_refl cs) (hb.suffix.trans (skipGap_suffix c₁)) (hns x hx)
    · exact hmono _ _ _ _ _ ((skipGap_suffix c₁).trans ha.suffix) (List.suffix_refl c) (hms x hx)
  replace h := reads_of_reading h
  induction h with
  | literal | char | stay => simp
  | call h => exact hcall _ (by simp [seen]) _ _ _ hcs h
  | seq ha hb iha ihb =>
    exact hjoin ha hb (iha (fun r hr => hcall r (by simp [seen, hr])) hcs)
      (ihb (fun r hr => hcall r (by simp [seen, hr])) (solid_skipGap _))
  | left _ ih | right _ ih => exact ih (fun r hr => hcall r (by simp [seen, hr])) hcs
  | opt _ ih | once _ ih => exact ih hcall hcs
  | more h ha ih iha => exact hjoin h ha (ih hcall hcs) (iha hcall (solid_skipGap _))

end Expr

def Rule.leaves (r : Rule) : List Rule :=
  match r.kind with
  | .branch | .token => [r]
  | .group => r.body.seen
  | .blank => []

theorem Rule.kind_of_group (h : r.kind = .group) :
    ∀ r' ∈ r.body.seen, r'.kind = .branch ∨ r'.kind = .token := by
  have hall : ∀ r ∈ Rule.all, r.kind = .group →
      ∀ r' ∈ r.body.seen, r'.kind = .branch ∨ r'.kind = .token := by decide
  exact forall_of_all hall r h

theorem Rule.kind_of_mem_leaves {r' : Rule} (h : r' ∈ r.leaves) :
    r'.kind = .branch ∨ r'.kind = .token := by
  rw [leaves] at h
  cases hk : r.kind with
  | branch => simp_all
  | token => simp_all
  | group =>
    rw [hk] at h
    exact kind_of_group hk _ h
  | blank => simp [hk] at h

theorem Rule.reading_nodes (hcs : Solid cs) (h : r.reading .spaced cs = some (c, ns)) :
    ∀ x ∈ ns, x.ReadBetween cs c ∧ x.rule ∈ r.leaves := by
  have hnode : ∀ (r : Rule) (cs c : List Char) (ns : List Node),
      r.kind = .branch ∨ r.kind = .token → Solid cs → r.reading .spaced cs = some (c, ns) →
      ∀ x ∈ ns, x.ReadBetween cs c ∧ x.rule = r := by
    intro r cs c ns hr hcs h x hx
    obtain ⟨t, ms, rfl⟩ := reading_singleton hr h
    obtain rfl := List.mem_singleton.mp hx
    exact ⟨⟨cs, c, List.suffix_refl cs, List.suffix_refl c, hcs, h⟩, rfl⟩
  cases hk : r.kind with
  | branch =>
    intro x hx
    obtain ⟨hread, hrule⟩ := hnode r cs c ns (.inl hk) hcs h x hx
    exact ⟨hread, by simp [leaves, hk, hrule]⟩
  | token =>
    intro x hx
    obtain ⟨hread, hrule⟩ := hnode r cs c ns (.inr hk) hcs h x hx
    exact ⟨hread, by simp [leaves, hk, hrule]⟩
  | group =>
    rw [reading_group hk] at h
    simp only [leaves, hk]
    refine Expr.reading_forall (P := fun cs c x => x.ReadBetween cs c ∧ x.rule ∈ r.body.seen)
      ?_ r.body ?_ hcs h
    · exact fun cs cs₁ c c₁ x hcs hc hx => ⟨hx.1.mono hcs hc, hx.2⟩
    · intro r' hr' cs c ns hcs h x hx
      obtain ⟨hread, hrule⟩ := hnode r' cs c ns (kind_of_group hk r' hr') hcs h x hx
      exact ⟨hread, hrule ▸ hr'⟩
  | blank =>
    rw [reading_eq, hk, ← reading_tight] at h
    simp [reading_tight_nodes h]

/-- Every node of a reading is read by its own rule, between the ends of the reading. -/
theorem Expr.reading_nodes {e : Expr} (hcs : Solid cs) (h : e.reading .spaced cs = some (c, ns)) :
    ∀ x ∈ ns, x.ReadBetween cs c ∧ x.rule ∈ e.seen.flatMap Rule.leaves := by
  refine reading_forall (P := fun cs c x => x.ReadBetween cs c ∧
    x.rule ∈ e.seen.flatMap Rule.leaves)
    ?_ e ?_ hcs h
  · exact fun cs cs₁ c c₁ x hcs hc hx => ⟨hx.1.mono hcs hc, hx.2⟩
  · intro r hr cs c ns hcs h x hx
    obtain ⟨hread, hrule⟩ := Rule.reading_nodes hcs h x hx
    exact ⟨hread, List.mem_flatMap.mpr ⟨r, hr, hrule⟩⟩

theorem Node.ReadBetween.split (h : m.ReadBetween cs c) :
    ∃ a b, cs = a ++ m.text.toList ++ b ++ c := by
  obtain ⟨ds, ds', ⟨a, rfl⟩, ⟨b, rfl⟩, hsolid, hread⟩ := h
  have hkind :=
    Rule.kind_of_mem_leaves (Rule.reading_nodes hsolid hread m (List.mem_singleton_self m)).2
  refine ⟨a, b, ?_⟩
  rw [Rule.reading_text hkind hread, List.append_assoc, List.append_assoc]

theorem Node.ReadBetween.length_text (h : m.ReadBetween cs c) :
    m.text.length + c.length ≤ cs.length := by
  obtain ⟨a, b, rfl⟩ := h.split
  simp only [List.length_append, String.length_toList]
  omega

/-! ### Nodes that are left for sure -/

/-- Whether every match of an expression leaves a node of one of the given rules. -/
def Expr.surely (rs : List Rule) : Expr → Bool
  | .call r => decide (r ∈ rs) && (r.kind = .branch || r.kind = .token)
  | seq a b => a.surely rs || b.surely rs
  | choice a b => a.surely rs && b.surely rs
  | literal _ | char _ | start | finish | opt _ | many _ | notAhead _ => false

theorem Expr.exists_of_surely {rs : List Rule} {e : Expr} (he : e.surely rs = true)
    (h : e.reading .spaced cs = some (c, ns)) : ∃ x ∈ ns, x.rule ∈ rs := by
  induction e generalizing cs c ns with
  | call r =>
    simp only [surely, Bool.and_eq_true, decide_eq_true_eq, Bool.or_eq_true] at he
    rw [reading_call] at h
    obtain ⟨t, ms, rfl⟩ := Rule.reading_singleton he.2 h
    exact ⟨_, List.mem_singleton_self _, he.1⟩
  | seq a b iha ihb =>
    rw [reading_seq, Reading.andThen_eq_some] at h
    obtain ⟨c₁, ns₁, ns₂, h₁, h₂, rfl⟩ := h
    simp only [surely, Bool.or_eq_true] at he
    rcases he with he | he
    · obtain ⟨x, hx, hrule⟩ := iha he h₁
      exact ⟨x, List.mem_append_left _ hx, hrule⟩
    · obtain ⟨x, hx, hrule⟩ := ihb he h₂
      exact ⟨x, List.mem_append_right _ hx, hrule⟩
  | choice a b iha ihb =>
    simp only [surely, Bool.and_eq_true] at he
    rw [reading_choice, Option.or_eq_some_iff] at h
    exact h.elim (iha he.1) fun h => ihb he.2 h.2
  | _ => simp [surely] at he

/-! ### Nodes of parse trees -/

/-- The node, its offsets apart, is read by its own rule from a place where no gap begins. -/
def Node.Read (m : Node) : Prop :=
  ∃ cs c, Solid cs ∧ m.rule.reading .spaced cs = some (c, [m.unplaced])

theorem Node.rule_unplaced (m : Node) : m.unplaced.rule = m.rule := by
  cases m
  rw [unplaced_mk]
  rfl

theorem Node.text_unplaced (m : Node) : m.unplaced.text = m.text := by
  cases m
  rw [unplaced_mk]
  rfl

theorem Node.children_unplaced (m : Node) : m.unplaced.children = m.children.map Node.unplaced := by
  cases m
  rw [unplaced_mk]
  rfl

theorem Node.child?_unplaced (m : Node) (r : Rule) :
    m.unplaced.child? r = (m.child? r).map Node.unplaced := by
  rw [child?, child?, children_unplaced, List.find?_map]
  simp only [Function.comp_def, rule_unplaced]

theorem Node.childText?_unplaced (m : Node) (r : Rule) :
    m.unplaced.childText? r = m.childText? r := by
  rw [childText?, childText?, child?_unplaced, Option.map_map]
  simp only [Function.comp_def, text_unplaced]

theorem Node.childrenOf_unplaced (m : Node) (r : Rule) :
    m.unplaced.childrenOf r = (m.childrenOf r).map Node.unplaced := by
  rw [childrenOf, childrenOf, children_unplaced, List.filter_map]
  simp only [Function.comp_def, rule_unplaced]

theorem Node.ReadBetween.read (h : m.unplaced.ReadBetween cs c) : m.Read := by
  obtain ⟨ds, ds', -, -, hsolid, hread⟩ := h
  rw [Node.rule_unplaced] at hread
  exact ⟨ds, ds', hsolid, hread⟩

/-- The parts of a node over its parts are what the body of its rule reads. -/
theorem Node.Read.body (h : m.Read) (hr : m.rule.kind = .branch) :
    ∃ x c, Solid (x ++ c) ∧ m.text = .ofList x ∧
      m.rule.body.reading .spaced (x ++ c) = some (c, m.children.map Node.unplaced) := by
  obtain ⟨cs, c, hsolid, hread⟩ := h
  obtain ⟨x, ms, rfl, hbody, hm⟩ := Rule.reading_branch_eq_some hr hread
  obtain hm := List.singleton_inj.mp hm
  refine ⟨x, c, hsolid, ?_, ?_⟩
  · rw [← Node.text_unplaced, hm]
    rfl
  · rw [hbody, ← Node.children_unplaced, hm]
    rfl

theorem Node.child?_eq_some (h : m.child? r = some x) : x ∈ m.children ∧ x.rule = r :=
  ⟨List.mem_of_find?_eq_some h, by simpa using List.find?_some h⟩

theorem Node.mem_childrenOf : x ∈ m.childrenOf r ↔ x ∈ m.children ∧ x.rule = r := by
  simp [childrenOf]

theorem Node.exists_child? (hx : x ∈ m.children) (hr : x.rule = r) : ∃ y, m.child? r = some y := by
  rw [← Option.isSome_iff_exists, child?, List.find?_isSome]
  exact ⟨x, hx, by simpa using hr⟩

section Children

variable {m : Node} (h : m.Read) (hr : m.rule.kind = .branch)
include h hr

theorem Node.Read.child (hx : x ∈ m.children) :
    x.Read ∧ x.rule ∈ m.rule.body.seen.flatMap Rule.leaves := by
  obtain ⟨t, c, hsolid, -, hread⟩ := h.body hr
  obtain ⟨hbetween, hrule⟩ := Expr.reading_nodes hsolid hread x.unplaced (List.mem_map_of_mem hx)
  exact ⟨hbetween.read, by rwa [Node.rule_unplaced] at hrule⟩

theorem Node.Read.length_child (hx : x ∈ m.children) : x.text.length ≤ m.text.length := by
  obtain ⟨t, c, hsolid, htext, hread⟩ := h.body hr
  have hlen := (Expr.reading_nodes hsolid hread x.unplaced (List.mem_map_of_mem hx)).1.length_text
  rw [Node.text_unplaced, List.length_append] at hlen
  rw [htext, String.length_ofList]
  omega

theorem Node.Read.length_child_lt {e : Expr} {d : Char} (he : m.rule.body = .seq e (.literal [d]))
    (hx : x ∈ m.children) : x.text.length < m.text.length := by
  obtain ⟨t, c, hsolid, htext, hread⟩ := h.body hr
  rw [he, reading_seq, Reading.andThen_eq_some] at hread
  obtain ⟨c₁, ns₁, ns₂, h₁, h₂, hns⟩ := hread
  rw [reading_literal, Option.ite_none_right_eq_some, Option.some.injEq, Prod.mk.injEq] at h₂
  obtain ⟨hpre, hc, rfl⟩ := h₂
  have hxm : x.unplaced ∈ ns₁ := by
    have := List.mem_map_of_mem (f := Node.unplaced) hx
    rwa [hns, List.append_nil] at this
  have hlen := (Expr.reading_nodes hsolid h₁ x.unplaced hxm).1.length_text
  have hle := (skipGap_suffix c₁).length_le
  have hone := hpre.length_le
  have hcl := congrArg List.length hc
  simp only [skipBetween, List.length_drop, List.length_singleton] at hone hcl
  rw [Node.text_unplaced, List.length_append] at hlen
  rw [htext, String.length_ofList]
  omega

theorem Node.Read.exists_child (rs : List Rule) (hs : m.rule.body.surely rs = true) :
    ∃ x ∈ m.children, x.rule ∈ rs := by
  obtain ⟨t, c, -, -, hread⟩ := h.body hr
  obtain ⟨x, hx, hrule⟩ := Expr.exists_of_surely hs hread
  obtain ⟨y, hy, rfl⟩ := List.mem_map.mp hx
  exact ⟨y, hy, by rwa [Node.rule_unplaced] at hrule⟩

theorem Node.Read.exists_child? (r : Rule) (hs : m.rule.body.surely [r] = true) :
    ∃ x, m.child? r = some x := by
  obtain ⟨y, hy, hrule⟩ := h.exists_child hr [r] hs
  exact Node.exists_child? hy (List.mem_singleton.mp hrule)

end Children

theorem Node.Read.kind (h : m.Read) : m.rule.kind = .branch ∨ m.rule.kind = .token := by
  obtain ⟨cs, c, hsolid, hread⟩ := h
  have hrule := (Rule.reading_nodes hsolid hread _ (List.mem_singleton_self _)).2
  rw [Node.rule_unplaced] at hrule
  exact Rule.kind_of_mem_leaves hrule

theorem Node.Read.part (h : m.Read) (hx : x ∈ m.children) :
    x.Read ∧ m.rule.kind = .branch ∧ x.rule ∈ m.rule.body.seen.flatMap Rule.leaves := by
  rcases h.kind with hk | hk
  · exact ⟨(h.child hk hx).1, hk, (h.child hk hx).2⟩
  · -- a token has no parts
    obtain ⟨r, s, t, ns⟩ := m
    obtain ⟨cs, d, -, hread⟩ := h
    have hread : r.reading .spaced cs = some (d, [(Node.mk r s t ns).unplaced]) := hread
    rw [Rule.reading_token (r := r) hk, ← Rule.reading_tight] at hread
    obtain ⟨⟨d', ms⟩, hbody, hy⟩ := Option.map_eq_some_iff.mp hread
    have hms := Rule.reading_tight_nodes hbody
    simp only [Node.unplaced_mk, Prod.mk.injEq, List.cons.injEq, Node.mk.injEq, hms] at hy
    have hx : x ∈ ns := hx
    simp [List.map_eq_nil_iff.mp hy.2.1.2.2.2.symm] at hx

theorem Node.Read.of_child? (h : m.Read) (hx : m.child? r = some x) :
    x.Read ∧ x.rule = r ∧ x.text.length ≤ m.text.length := by
  obtain ⟨hmem, hrule⟩ := Node.child?_eq_some hx
  exact ⟨(h.part hmem).1, hrule, h.length_child (h.part hmem).2.1 hmem⟩

theorem Node.Read.part_of {P : Rule → Prop} (h : m.Read) (hr : m.rule = r)
    (hP : ∀ r' ∈ r.body.seen.flatMap Rule.leaves, P r') (hx : x ∈ m.children) :
    x.Read ∧ P x.rule :=
  ⟨(h.part hx).1, hP _ (hr ▸ (h.part hx).2.2)⟩

theorem Node.Read.childrenOf_eq_children {q : Rule} (h : m.Read) (hr : m.rule = r)
    (hq : ∀ r' ∈ r.body.seen.flatMap Rule.leaves, r' = q) : m.childrenOf q = m.children :=
  List.filter_eq_self.mpr fun _ hx => decide_eq_true (h.part_of (P := (· = q)) hr hq hx).2

theorem Node.child?_eq_head? (m : Node) (r : Rule) : m.child? r = (m.childrenOf r).head? := by
  rw [child?, childrenOf, List.head?_filter]

theorem Node.Read.infix_child (h : m.Read) (hx : x ∈ m.children) :
    x.text.toList <:+: m.text.toList := by
  obtain ⟨t, c, hsolid, htext, hread⟩ := h.body (h.part hx).2.1
  obtain ⟨a, b, hsplit⟩ :=
    (Expr.reading_nodes hsolid hread x.unplaced (List.mem_map_of_mem hx)).1.split
  rw [Node.text_unplaced, List.append_left_inj] at hsplit
  rw [htext, String.toList_ofList, hsplit]
  exact ⟨a, b, rfl⟩

theorem Node.Read.text_mem {w : String} {ws : List String} (h : m.Read) (hr : m.rule.kind = .token)
    (hb : m.rule.body = word (oneOf w ws)) : m.text ∈ w :: ws := by
  obtain ⟨cs, c, -, hread⟩ := h
  have htext := Rule.reading_text (.inr hr) hread
  rw [Node.text_unplaced] at htext
  rw [Rule.reading_token hr, hb] at hread
  obtain ⟨⟨d, ms⟩, hbody, hy⟩ := Option.map_eq_some_iff.mp hread
  obtain ⟨rfl, -⟩ := Prod.mk.inj hy
  rw [word, reading_seq, Reading.andThen_eq_some] at hbody
  obtain ⟨c₁, ns₁, ns₂, h₁, h₂, -⟩ := hbody
  -- what follows a word is looked at, not read
  obtain rfl : c₁ = d := by
    rw [reading_notAhead] at h₂
    split at h₂
    · simp at h₂
    · exact congrArg Prod.fst (Option.some.inj h₂)
  rw [reading_oneOf] at h₁
  obtain ⟨u, hfind, hu⟩ := Option.map_eq_some_iff.mp h₁
  obtain ⟨t, rfl⟩ : u.toList <+: cs := by simpa using List.find?_some hfind
  rw [List.drop_left, Prod.mk.injEq] at hu
  rw [hu.1, List.append_left_inj] at htext
  rw [← String.toList_injective htext]
  exact List.mem_of_find?_eq_some hfind

theorem Node.Read.within {n : Node} (hn : n.Read) (h : m.Within n) : m.Read := by
  induction h with
  | self => exact hn
  | inside hc _ ih => exact ih (hn.part hc).1

/-! ### Names -/

def Rule.names : List Rule :=
  [.identifier, .superclassName, .categoryName, .protocolName, .selector]

/-- A name is the identifier that some text starts with. -/
theorem Node.Read.exists_identRun (h : m.Read) (hr : m.rule ∈ Rule.names) :
    ∃ cs, startsIdent cs = true ∧ m.text.toList = identRun cs := by
  have hall : ∀ r ∈ Rule.names, r = .identifier ∨ r.kind = .branch ∧
      r.body = .call .identifier := by
    decide
  rcases hall _ hr with hr | ⟨hk, hb⟩
  · obtain ⟨cs, c, -, hread⟩ := h
    rw [hr, Rule.identifier_reading, Option.ite_none_right_eq_some, Option.some.injEq,
      Prod.mk.injEq] at hread
    refine ⟨cs, hread.1, ?_⟩
    rw [← Node.text_unplaced, ← List.singleton_inj.mp hread.2.2, Node.token, Node.text,
      String.toList_ofList]
  · obtain ⟨x, c, -, htext, hread⟩ := h.body hk
    rw [hb, Expr.reading_call, Rule.identifier_reading, Option.ite_none_right_eq_some,
      Option.some.injEq, Prod.mk.injEq] at hread
    have hrun : identRun (x ++ c) = x := by
      have hsplit := identRun_append_identRest (x ++ c)
      rwa [hread.2.1, List.append_left_inj] at hsplit
    exact ⟨x ++ c, hread.1, by rw [htext, String.toList_ofList, hrun]⟩

theorem Node.Read.isIdentChar (h : m.Read) (hr : m.rule ∈ Rule.names) :
    ∀ c ∈ m.text.toList, isIdentChar c = true := by
  obtain ⟨cs, -, htext⟩ := h.exists_identRun hr
  rw [htext]
  exact fun c hc => isIdentChar_of_mem_identRun hc

end HeaderBridge.Grammar
