import HeaderBridge.Proofs.Grammar.Results

/-! # Where the nodes of a parse tree come from

Every node of a parse tree was left by a match of its own rule, and that rule
belongs to any set of rules that holds the rule at the top and is closed under
calls. Inside tokens no node is left at all.
-/

namespace HeaderBridge.Grammar

open Matcher

/-! ### Nodes within nodes -/

inductive Node.Within (m : Node) : Node → Prop where
  | self : Within m m
  | inside {r : Rule} {s : Nat} {t : String} {ns : List Node} {c : Node} :
      c ∈ ns → Within m c → Within m (.mk r s t ns)

theorem Node.Within.child {m n c : Node} (hc : c ∈ n.children) (h : m.Within c) : m.Within n := by
  obtain ⟨r, s, t, ns⟩ := n
  exact .inside hc h

theorem Node.within_mk_iff {m : Node} {r : Rule} {s : Nat} {t : String} {ns : List Node} :
    m.Within (.mk r s t ns) ↔ m = .mk r s t ns ∨ ∃ c ∈ ns, m.Within c := by
  constructor
  · intro h
    cases h with
    | self => exact .inl rfl
    | inside hc h => exact .inr ⟨_, hc, h⟩
  · rintro (rfl | ⟨c, hc, h⟩)
    · exact .self
    · exact .inside hc h

/-! ### The nodes that a match leaves -/

def AllNodes (P : Node → Prop) : Cursor → Cursor → List Node → Prop := fun _ _ ns => ∀ x ∈ ns, P x

theorem AllNodes.composable (P : Node → Prop) : Composable (AllNodes P) where
  refl := by simp [AllNodes]
  trans h h' x hx := (List.mem_append.mp hx).elim (h x) (h' x)

theorem Expr.eval_allNodes {call : Mode → Rule → Matcher} (n : Nat) (mode : Mode) {P : Node → Prop}
    (hw : Results (AllNodes P) (call .tight .whitespace))
    (hc : Results (AllNodes P) (call .tight .comment)) (e : Expr)
    (he : ∀ r ∈ e.calls, Results (AllNodes P) (call mode r)) :
    Results (AllNodes P) (e.eval call n mode) :=
  eval_results (AllNodes.composable P) (by simp [AllNodes]) (by simp [AllNodes]) hw hc e he

theorem Rule.run_tight_allNodes (n : Nat) (r : Rule) :
    Results (AllNodes fun _ => False) (r.run n .tight) := by
  induction n generalizing r with
  | zero => intro c f c' ns f' h; simp [Rule.run] at h
  | succ n ih =>
    have h := Expr.eval_allNodes n .tight (ih .whitespace) (ih .comment) r.body
      fun r _ => ih r
    intro c f c' ns f' hm
    cases hk : r.kind <;> simp only [Rule.run, hk] at hm <;> exact h hm

theorem Rule.run_tight_nodes {n : Nat} {r : Rule} {c c' : Cursor} {f f' : Furthest} {ns : List Node}
    (h : r.run n .tight c f = .matched c' ns f') : ns = [] :=
  List.eq_nil_iff_forall_not_mem.mpr fun x hx => (run_tight_allNodes n r h x hx).elim

/-- The node was left by a match of its own rule. -/
def Node.Matched (m : Node) : Prop :=
  ∃ n c f c' f', m.rule.run n .spaced c f = .matched c' [m] f'

section Provenance

variable {S : Rule → Prop}

/-- Every node of a parse tree was left by a match of its own rule, and that rule
lies in every set of rules that is closed under calls and holds the one at the top. -/
theorem Rule.run_allNodes (hS : ∀ r, S r → ∀ r' ∈ r.body.calls, S r') (n : Nat) (mode : Mode)
    (r : Rule) (hr : S r) :
    Results (AllNodes fun x => ∀ m, Node.Within m x → m.Matched ∧ S m.rule) (r.run n mode) := by
  induction n generalizing mode r with
  | zero => intro c f c' ns f' h; simp [Rule.run] at h
  | succ n ih =>
    intro c f c' ns f' h
    cases mode with
    | tight => rw [run_tight_nodes h]; simp [AllNodes]
    | spaced =>
      have hg : ∀ r : Rule, Results (AllNodes fun x => ∀ m, Node.Within m x → m.Matched ∧ S m.rule)
          (r.run n .tight) := by
        intro r c f c' ns f' h
        rw [run_tight_nodes h]
        simp [AllNodes]
      have hbody := fun mode => Expr.eval_allNodes n mode
        (hg .whitespace) (hg .comment) r.body fun r' hr' => ih mode r' (hS r hr r' hr')
      -- the node of the rule itself, over nodes that are known to be good
      have hnamed : ∀ mode, Matcher.named r (r.body.eval (Rule.run n) n mode) c f =
          .matched c' ns f' →
          ∀ x ∈ ns, ∀ m, Node.Within m x → m.Matched ∧ S m.rule := by
        intro mode hm x hx m hmx
        obtain ⟨ms, hms, rfl⟩ := Matcher.named_matched.mp hm
        obtain rfl := List.mem_singleton.mp hx
        rcases Node.within_mk_iff.mp hmx with rfl | ⟨y, hy, hmy⟩
        · exact ⟨⟨_, _, _, _, _, h⟩, hr⟩
        · exact hbody mode hms y hy m hmy
      cases hk : r.kind <;> simp only [Rule.run, hk] at h
      · exact hnamed _ h
      · exact hnamed _ h
      · exact hbody _ h
      · exact hbody _ h

end Provenance

end HeaderBridge.Grammar
