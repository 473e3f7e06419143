import HeaderBridge.Grammar.Matching

/-! # What a match leads to

Each way of combining matches is inverted once. From this follows the general
form of a statement about all successful matches: a relation between the start
of a match, its end and its nodes that holds of empty matches and of one match
after another holds of every expression, if it holds of what the expression
calls.
-/

namespace HeaderBridge.Grammar

/-! ### Successful matches -/

namespace Matcher

variable {a b gap : Matcher} {c c' : Cursor} {f f' : Furthest} {ns : List Node}

theorem ofStep_matched {step : Cursor → Option Cursor} :
    ofStep step c f = .matched c' ns f' ↔ step c = some c' ∧ ns = [] ∧ f' = f := by
  unfold ofStep
  cases step c <;> simp [eq_comm]

theorem andThen_matched :
    a.andThen b c f = .matched c' ns f' ↔
      ∃ c₁ ns₁ f₁ ns₂, a c f = .matched c₁ ns₁ f₁ ∧ b c₁ f₁ = .matched c' ns₂ f' ∧
        ns = ns₁ ++ ns₂ := by
  unfold andThen
  cases ha : a c f with
  | matched c₁ ns₁ f₁ =>
    cases hb : b c₁ f₁ with
    | matched c₂ ns₂ f₂ =>
      simp only [hb, Outcome.matched.injEq]
      constructor
      · rintro ⟨rfl, rfl, rfl⟩
        exact ⟨_, _, _, _, ⟨rfl, rfl, rfl⟩, hb, rfl⟩
      · rintro ⟨_, _, _, _, ⟨rfl, rfl, rfl⟩, hb', rfl⟩
        simp_all
    | failed f₂ => simp_all
    | exhausted => simp_all
  | failed f₁ => simp
  | exhausted => simp

theorem orElse_matched :
    a.orElse b c f = .matched c' ns f' ↔
      a c f = .matched c' ns f' ∨ ∃ f₁, a c f = .failed f₁ ∧ b c f₁ = .matched c' ns f' := by
  unfold orElse
  cases ha : a c f <;> simp

theorem opt_matched :
    a.opt c f = .matched c' ns f' ↔
      a c f = .matched c' ns f' ∨ a c f = .failed f' ∧ c' = c ∧ ns = [] := by
  unfold opt
  cases ha : a c f <;> simp [eq_comm, and_comm, and_left_comm]

theorem notAhead_matched :
    a.notAhead c f = .matched c' ns f' ↔
      (∃ f₁, a c f = .failed f₁) ∧ c' = c ∧ ns = [] ∧ f' = f := by
  unfold notAhead
  cases ha : a c f <;> simp [eq_comm]

theorem many_matched {n : Nat} :
    many gap a n c f = .matched c' ns f' ↔
      (a c f = .failed f' ∧ c' = c ∧ ns = []) ∨
        ∃ c₁ ns₁ f₁, a c f = .matched c₁ ns₁ f₁ ∧
          rounds (gap.andThen a) n ns₁ c₁ f₁ = .matched c' ns f' := by
  unfold many
  cases ha : a c f with
  | matched c₁ ns₁ f₁ =>
    simp only [Outcome.matched.injEq, reduceCtorEq, false_and, false_or]
    exact ⟨fun h => ⟨_, _, _, ⟨rfl, rfl, rfl⟩, h⟩, by rintro ⟨_, _, _, ⟨rfl, rfl, rfl⟩, h⟩; exact h⟩
  | failed f₁ => simp [eq_comm, and_comm, and_left_comm]
  | exhausted => simp

theorem named_matched {r : Rule} :
    named r a c f = .matched c' ns f' ↔
      ∃ ms, a c f = .matched c' ms f' ∧ ns = [.mk r c.offset (c.textTo c') ms] := by
  unfold named
  cases ha : a c f with
  | matched c₁ ms f₁ =>
    simp only [Outcome.matched.injEq]
    constructor
    · rintro ⟨rfl, rfl, rfl⟩
      exact ⟨_, ⟨rfl, rfl, rfl⟩, rfl⟩
    · rintro ⟨_, ⟨rfl, rfl, rfl⟩, rfl⟩
      exact ⟨rfl, rfl, rfl⟩
  | failed f₁ => simp
  | exhausted => simp

/-! ### Relations between start, end and nodes -/

/-- The relation holds of all successful matches. -/
def Results (R : Cursor → Cursor → List Node → Prop) (a : Matcher) : Prop :=
  ∀ ⦃c f c' ns f'⦄, a c f = .matched c' ns f' → R c c' ns

/-- The relation holds of an empty match and of one match after another. -/
structure Composable (R : Cursor → Cursor → List Node → Prop) : Prop where
  refl : ∀ c, R c c []
  trans : ∀ {c₁ c₂ c₃ ns ms}, R c₁ c₂ ns → R c₂ c₃ ms → R c₁ c₃ (ns ++ ms)

variable {R : Cursor → Cursor → List Node → Prop}

theorem Results.andThen (hR : Composable R) (ha : Results R a) (hb : Results R b) :
    Results R (a.andThen b) := by
  intro c f c' ns f' h
  obtain ⟨c₁, ns₁, f₁, ns₂, h₁, h₂, rfl⟩ := andThen_matched.mp h
  exact hR.trans (ha h₁) (hb h₂)

theorem Results.orElse (ha : Results R a) (hb : Results R b) : Results R (a.orElse b) := by
  intro c f c' ns f' h
  rcases orElse_matched.mp h with h | ⟨f₁, -, h⟩
  · exact ha h
  · exact hb h

theorem Results.opt (hR : Composable R) (ha : Results R a) : Results R a.opt := by
  intro c f c' ns f' h
  rcases opt_matched.mp h with h | ⟨-, rfl, rfl⟩
  · exact ha h
  · exact hR.refl _

theorem Results.notAhead (hR : Composable R) : Results R a.notAhead := by
  intro c f c' ns f' h
  obtain ⟨-, rfl, rfl, -⟩ := notAhead_matched.mp h
  exact hR.refl _

theorem Results.rounds (hR : Composable R) (ha : Results R a) (n : Nat) {c₀ c c' : Cursor}
    {ns ms : List Node} {f f' : Furthest} (h₀ : R c₀ c ns)
    (h : rounds a n ns c f = .matched c' ms f') : R c₀ c' ms := by
  induction n generalizing c ns f with
  | zero => simp [Matcher.rounds] at h
  | succ n ih =>
    rw [Matcher.rounds] at h
    cases hc : a c f with
    | matched c₁ ns₁ f₁ =>
      rw [hc] at h
      exact ih (hR.trans h₀ (ha hc)) h
    | failed f₁ =>
      simp only [hc, Outcome.matched.injEq] at h
      obtain ⟨rfl, rfl, -⟩ := h
      exact h₀
    | exhausted => simp [hc] at h

theorem Results.many (hR : Composable R) (hg : Results R gap) (ha : Results R a) (n : Nat) :
    Results R (many gap a n) := by
  intro c f c' ns f' h
  rcases many_matched.mp h with ⟨-, rfl, rfl⟩ | ⟨c₁, ns₁, f₁, h₁, h₂⟩
  · exact hR.refl _
  · exact (hg.andThen hR ha).rounds hR n (ha h₁) h₂

end Matcher

/-! ### Expressions -/

theorem Rule.forall_of_all {P : Rule → Prop} (h : ∀ r ∈ Rule.all, P r) (r : Rule) : P r :=
  h r (Rule.mem_all r)

def Expr.calls : Expr → List Rule
  | .call r => [r]
  | seq a b | choice a b => a.calls ++ b.calls
  | opt a | many a | notAhead a => a.calls
  | literal _ | char _ | start | finish => []

namespace Expr

open Matcher

variable {call : Mode → Rule → Matcher} {R : Cursor → Cursor → List Node → Prop}

theorem between_results (n : Nat) (mode : Mode) (hR : Composable R)
    (hw : Results R (call .tight .whitespace))
    (hc : Results R (call .tight .comment)) : Results R (eval.between call n mode) := by
  cases mode with
  | tight =>
    intro c f c' ns f' h
    simp only [eval.between, Outcome.matched.injEq] at h
    obtain ⟨rfl, rfl, -⟩ := h
    exact hR.refl _
  | spaced =>
    intro c f c' ns f' h
    exact (hw.orElse hc).rounds hR n (hR.refl c) h

/-- A composable relation holds of all matches of an expression if it holds of those of
characters, of blanks and comments, and of the rules that the expression calls. -/
theorem eval_results {n : Nat} {mode : Mode} (hR : Composable R)
    (hskip : ∀ cs c c', Cursor.skip? cs c = some c' → R c c' [])
    (hstep : ∀ cls c c', Cursor.step? cls c = some c' → R c c' [])
    (hw : Results R (call .tight .whitespace)) (hc : Results R (call .tight .comment))
    (e : Expr) (he : ∀ r ∈ e.calls, Results R (call mode r)) :
    Results R (e.eval call n mode) := by
  have hb := between_results n mode hR hw hc
  induction e with
  | literal l =>
    intro c f c' ns f' h
    obtain ⟨hs, rfl, -⟩ := ofStep_matched.mp h
    exact hskip _ _ _ hs
  | char cls =>
    intro c f c' ns f' h
    obtain ⟨hs, rfl, -⟩ := ofStep_matched.mp h
    exact hstep _ _ _ hs
  | start =>
    intro c f c' ns f' h
    obtain ⟨hs, rfl, -⟩ := ofStep_matched.mp h
    obtain rfl : c = c' := by split at hs <;> simp_all
    exact hR.refl _
  | finish =>
    intro c f c' ns f' h
    obtain ⟨hs, rfl, -⟩ := ofStep_matched.mp h
    obtain rfl : c = c' := by split at hs <;> simp_all
    exact hR.refl _
  | call r => exact he r (by simp [calls])
  | seq a b iha ihb =>
    simp only [calls, List.mem_append] at he
    exact (iha fun r hr => he r (.inl hr)).andThen hR
      (hb.andThen hR (ihb fun r hr => he r (.inr hr)))
  | choice a b iha ihb =>
    simp only [calls, List.mem_append] at he
    exact (iha fun r hr => he r (.inl hr)).orElse (ihb fun r hr => he r (.inr hr))
  | opt a ih => exact (ih he).opt hR
  | many a ih => exact .many hR hb (ih he) n
  | notAhead a _ => exact .notAhead hR

end Expr

end HeaderBridge.Grammar
