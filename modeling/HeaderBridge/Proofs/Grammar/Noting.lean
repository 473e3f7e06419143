import HeaderBridge.Proofs.Grammar.Appending

/-! # Where failures are noted

Of the failures that are noted on the way, a match keeps the furthest. Inside
tokens and gaps nothing is noted, and a rule whose parts fail nowhere else is noted
at its own start. So is a rule that cannot begin with the next character.
-/

namespace HeaderBridge.Grammar

/-- The furthest failure that is known after a match, if the match came to an end. -/
def Outcome.failure? : Outcome → Option Furthest
  | .matched _ _ f | .failed f => some f
  | .exhausted => none

theorem Furthest.offset_note (before f : Furthest) (r : Rule) (p : Nat) :
    (before.note f r p).offset = max f.offset p := by
  unfold note
  split
  · next hcount =>
    -- something failed at `p` inside the rule
    have hp : f.offset = p := by
      by_contra hne
      rw [countAt, if_neg hne] at hcount
      omega
    omega
  · split
    · next hlt => exact (Nat.max_eq_right hlt.le).symm
    · split
      · next heq => exact (Nat.max_eq_right heq.le).symm
      · exact (Nat.max_eq_left (by omega)).symm

namespace Matcher

variable {a b gap : Matcher} {c : Cursor} {f f' : Furthest}

/-! ### Failed matches -/

theorem andThen_failed :
    a.andThen b c f = .failed f' ↔
      a c f = .failed f' ∨ ∃ c₁ ns₁ f₁, a c f = .matched c₁ ns₁ f₁ ∧ b c₁ f₁ = .failed f' := by
  unfold andThen
  cases ha : a c f with
  | matched c₁ ns₁ f₁ => cases hb : b c₁ f₁ <;> simp_all
  | failed f₁ => simp
  | exhausted => simp

theorem named_failed {r : Rule} :
    named r a c f = .failed f' ↔ ∃ f₁, a c f = .failed f₁ ∧ f' = f.note f₁ r c.offset := by
  unfold named
  cases ha : a c f <;> simp [eq_comm]

/-! ### Matches that note nothing -/

/-- The matches note no failure. -/
def Quiet (a : Matcher) : Prop := ∀ ⦃c f f'⦄, (a c f).failure? = some f' → f' = f

theorem Quiet.ofStep (step : Cursor → Option Cursor) : Quiet (ofStep step) := by
  intro c f f' h
  unfold Matcher.ofStep at h
  cases hs : step c <;> rw [hs] at h <;> exact (Option.some.inj h).symm

theorem quiet_iff : Quiet a ↔ ∀ f, Like (.same fun f₁ f₂ => f₁ = f ∧ f₂ = f) a a := by
  constructor
  · rintro h f c _ f₁ f₂ rfl ⟨hf₁, hf₂⟩
    rw [hf₁, hf₂]
    have hf := @h c f
    revert hf
    cases a c f with
    | matched c₁ ns₁ f₁ => exact fun hf => .matched rfl rfl ⟨hf rfl, hf rfl⟩
    | failed f₁ => exact fun hf => .failed ⟨hf rfl, hf rfl⟩
    | exhausted => exact fun _ => .exhausted _
  · intro h c f f' hf'
    have hlike := h f (rfl : c = c) ⟨rfl, rfl⟩
    revert hf' hlike
    generalize a c f = x
    rintro hf' (_ | hf | ⟨-, -, hf⟩)
    · cases hf'
    · exact (Option.some.inj hf').symm.trans hf.1
    · exact (Option.some.inj hf').symm.trans hf.1

end Matcher

open Matcher

section Quiet

variable {call : Mode → Rule → Matcher} (h : ∀ r, Quiet (call .tight r)) (n : Nat)

include h

theorem Expr.between_quiet (mode : Mode) : Quiet (eval.between call n mode) :=
  quiet_iff.mpr fun f₀ => between_like (Likeness.same_lawful _) (Nat.le_refl n)
    (quiet_iff.mp (h .whitespace) f₀) (quiet_iff.mp (h .comment) f₀)

theorem Expr.eval_tight_quiet (e : Expr) : Quiet (e.eval call n .tight) :=
  quiet_iff.mpr fun f₀ => eval_like (Likeness.same_lawful _) (Nat.le_refl n)
    (quiet_iff.mp (h .whitespace) f₀) (quiet_iff.mp (h .comment) f₀)
    (fun r _ => quiet_iff.mp (h r) f₀) e (.inl (Likeness.same_fixed _))

end Quiet

theorem Rule.run_tight_quiet (n : Nat) (r : Rule) : Quiet (r.run n .tight) := by
  induction n generalizing r with
  | zero =>
    intro c f f' h
    simp [Rule.run, Outcome.failure?] at h
  | succ n ih =>
    have hbody := Expr.eval_tight_quiet ih n r.body
    cases hk : r.kind <;> simpa only [Rule.run, hk] using hbody

/-! ### Failures that are noted at one place -/

/-- The match notes no failure beyond the given offset. -/
def Outcome.NotedBy (f : Furthest) (p : Nat) (x : Outcome) : Prop :=
  ∀ f' ∈ x.failure?, f'.offset ≤ max f.offset p

theorem Matcher.Quiet.notedBy {a : Matcher} (h : Quiet a) (c : Cursor) (f : Furthest) (p : Nat) :
    (a c f).NotedBy f p := by
  intro f' hf'
  obtain rfl := h hf'
  exact Nat.le_max_left _ _

theorem Matcher.orElse_notedBy {a b : Matcher} {c : Cursor} {f : Furthest} {p : Nat}
    (ha : (a c f).NotedBy f p) (hb : ∀ f₁, (b c f₁).NotedBy f₁ p) :
    (a.orElse b c f).NotedBy f p := by
  unfold orElse
  cases hac : a c f with
  | exhausted =>
    intro f' hf'
    cases hf'
  | matched c₁ ns₁ f₁ =>
    rw [hac] at ha
    exact ha
  | failed f₁ =>
    intro f' hf'
    have h₁ : f₁.offset ≤ max f.offset p := ha f₁ (by rw [hac]; rfl)
    have h₂ := hb f₁ f' hf'
    omega

theorem Matcher.named_notedBy {r : Rule} {a : Matcher} {c : Cursor} {f : Furthest}
    (ha : (a c f).NotedBy f c.offset) : (named r a c f).NotedBy f c.offset := by
  unfold named
  cases hac : a c f with
  | exhausted =>
    intro f' hf'
    cases hf'
  | matched c₁ ns₁ f₁ =>
    intro f' hf'
    exact ha f' (by rw [hac]; exact hf')
  | failed f₁ =>
    intro f' hf'
    have h₁ : f₁.offset ≤ max f.offset c.offset := ha f₁ (by rw [hac]; rfl)
    obtain rfl := Option.some.inj hf'
    rw [Furthest.offset_note]
    omega

/-- Where the first character is missing, an expression fails at once. -/
theorem Expr.eval_of_head?_ne {call : Mode → Rule → Matcher} {n : Nat} {mode : Mode} {e : Expr}
    {x : Char} (he : e.firstChar? = some x) {c : Cursor} (hc : c.rest.head? ≠ some x)
    (f : Furthest) : e.eval call n mode c f = .failed f := by
  induction e with
  | literal l =>
    cases l with
    | nil => cases he
    | cons y l =>
      obtain rfl := Option.some.inj he
      have hskip : Cursor.skip? (y :: l) c = none := by
        rw [Cursor.skip?_eq, if_neg]
        rintro ⟨t, ht⟩
        exact hc (by rw [← ht]; rfl)
      simp only [eval, ofStep, hskip]
  | seq a b iha _ => simp only [eval, andThen, iha he]
  | _ => cases he

/-- A token, or a rule that cannot begin here, notes no failure beyond its start. -/
theorem Rule.run_notedBy {r : Rule} {c : Cursor} (h : r.kind = .token ∨ r.kind = .branch ∧
      ∃ x, r.body.firstChar? = some x ∧ c.rest.head? ≠ some x) (n : Nat) (f : Furthest) :
    (r.run n .spaced c f).NotedBy f c.offset := by
  cases n with
  | zero =>
    intro f' hf'
    cases hf'
  | succ n =>
    rcases h with hk | ⟨hk, x, hx, hc⟩
    · simp only [Rule.run, hk]
      exact named_notedBy ((Expr.eval_tight_quiet (run_tight_quiet n) n r.body).notedBy c f _)
    · simp only [Rule.run, hk]
      refine named_notedBy ?_
      rw [Expr.eval_of_head?_ne hx hc]
      intro f' hf'
      obtain rfl := Option.some.inj hf'
      exact Nat.le_max_left _ _

end HeaderBridge.Grammar
