import HeaderBridge.Proofs.Grammar.Consumption

/-! # Matching always comes to an end

The grammar is checked once: the body of every repetition consumes a character,
and the rules that can be called before a character is consumed do not form a
cycle. So a rule is called only where less text is left, or further down such a
chain of first calls, and the bound on calls that `Rule.matchText` takes is never
used up.
-/

namespace HeaderBridge.Grammar

open Matcher

/-! ### Checks of the grammar -/

/-- Every repetition in an expression consumes a character in each round. -/
def Expr.loopsConsume : Expr → Bool
  | many a => !a.mayBeEmpty && a.loopsConsume
  | seq a b | choice a b => a.loopsConsume && b.loopsConsume
  | opt a | notAhead a => a.loopsConsume
  | literal _ | char _ | start | finish | .call _ => true

/-- The rules that an expression can call before it has consumed a character. -/
def Expr.firstCalls : Expr → List Rule
  | .call r => [r]
  | seq a b => a.firstCalls ++ if a.mayBeEmpty then b.firstCalls else []
  | choice a b => a.firstCalls ++ b.firstCalls
  | opt a | many a | notAhead a => a.firstCalls
  | literal _ | char _ | start | finish => []

def Rule.chain : Nat → Rule → Nat
  | 0, _ => 0
  | n + 1, r => (r.body.firstCalls.map (Rule.chain n)).foldr max 0 + 1

/-- A number that is smaller for the rules that a rule can call first, and smallest
for blanks and comments. -/
def Rule.level (r : Rule) : Nat :=
  if r = .whitespace ∨ r = .comment then 0 else r.chain 16

theorem Rule.body_loopsConsume (r : Rule) : r.body.loopsConsume = true := by
  have h : ∀ r ∈ Rule.all, r.body.loopsConsume = true := by decide
  exact forall_of_all h r

theorem Rule.level_firstCalls (r : Rule) : ∀ r' ∈ r.body.firstCalls, r'.level < r.level := by
  have h : ∀ r ∈ Rule.all, ∀ r' ∈ r.body.firstCalls, r'.level < r.level := by decide
  exact forall_of_all h r

theorem Rule.level_lt (r : Rule) : r.level + 2 ≤ Rule.all.length + 1 := by
  have h : ∀ r ∈ Rule.all, r.level + 2 ≤ Rule.all.length + 1 := by decide
  exact forall_of_all h r

theorem Rule.level_pos (r : Rule) (h : r.kind ≠ .blank) : 0 < r.level := by
  have hall : ∀ r ∈ Rule.all, r.kind ≠ .blank → 0 < r.level := by decide
  exact forall_of_all hall r h

/-! ### Matches that come to an end -/

namespace Matcher

variable {a b : Matcher} {c : Cursor} {f : Furthest} {n : Nat}

theorem ofStep_ne_exhausted (step : Cursor → Option Cursor) : ofStep step c f ≠ .exhausted := by
  unfold ofStep
  cases step c <;> simp

theorem andThen_ne_exhausted (ha : a c f ≠ .exhausted)
    (hb : ∀ {c₁ ns₁ f₁}, a c f = .matched c₁ ns₁ f₁ → b c₁ f₁ ≠ .exhausted) :
    a.andThen b c f ≠ .exhausted := by
  unfold andThen
  cases hac : a c f with
  | matched c₁ ns₁ f₁ =>
    have h₂ := hb hac
    cases hbc : b c₁ f₁ <;> simp_all
  | failed f₁ => simp
  | exhausted => exact absurd hac ha

theorem orElse_ne_exhausted (ha : a c f ≠ .exhausted) (hb : ∀ f₁, b c f₁ ≠ .exhausted) :
    a.orElse b c f ≠ .exhausted := by
  unfold orElse
  cases hac : a c f with
  | matched c₁ ns₁ f₁ => simp
  | failed f₁ => exact hb f₁
  | exhausted => exact absurd hac ha

theorem opt_ne_exhausted (ha : a c f ≠ .exhausted) : a.opt c f ≠ .exhausted := by
  unfold opt
  cases hac : a c f <;> simp_all

theorem notAhead_ne_exhausted (ha : a c f ≠ .exhausted) : a.notAhead c f ≠ .exhausted := by
  unfold notAhead
  cases hac : a c f <;> simp_all

theorem named_eq_exhausted {r : Rule} : named r a c f = .exhausted ↔ a c f = .exhausted := by
  unfold named
  cases hac : a c f <;> simp

/-- Each round leaves less text, so there are no more rounds than characters. -/
theorem rounds_ne_exhausted (hm : Results Moves a) (hs : Results Shrinks a)
    (ha : ∀ c' f', c.Ahead c' → a c' f' ≠ .exhausted) (hn : c.rest.length < n) (ns : List Node) :
    rounds a n ns c f ≠ .exhausted := by
  induction n generalizing c f ns with
  | zero => omega
  | succ n ih =>
    rw [rounds]
    cases hac : a c f with
    | matched c₁ ns₁ f₁ =>
      have hlt : c₁.rest.length < c.rest.length := hs hac
      exact ih (fun c' f' hc' => ha c' f' ((hm hac).trans hc')) (by omega) _
    | failed f₁ => simp
    | exhausted => exact absurd hac (ha c f (.refl c))

theorem Results.after (hb : Results Shrinks b) (ha : Results Moves a) :
    Results Shrinks (a.andThen b) := by
  intro c f c' ns f' h
  obtain ⟨c₁, ns₁, f₁, ns₂, h₁, h₂, -⟩ := andThen_matched.mp h
  have hle := (ha h₁).length_le
  have hlt : c'.rest.length < c₁.rest.length := hb h₂
  exact Nat.lt_of_lt_of_le hlt hle

end Matcher

/-! ### Calls of an expression -/

namespace Expr

/-- The calls that a match of an expression can make from a place on, as far as can be told
from the form of the expression. -/
inductive MayCall (mode : Mode) (e : Expr) (c : Cursor) : Mode → Rule → Cursor → Prop where
  /-- Blanks and comments, wherever they may stand. -/
  | gap {r : Rule} {c' : Cursor} (spaced : mode = .spaced) (blank : r = .whitespace ∨ r = .comment)
      (ahead : c.Ahead c') : MayCall mode e c .tight r c'
  /-- The rules of the expression;
  where nothing has been consumed, only those that it calls first. -/
  | rule {r : Rule} {c' : Cursor} (called : r ∈ e.calls) (ahead : c.Ahead c')
      (first : r ∈ e.firstCalls ∨ c'.rest.length < c.rest.length) : MayCall mode e c mode r c'

variable {call : Mode → Rule → Matcher} {n : Nat} {mode : Mode} {c : Cursor} {f : Furthest}

theorem MayCall.of_part {a e : Expr} {c₁ c' : Cursor} {mode' : Mode} {r : Rule}
    (h : a.MayCall mode c₁ mode' r c') (hcalls : a.calls ⊆ e.calls) (hahead : c.Ahead c₁)
    (hfirst : a.firstCalls ⊆ e.firstCalls ∨ c₁.rest.length < c.rest.length) :
    e.MayCall mode c mode' r c' := by
  cases h with
  | gap hspaced hblank hc' => exact .gap hspaced hblank (hahead.trans hc')
  | rule hr hc' hr' =>
    refine .rule (hcalls hr) (hahead.trans hc') ?_
    have hle := hc'.length_le
    have hle₁ := hahead.length_le
    rcases hr' with hr' | hlt
    · exact hfirst.imp (fun hsub => hsub hr') fun hlt => by omega
    · exact .inr (by omega)

theorem MayCall.of_first {a e : Expr} {c' : Cursor} {mode' : Mode} {r : Rule}
    (h : a.MayCall mode c mode' r c') (hcalls : a.calls ⊆ e.calls)
    (hfirst : a.firstCalls ⊆ e.firstCalls) : e.MayCall mode c mode' r c' :=
  h.of_part hcalls (.refl c) (.inl hfirst)

section Eval

variable (hmoves : ∀ mode r, Results Moves (call mode r))
  (hshrinks : ∀ mode r, r.mayBeEmpty = false → Results Shrinks (call mode r))

include hmoves hshrinks

theorem between_ne_exhausted {e : Expr} {c₁ : Cursor} (hn : c.rest.length < n)
    (hcall : ∀ {mode' r c'} f', e.MayCall mode c mode' r c' → call mode' r c' f' ≠ .exhausted)
    (hc₁ : c.Ahead c₁) : eval.between call n mode c₁ f ≠ .exhausted := by
  cases mode with
  | tight => simp [eval.between]
  | spaced =>
    have hle := hc₁.length_le
    refine rounds_ne_exhausted ((hmoves _ _).orElse (hmoves _ _))
      ((hshrinks _ _ rfl).orElse (hshrinks _ _ rfl)) (fun c' f' hc' => ?_) (by omega) []
    exact orElse_ne_exhausted (hcall f' (.gap rfl (.inl rfl) (hc₁.trans hc'))) fun f₁ =>
      hcall f₁ (.gap rfl (.inr rfl) (hc₁.trans hc'))

/-- A match of an expression comes to an end if all calls do that it can make. -/
theorem eval_ne_exhausted (e : Expr) (he : e.loopsConsume = true) (hn : c.rest.length < n)
    (hcall : ∀ {mode' r c'} f', e.MayCall mode c mode' r c' → call mode' r c' f' ≠ .exhausted) :
    e.eval call n mode c f ≠ .exhausted := by
  have hbmoves : Results Moves (eval.between call n mode) :=
    between_results _ _ Moves.composable (hmoves _ _) (hmoves _ _)
  induction e generalizing c f with
  | literal l => exact ofStep_ne_exhausted _
  | char cls => exact ofStep_ne_exhausted _
  | start => exact ofStep_ne_exhausted _
  | finish => exact ofStep_ne_exhausted _
  | call r => exact hcall f (.rule (by simp [calls]) (.refl c) (.inl (by simp [firstCalls])))
  | seq a b iha ihb =>
    simp only [loopsConsume, Bool.and_eq_true] at he
    have h₀ : a.eval call n mode c f ≠ .exhausted := iha he.1 hn fun f' h =>
      hcall f' (h.of_first (by simp [calls]) (by simp [firstCalls]))
    refine andThen_ne_exhausted h₀ fun {c₁ ns₁ f₁} h₁ => ?_
    have hc₁ : c.Ahead c₁ := eval_moves hmoves a h₁
    refine andThen_ne_exhausted (between_ne_exhausted hmoves hshrinks hn hcall hc₁)
      fun {c₂ ns₂ f₂} h₂ => ?_
    have hc₂ : c.Ahead c₂ := hc₁.trans (hbmoves h₂)
    -- what the second part calls first counts as first only if the first can be empty
    have hfirst : b.firstCalls ⊆ (seq a b).firstCalls ∨ c₂.rest.length < c.rest.length := by
      cases hempty : a.mayBeEmpty with
      | true => exact .inl (by simp [firstCalls, hempty])
      | false =>
        have hlt : c₁.rest.length < c.rest.length :=
          eval_shrinks hmoves (hshrinks mode) a hempty h₁
        exact .inr (Nat.lt_of_le_of_lt (hbmoves h₂).length_le hlt)
    exact ihb he.2 (Nat.lt_of_le_of_lt hc₂.length_le hn) fun f' h =>
      hcall f' (h.of_part (by simp [calls]) hc₂ hfirst)
  | choice a b iha ihb =>
    simp only [loopsConsume, Bool.and_eq_true] at he
    exact orElse_ne_exhausted
      (iha he.1 hn fun f' h => hcall f' (h.of_first (by simp [calls]) (by simp [firstCalls])))
      fun f₁ => ihb he.2 hn fun f' h =>
        hcall f' (h.of_first (by simp [calls]) (by simp [firstCalls]))
  | opt a ih =>
    exact opt_ne_exhausted (ih he hn fun f' h => hcall f' (h.of_first (List.Subset.refl _)
      (List.Subset.refl _)))
  | many a ih =>
    simp only [loopsConsume, Bool.and_eq_true, Bool.not_eq_true'] at he
    have hamoves : Results Moves (a.eval call n mode) := eval_moves hmoves a
    have hashrinks : Results Shrinks (a.eval call n mode) :=
      eval_shrinks hmoves (hshrinks mode) a he.1
    have h₀ : a.eval call n mode c f ≠ .exhausted := ih he.2 hn fun f' h =>
      hcall f' (h.of_first (List.Subset.refl _) (List.Subset.refl _))
    simp only [eval, Matcher.many]
    cases h₁ : a.eval call n mode c f with
    | failed f₁ => simp
    | exhausted => exact absurd h₁ h₀
    | matched c₁ ns₁ f₁ =>
      have hlt : c₁.rest.length < c.rest.length := hashrinks h₁
      refine rounds_ne_exhausted (hbmoves.andThen Moves.composable hamoves)
        (hashrinks.after hbmoves) (fun c' f' hc' => ?_) (by omega) ns₁
      have hcc' : c.Ahead c' := (hamoves h₁).trans hc'
      refine andThen_ne_exhausted (between_ne_exhausted hmoves hshrinks hn hcall hcc')
        fun {c₂ ns₂ f₂} h₂ => ?_
      -- a later round begins where less text is left
      have hlt₂ : c₂.rest.length < c.rest.length :=
        Nat.lt_of_le_of_lt (hc'.trans (hbmoves h₂)).length_le hlt
      exact ih he.2 (by omega) fun f' h =>
        hcall f' (h.of_part (List.Subset.refl _) (hcc'.trans (hbmoves h₂)) (.inr hlt₂))
  | notAhead a ih =>
    exact notAhead_ne_exhausted (ih he hn fun f' h => hcall f' (h.of_first (List.Subset.refl _)
      (List.Subset.refl _)))

end Eval

end Expr

/-! ### Rules -/

def Rule.within (mode : Mode) (r : Rule) : Mode :=
  match r.kind, mode with
  | .branch, .spaced | .group, .spaced => .spaced
  | _, _ => .tight

theorem Rule.kind_ne_blank_of_within {mode : Mode} {r : Rule} (h : r.within mode = .spaced) :
    r.kind ≠ .blank := by
  intro hk
  cases mode <;> simp [within, hk] at h

theorem Rule.run_succ_eq_exhausted {n : Nat} {mode : Mode} {r : Rule} {c : Cursor} {f : Furthest} :
    r.run (n + 1) mode c f = .exhausted ↔
      r.body.eval (Rule.run n) n (r.within mode) c f = .exhausted := by
  cases hk : r.kind <;> cases mode <;> simp [Rule.run, within, hk, named_eq_exhausted]

/-- A rule is called where less text is left, or its level is lower. -/
theorem Expr.MayCall.descends {r r' : Rule} {mode mode' : Mode} {c c' : Cursor}
    (h : r.body.MayCall (r.within mode) c mode' r' c') :
    c.Ahead c' ∧ (c'.rest.length < c.rest.length ∨ r'.level < r.level) := by
  cases h with
  | gap hspaced hblank hahead =>
    have hpos := r.level_pos (Rule.kind_ne_blank_of_within hspaced)
    rcases hblank with rfl | rfl <;> exact ⟨hahead, .inr hpos⟩
  | rule _ hahead hfirst =>
    exact ⟨hahead, hfirst.symm.imp_right (r.level_firstCalls r')⟩

/-- A bound on calls that is enough for a rule where the given number of characters is left. -/
def Rule.enough (r : Rule) (len : Nat) : Nat := len * (Rule.all.length + 1) + r.level + 2

theorem Rule.enough_le_callBound (r : Rule) (len : Nat) : r.enough len ≤ callBound len := by
  have h := r.level_lt
  rw [enough, callBound, Nat.add_mul]
  omega

/-- Less is enough where less text is left, and for the rules that a rule can call first. -/
theorem Rule.enough_lt {r r' : Rule} {len len' : Nat} (hle : len' ≤ len)
    (h : len' < len ∨ r'.level < r.level) : r'.enough len' < r.enough len := by
  have hl := r'.level_lt
  unfold enough
  rcases Nat.lt_or_eq_of_le hle with hlt | rfl
  · have hmul : (len' + 1) * (Rule.all.length + 1) ≤ len * (Rule.all.length + 1) :=
      Nat.mul_le_mul_right _ hlt
    rw [Nat.add_mul] at hmul
    omega
  · have hlevel := h.resolve_left (Nat.lt_irrefl _)
    omega

theorem Rule.lt_enough (r : Rule) (len : Nat) : len + 1 < r.enough len := by
  have hmul : len * 1 ≤ len * (Rule.all.length + 1) := Nat.mul_le_mul_left _ (by decide)
  unfold enough
  omega

/-- With a bound that is enough, a match of a rule always comes to an end. -/
theorem Rule.run_ne_exhausted {n : Nat} {mode : Mode} {r : Rule} {c : Cursor} {f : Furthest}
    (hn : r.enough c.rest.length ≤ n) : r.run n mode c f ≠ .exhausted := by
  induction n generalizing mode r c f with
  | zero =>
    have h := r.lt_enough c.rest.length
    omega
  | succ n ih =>
    have hlen := r.lt_enough c.rest.length
    rw [Ne, run_succ_eq_exhausted]
    refine Expr.eval_ne_exhausted (run_moves n) (run_shrinks n) r.body r.body_loopsConsume
      (by omega)
      fun f' hcall => ih ?_
    obtain ⟨hahead, hless⟩ := hcall.descends
    have hlt := enough_lt hahead.length_le hless
    omega

/-- Matching a rule at the start of a text always comes to an end. -/
theorem Rule.matchText_ne_exhausted (r : Rule) (text : String) : r.matchText text ≠ .exhausted := by
  refine run_ne_exhausted ?_
  rw [Cursor.ofText, String.length_toList]
  exact r.enough_le_callBound _

end HeaderBridge.Grammar
