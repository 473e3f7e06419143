import HeaderBridge.Proofs.Grammar.Termination

/-! # Independence of bound, failures and place

What a rule matches, and the nodes that it leaves up to their offsets, depend
only on the text that is left: not on the bound on calls, as long as it is not
used up, nor on the failures noted so far. Unless the rule asks for the start of
the text, they do not depend on the place in the text either.
-/

namespace HeaderBridge.Grammar

open Matcher

/-! ### Nodes without offsets -/

mutual

/-- A node with all offsets forgotten. -/
def Node.unplaced : Node → Node
  | .mk r _ t ns => .mk r 0 t (Node.unplacedAll ns)

def Node.unplacedAll : List Node → List Node
  | [] => []
  | n :: ns => n.unplaced :: Node.unplacedAll ns

end

theorem Node.unplacedAll_eq_map (ns : List Node) : Node.unplacedAll ns = ns.map Node.unplaced := by
  induction ns with
  | nil => rfl
  | cons n ns ih => rw [Node.unplacedAll, ih, List.map_cons]

@[simp] theorem Node.unplaced_mk (r : Rule) (s : Nat) (t : String) (ns : List Node) :
    (Node.mk r s t ns).unplaced = .mk r 0 t (ns.map Node.unplaced) := by
  rw [Node.unplaced, Node.unplacedAll_eq_map]

/-! ### Matches that agree -/

/-- What two matches have to agree on: places, failures and nodes. -/
structure Likeness where
  place : Cursor → Cursor → Prop
  failure : Furthest → Furthest → Prop
  nodes : List Node → List Node → Prop

/-- The second outcome is like the first, unless the first came to no end. -/
inductive Outcome.Like (R : Likeness) : Outcome → Outcome → Prop where
  | exhausted (x : Outcome) : Like R .exhausted x
  | failed {f g : Furthest} (failure : R.failure f g) : Like R (.failed f) (.failed g)
  | matched {c d : Cursor} {ns ms : List Node} {f g : Furthest} (place : R.place c d)
      (nodes : R.nodes ns ms) (failure : R.failure f g) :
      Like R (.matched c ns f) (.matched d ms g)

/-- The second match goes like the first wherever the first comes to an end. -/
def Matcher.Like (R : Likeness) (a b : Matcher) : Prop :=
  ∀ ⦃c d f g⦄, R.place c d → R.failure f g → Outcome.Like R (a c f) (b d g)

/-- Like places have the same text ahead, and likeness is kept on the way through it. -/
structure Likeness.Lawful (R : Likeness) : Prop where
  rest : ∀ {c d}, R.place c d → c.rest = d.rest
  move : ∀ {c d}, R.place c d → ∀ cs k, R.place ⟨cs, c.offset + k⟩ ⟨cs, d.offset + k⟩
  nil : R.nodes [] []
  append : ∀ {ns ms ns' ms'}, R.nodes ns ms → R.nodes ns' ms' → R.nodes (ns ++ ns') (ms ++ ms')

namespace Matcher.Like

variable {R : Likeness} {a a' b b' gap gap' : Matcher}

theorem andThen (hR : R.Lawful) (ha : Like R a a') (hb : Like R b b') :
    Like R (a.andThen b) (a'.andThen b') := by
  intro c d f g hcd hfg
  have h₁ := ha hcd hfg
  unfold Matcher.andThen
  revert h₁
  generalize a c f = x
  generalize a' d g = y
  rintro (_ | hf | ⟨hc₁, hn₁, hf₁⟩)
  · exact .exhausted _
  · exact .failed hf
  · have h₂ := hb hc₁ hf₁
    revert h₂
    simp only
    generalize b _ _ = x
    generalize b' _ _ = y
    rintro (_ | hf | ⟨hc₂, hn₂, hf₂⟩)
    · exact .exhausted _
    · exact .failed hf
    · exact .matched hc₂ (hR.append hn₁ hn₂) hf₂

theorem orElse (ha : Like R a a') (hb : Like R b b') : Like R (a.orElse b) (a'.orElse b') := by
  intro c d f g hcd hfg
  have h₁ := ha hcd hfg
  unfold Matcher.orElse
  revert h₁
  generalize a c f = x
  generalize a' d g = y
  rintro (_ | hf | ⟨hc₁, hn₁, hf₁⟩)
  · exact .exhausted _
  · exact hb hcd hf
  · exact .matched hc₁ hn₁ hf₁

theorem opt (hR : R.Lawful) (ha : Like R a a') : Like R a.opt a'.opt := by
  intro c d f g hcd hfg
  have h₁ := ha hcd hfg
  unfold Matcher.opt
  revert h₁
  generalize a c f = x
  generalize a' d g = y
  rintro (_ | hf | ⟨hc₁, hn₁, hf₁⟩)
  · exact .exhausted _
  · exact .matched hcd hR.nil hf
  · exact .matched hc₁ hn₁ hf₁

theorem notAhead (hR : R.Lawful) (ha : Like R a a') : Like R a.notAhead a'.notAhead := by
  intro c d f g hcd hfg
  have h₁ := ha hcd hfg
  unfold Matcher.notAhead
  revert h₁
  generalize a c f = x
  generalize a' d g = y
  rintro (_ | _ | _)
  · exact .exhausted _
  · exact .matched hcd hR.nil hfg
  · exact .failed hfg

theorem rounds (hR : R.Lawful) (ha : Like R a a') {n m : Nat} (hnm : n ≤ m) {ns ms : List Node}
    (hns : R.nodes ns ms) : Like R (Matcher.rounds a n ns) (Matcher.rounds a' m ms) := by
  induction n generalizing m ns ms with
  | zero => intro c d f g _ _; exact .exhausted _
  | succ n ih =>
    obtain ⟨m, rfl⟩ : ∃ k, m = k + 1 := ⟨m - 1, by omega⟩
    intro c d f g hcd hfg
    have h₁ := ha hcd hfg
    rw [Matcher.rounds, Matcher.rounds]
    revert h₁
    generalize a c f = x
    generalize a' d g = y
    rintro (_ | hf | ⟨hc₁, hn₁, hf₁⟩)
    · exact .exhausted _
    · exact .matched hcd hns hf
    · exact ih (Nat.le_of_succ_le_succ hnm) (hR.append hns hn₁) hc₁ hf₁

theorem many (hR : R.Lawful) (hg : Like R gap gap') (ha : Like R a a') {n m : Nat} (hnm : n ≤ m) :
    Like R (Matcher.many gap a n) (Matcher.many gap' a' m) := by
  intro c d f g hcd hfg
  have h₁ := ha hcd hfg
  unfold Matcher.many
  revert h₁
  generalize a c f = x
  generalize a' d g = y
  rintro (_ | hf | ⟨hc₁, hn₁, hf₁⟩)
  · exact .exhausted _
  · exact .matched hcd hR.nil hf
  · exact (hg.andThen hR ha).rounds hR hnm hn₁ hc₁ hf₁

theorem ofStep {step : Cursor → Option Cursor} (hR : R.Lawful)
    (h : ∀ {c d}, R.place c d → (step c = none ∧ step d = none) ∨
      ∃ cs k, step c = some ⟨cs, c.offset + k⟩ ∧ step d = some ⟨cs, d.offset + k⟩) :
    Like R (Matcher.ofStep step) (Matcher.ofStep step) := by
  intro c d f g hcd hfg
  unfold Matcher.ofStep
  rcases h hcd with ⟨hc, hd⟩ | ⟨cs, k, hc, hd⟩
  · rw [hc, hd]
    exact .failed hfg
  · rw [hc, hd]
    exact .matched (hR.move hcd cs k) hR.nil hfg

theorem test {p : Cursor → Prop} [DecidablePred p] (hR : R.Lawful)
    (h : ∀ {c d}, R.place c d → (p c ↔ p d)) :
    Like R (Matcher.ofStep fun c => if p c then some c else none)
      (Matcher.ofStep fun c => if p c then some c else none) := by
  intro c d f g hcd hfg
  unfold Matcher.ofStep
  by_cases hd : p d
  · simp only [(h hcd).mpr hd, hd, if_true]
    exact .matched hcd hR.nil hfg
  · simp only [mt (h hcd).mp hd, hd, if_false]
    exact .failed hfg

end Matcher.Like

/-! ### Expressions and rules -/

def Rule.floating (r : Rule) : Bool := r ≠ .translationUnit && r ≠ .typeNameEntry

def Expr.floating : Expr → Bool
  | start => false
  | .call r => r.floating
  | seq a b | choice a b => a.floating && b.floating
  | opt a | many a | notAhead a => a.floating
  | literal _ | char _ | finish => true

theorem Rule.body_floating (r : Rule) (h : r.floating = true) : r.body.floating = true := by
  have hall : ∀ r ∈ Rule.all, r.floating = true → r.body.floating = true := by decide
  exact forall_of_all hall r h

/-- Like places are at the same offset. -/
def Likeness.Fixed (R : Likeness) : Prop := ∀ ⦃c d⦄, R.place c d → c.offset = d.offset

variable {R : Likeness}

namespace Expr

variable {call call' : Mode → Rule → Matcher} {n m : Nat} {mode : Mode}

theorem between_like (hR : R.Lawful) (hnm : n ≤ m)
    (hw : Like R (call .tight .whitespace) (call' .tight .whitespace))
    (hc : Like R (call .tight .comment) (call' .tight .comment)) :
    Like R (eval.between call n mode) (eval.between call' m mode) := by
  cases mode with
  | tight => intro c d f g hcd hfg; exact .matched hcd hR.nil hfg
  | spaced => exact (hw.orElse hc).rounds hR hnm hR.nil

theorem eval_like (hR : R.Lawful) (hnm : n ≤ m)
    (hw : Like R (call .tight .whitespace) (call' .tight .whitespace))
    (hc : Like R (call .tight .comment) (call' .tight .comment))
    (hcall : ∀ r, R.Fixed ∨ r.floating = true → Like R (call mode r) (call' mode r)) (e : Expr)
    (he : R.Fixed ∨ e.floating = true) : Like R (e.eval call n mode) (e.eval call' m mode) := by
  have hb : Like R (eval.between call n mode) (eval.between call' m mode) :=
    between_like hR hnm hw hc
  induction e with
  | literal l =>
    refine .ofStep hR fun hcd => ?_
    rw [Cursor.skip?_eq, Cursor.skip?_eq, hR.rest hcd]
    split
    · exact .inr ⟨_, _, rfl, rfl⟩
    · exact .inl ⟨rfl, rfl⟩
  | char cls =>
    refine .ofStep hR fun {c d} hcd => ?_
    obtain ⟨cs, p⟩ := c
    obtain ⟨ds, q⟩ := d
    obtain rfl : cs = ds := hR.rest hcd
    cases cs with
    | nil => exact .inl ⟨rfl, rfl⟩
    | cons b bs =>
      simp only [Cursor.step?]
      split
      · exact .inr ⟨_, _, rfl, rfl⟩
      · exact .inl ⟨rfl, rfl⟩
  | start =>
    have hfixed : R.Fixed := he.resolve_right (by simp [floating])
    exact .test hR fun hcd => by rw [hfixed hcd]
  | finish => exact .test hR fun hcd => by rw [hR.rest hcd]
  | call r => exact hcall r he
  | seq a b iha ihb =>
    simp only [floating, Bool.and_eq_true] at he
    exact (iha (he.imp_right And.left)).andThen hR (hb.andThen hR (ihb (he.imp_right And.right)))
  | choice a b iha ihb =>
    simp only [floating, Bool.and_eq_true] at he
    exact (iha (he.imp_right And.left)).orElse (ihb (he.imp_right And.right))
  | opt a ih => exact (ih he).opt hR
  | many a ih => exact hb.many hR (ih he) hnm
  | notAhead a ih => exact (ih he).notAhead hR

end Expr

/-- Likeness is kept when a match is named. -/
def Likeness.Named (R : Likeness) : Prop :=
  ∀ {a b : Matcher} (r : Rule), Like R a b → Like R (named r a) (named r b)

/-- A larger bound on calls does not change how a rule is matched. -/
theorem Rule.run_like (hR : R.Lawful) (hnamed : R.Named) {n m : Nat} (hnm : n ≤ m) (mode : Mode)
    (r : Rule) (hr : R.Fixed ∨ r.floating = true) : Like R (r.run n mode) (r.run m mode) := by
  induction n generalizing m mode r with
  | zero => intro c d f g _ _; exact .exhausted _
  | succ n ih =>
    obtain ⟨m, rfl⟩ : ∃ k, m = k + 1 := ⟨m - 1, by omega⟩
    have hle := Nat.le_of_succ_le_succ hnm
    have hbody :
        ∀ mode, Like R (r.body.eval (Rule.run n) n mode) (r.body.eval (Rule.run m) m mode) :=
      fun mode =>
        Expr.eval_like hR hle (ih hle _ _ (.inr rfl)) (ih hle _ _ (.inr rfl)) (ih hle mode)
        r.body (hr.imp_right r.body_floating)
    cases hk : r.kind <;> cases mode <;> simp only [Rule.run, hk] <;>
      first | exact hbody _ | exact hnamed r (hbody _)

/-! ### What a match depends on -/

/-- Nothing differs, except that failures may be related in another way. -/
def Likeness.same (F : Furthest → Furthest → Prop) : Likeness := ⟨Eq, F, Eq⟩

theorem Likeness.same_lawful (F : Furthest → Furthest → Prop) : (same F).Lawful where
  rest := congrArg _
  move := by rintro c _ rfl cs k; rfl
  nil := rfl
  append := by rintro ns _ ns' _ rfl rfl; rfl

theorem Likeness.same_fixed (F : Furthest → Furthest → Prop) : (same F).Fixed :=
  fun _ _ h => congrArg _ h

/-- A larger bound on calls does not change the outcome of a match that comes to an end. -/
theorem Rule.run_eq_of_le {n m : Nat} (hnm : n ≤ m) {mode : Mode} {r : Rule} {c : Cursor}
    {f : Furthest} (h : r.run n mode c f ≠ .exhausted) : r.run m mode c f = r.run n mode c f := by
  have hnamed : (Likeness.same Eq).Named := by
    rintro a b r hab c _ f _ rfl rfl
    have h₁ := hab (rfl : c = c) (rfl : f = f)
    unfold named
    revert h₁
    generalize a c f = x
    generalize b c f = y
    rintro (_ | ⟨⟨⟩⟩ | ⟨⟨⟩, ⟨⟩, ⟨⟩⟩)
    · exact .exhausted _
    · exact .failed rfl
    · exact .matched rfl rfl rfl
  have hlike := run_like (Likeness.same_lawful Eq) hnamed hnm mode r (.inl (Likeness.same_fixed Eq))
    (rfl : c = c) (rfl : f = f)
  revert h hlike
  generalize r.run n mode c f = x
  generalize r.run m mode c f = y
  rintro h (_ | ⟨⟨⟩⟩ | ⟨⟨⟩, ⟨⟩, ⟨⟩⟩)
  · exact absurd rfl h
  · rfl
  · rfl

/-- The places differ by a shift, and nodes and failures may differ accordingly. -/
def Likeness.shifted (k l : Nat) : Likeness where
  place c d := c.rest = d.rest ∧ c.offset + k = d.offset + l
  failure _ _ := True
  nodes ns ms := ns.map Node.unplaced = ms.map Node.unplaced

/-- What a rule matches does not depend on the bound on calls, on the failures noted so far or,
unless it asks for the start of the text, on the place. -/
theorem Rule.run_shifted {n m : Nat} (hnm : n ≤ m) (mode : Mode) (r : Rule) {c d : Cursor}
    (hrest : c.rest = d.rest) (hr : c.offset = d.offset ∨ r.floating = true) (f g : Furthest) :
    (r.run n mode c f).Like (.shifted d.offset c.offset) (r.run m mode d g) := by
  have hlaw : (Likeness.shifted d.offset c.offset).Lawful :=
    { rest := And.left
      move := fun h cs k => ⟨rfl, by have := h.2; simp only; omega⟩
      nil := rfl
      append := fun h h' => by simp only [Likeness.shifted, List.map_append] at h h' ⊢; rw [h, h'] }
  have hnamed : (Likeness.shifted d.offset c.offset).Named := by
    intro a b r hab c d f g hcd hfg
    have h₁ := hab hcd hfg
    unfold named
    revert h₁
    generalize a c f = x
    generalize b d g = y
    rintro (_ | _ | @⟨c₁, d₁, ns, ms, f₁, g₁, hc₁, hn₁, -⟩)
    · exact .exhausted _
    · exact .failed trivial
    · have htext : c.textTo c₁ = d.textTo d₁ := by
        have h := hcd.2
        have h₁ := hc₁.2
        rw [Cursor.textTo, Cursor.textTo, hcd.1,
          show c₁.offset - c.offset = d₁.offset - d.offset by omega]
      exact .matched hc₁ (by simpa [Likeness.shifted, htext] using hn₁) trivial
  refine run_like hlaw hnamed hnm mode r (hr.imp_left fun h _ _ hcd => ?_) ⟨hrest, Nat.add_comm _ _⟩
    trivial
  have := hcd.2
  omega

end HeaderBridge.Grammar
