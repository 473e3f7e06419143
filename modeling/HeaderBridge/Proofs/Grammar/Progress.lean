import HeaderBridge.Proofs.Grammar.Independence
import Mathlib.Logic.Relation

/-! # Progress of matching

Whatever the bound on calls, as long as it is enough, a match has one and the
same outcome. Every round of a repetition consumes at least one byte. So does
every chain of calls that comes back to a rule, and only the rules of four
circles can be called again from inside themselves.
-/

namespace HeaderBridge.Grammar

open Matcher

/-! ### One outcome -/

/-- A match of a rule comes to an end, and a larger bound does not change its outcome. -/
theorem Rule.exists_outcome (r : Rule) (mode : Mode) (c : Cursor) (f : Furthest) :
    ∃ o, o ≠ .exhausted ∧ ∀ n, callBound c.rest.length ≤ n → r.run n mode c f = o := by
  have hne : r.run (callBound c.rest.length) mode c f ≠ .exhausted :=
    run_ne_exhausted (r.enough_le_callBound _)
  exact ⟨_, hne, fun n hn => run_eq_of_le hn hne⟩

/-! ### Rounds that consume -/

/-- The second cursor lies behind a first part of the text that has at least one byte. -/
def Cursor.Past (c c' : Cursor) : Prop := c.Ahead c' ∧ c.offset < c'.offset

theorem Cursor.Ahead.past {c c' : Cursor} (h : c.Ahead c') (hlt : c'.rest.length < c.rest.length) :
    c.Past c' := by
  refine ⟨h, ?_⟩
  obtain ⟨cs, hrest, hoffset⟩ := h
  cases cs with
  | nil => simp [hrest] at hlt
  | cons d ds =>
    have hpos := d.utf8Size_pos
    rw [bytes_cons] at hoffset
    omega

/-- The end of a match lies at least one byte behind its start. -/
def Advances : Cursor → Cursor → List Node → Prop := fun c c' _ => c.Past c'

instance (o : Outcome) (c : Cursor) : Decidable (∃ ns f, o = .matched c ns f) :=
  match o with
  | .matched c' ns f =>
    if h : c' = c then isTrue ⟨ns, f, by rw [h]⟩
    else isFalse fun ⟨_, _, he⟩ => h (Outcome.matched.inj he).1
  | .failed _ | .exhausted => isFalse nofun

theorem Matcher.Results.advances {a : Matcher} (hm : Results Moves a) (hs : Results Shrinks a) :
    Results Advances a :=
  fun _ _ _ _ _ h => (hm h).past (hs h)

def Expr.loops : Expr → List Expr
  | many a => a :: a.loops
  | seq a b | choice a b => a.loops ++ b.loops
  | opt a | notAhead a => a.loops
  | literal _ | char _ | start | finish | .call _ => []

theorem Expr.mayBeEmpty_of_mem_loops {e a : Expr} (he : e.loopsConsume = true) (ha : a ∈ e.loops) :
    a.mayBeEmpty = false := by
  induction e with
  | literal | char | start | finish | call => simp [loops] at ha
  | seq b b' ih ih' | choice b b' ih ih' =>
    simp only [loopsConsume, Bool.and_eq_true] at he
    rcases List.mem_append.mp ha with ha | ha
    · exact ih he.1 ha
    · exact ih' he.2 ha
  | opt b ih | notAhead b ih => exact ih he ha
  | many b ih =>
    simp only [loopsConsume, Bool.and_eq_true, Bool.not_eq_true'] at he
    rcases List.mem_cons.mp ha with rfl | ha
    · exact he.1
    · exact ih he.2 ha

theorem Rule.advances_of_mem_loops {r : Rule} {a : Expr} (ha : a ∈ r.body.loops) (n : Nat)
    (mode : Mode) : Results Advances (a.eval (Rule.run n) n mode) :=
  (Expr.eval_moves (run_moves n) a).advances (Expr.eval_shrinks (run_moves n) (run_shrinks n mode) a
    (Expr.mayBeEmpty_of_mem_loops r.body_loopsConsume ha))

theorem Rule.advances_gap (n : Nat) :
    Results Advances ((whitespace.run n .tight).orElse (comment.run n .tight)) :=
  ((run_moves n _ _).orElse (run_moves n _ _)).advances
    ((run_shrinks n _ _ rfl).orElse (run_shrinks n _ _ rfl))

/-! ### Calls -/

/-- The matches of rules, but with no answer for one rule at one place. -/
def withhold (q : Rule × Cursor) (call : Mode → Rule → Matcher) : Mode → Rule → Matcher :=
  fun mode r c f => if (r, c) = q then .exhausted else call mode r c f

section Withhold

variable {q : Rule × Cursor} {call : Mode → Rule → Matcher} {mode : Mode} {r : Rule}

theorem Matcher.Results.withhold {R : Cursor → Cursor → List Node → Prop}
    (h : Results R (call mode r)) : Results R (withhold q call mode r) := by
  intro c f c' ns f' hm
  unfold Grammar.withhold at hm
  split at hm
  · simp at hm
  · exact h hm

theorem withhold_eq_exhausted {c : Cursor} {f : Furthest} (h : call mode r c f ≠ .exhausted)
    (hw : withhold q call mode r c f = .exhausted) : (r, c) = q := by
  unfold withhold at hw
  split at hw
  · assumption
  · exact absurd hw h

end Withhold

/-- A match of the first rule at its place calls the second at its place: as a match waits for
the answer of each call that it makes, it has no outcome if that one answer is withheld. -/
def Calls (p q : Rule × Cursor) : Prop :=
  ∃ mode f n, callBound p.2.rest.length ≤ n ∧
    p.1.body.eval (withhold q (Rule.run n)) n (p.1.within mode) p.2 f = .exhausted

instance (o : Outcome) : Decidable (o = .exhausted) :=
  match o with
  | .exhausted => isTrue rfl
  | .matched .. | .failed _ => isFalse nofun

theorem Calls.mayCall {p q : Rule × Cursor} (h : Calls p q) :
    ∃ mode mode', p.1.body.MayCall (p.1.within mode) p.2 mode' q.1 q.2 := by
  obtain ⟨mode, f, n, hn, hexhausted⟩ := h
  have henough := Nat.le_trans (p.1.enough_le_callBound _) hn
  have hlen := p.1.lt_enough p.2.rest.length
  refine Classical.byContradiction fun hno => ?_
  -- the answer that is withheld belongs to none of the calls that can be made
  refine Expr.eval_ne_exhausted (fun _ _ => (Rule.run_moves n _ _).withhold)
    (fun _ _ hr => (Rule.run_shrinks n _ _ hr).withhold) p.1.body p.1.body_loopsConsume (by omega)
    (fun {mode' r c} f' hcall hw => ?_) hexhausted
  obtain ⟨hahead, hless⟩ := hcall.descends
  have hlt := Rule.enough_lt hahead.length_le hless
  have hanswer : r.run n mode' c f' ≠ .exhausted := Rule.run_ne_exhausted (by omega)
  obtain rfl := withhold_eq_exhausted hanswer hw
  exact hno ⟨mode, mode', hcall⟩

/-- Along a chain of calls the text gets shorter, or the level of the rules gets lower. -/
theorem Calls.descends_chain {p q : Rule × Cursor} (h : Relation.TransGen Calls p q) :
    p.2.Ahead q.2 ∧ (q.2.rest.length < p.2.rest.length ∨ q.1.level < p.1.level) := by
  induction h with
  | single h =>
    obtain ⟨mode, mode', hcall⟩ := h.mayCall
    exact hcall.descends
  | tail _ h ih =>
    obtain ⟨mode, mode', hcall⟩ := h.mayCall
    obtain ⟨hahead, hless⟩ := hcall.descends
    have hle := hahead.length_le
    have hle' := ih.1.length_le
    exact ⟨ih.1.trans hahead, by omega⟩

/-! ### Circles of rules -/

/-- The circle of rules that call one another to which a rule belongs, named by one of them. -/
def Rule.circle? : Rule → Option Rule
  | .skippedBlock => some .skippedBlock
  | .macroArguments => some .macroArguments
  | .genericTypeSpecifier | .genericsSpecifier | .typeArgument | .typeSpecifier =>
    some .genericTypeSpecifier
  | .blockParameters | .parameterDeclaration | .declarator | .directDeclarator
  | .abstractDeclarator | .abstractBlockDeclarator => some .blockParameters
  | _ => none

/-- The rules that a rule can call, those for blanks included. -/
def Rule.callees (r : Rule) : List Rule :=
  (if r.kind = .blank then [] else [whitespace, comment]) ++ r.body.calls

/-- The length of the longest chain of calls from circle to circle, up to the given bound. -/
def Rule.height : Nat → Rule → Nat
  | 0, _ => 0
  | n + 1, r =>
    let near := fun r' => r' = r || r.circle?.isSome && r'.circle? = r.circle?
    (((Rule.all.filter near).flatMap callees).map fun r' =>
      if near r' then 0 else height n r').foldr max 0 + 1

/-- A number that is smaller for the rules that a rule calls, except on its circle. -/
def Rule.rank (r : Rule) : Nat := r.height Rule.all.length

/-- The second rule ranks below the first, or the two are on one circle. -/
def Rule.Encloses (r r' : Rule) : Prop :=
  r'.rank < r.rank ∨ r'.rank = r.rank ∧ r.circle?.isSome ∧ r'.circle? = r.circle?

namespace Rule.Encloses

instance (r r' : Rule) : Decidable (r.Encloses r') :=
  inferInstanceAs (Decidable (_ ∨ _ ∧ _ ∧ _))

theorem of_mem_callees {r r' : Rule} (h : r' ∈ r.callees) : r.Encloses r' := by
  have hall : ∀ r ∈ Rule.all, ∀ r' ∈ r.callees, r.Encloses r' := by decide +kernel
  exact Rule.forall_of_all hall r r' h

theorem trans {r₁ r₂ r₃ : Rule} (h : r₁.Encloses r₂) (h' : r₂.Encloses r₃) : r₁.Encloses r₃ := by
  rcases h with h | ⟨h, hsome, hc⟩
  · exact .inl (by rcases h' with h' | ⟨h', -⟩ <;> omega)
  · rcases h' with h' | ⟨h', -, hc'⟩
    · exact .inl (by omega)
    · exact .inr ⟨by omega, hsome, hc'.trans hc⟩

end Rule.Encloses

theorem Calls.encloses_chain {p q : Rule × Cursor} (h : Relation.TransGen Calls p q) :
    p.1.Encloses q.1 := by
  have hstep : ∀ {p q}, Calls p q → p.1.Encloses q.1 := by
    intro p q h
    obtain ⟨mode, mode', hcall⟩ := h.mayCall
    refine .of_mem_callees (List.mem_append.mpr ?_)
    cases hcall with
    | gap hspaced hblank _ =>
      exact .inl (by simpa [Rule.kind_ne_blank_of_within hspaced] using hblank)
    | rule hr _ _ => exact .inr hr
  induction h with
  | single h => exact hstep h
  | tail _ h ih => exact ih.trans (hstep h)

/-- A rule that is called again from inside itself is on a circle, as is every rule on the way. -/
theorem Calls.circle_of_return {p q s : Rule × Cursor} (h : Relation.TransGen Calls p q)
    (h' : Relation.ReflTransGen Calls q s) (hs : s.1 = p.1) :
    ∃ t, p.1.circle? = some t ∧ q.1.circle? = some t := by
  have hle : s.1.rank ≤ q.1.rank := by
    rcases Relation.reflTransGen_iff_eq_or_transGen.mp h' with rfl | h'
    · exact Nat.le_refl _
    · rcases encloses_chain h' with h' | ⟨h', -⟩ <;> omega
  rcases encloses_chain h with hlt | ⟨-, hsome, hc⟩
  · rw [hs] at hle
    omega
  · obtain ⟨t, ht⟩ := Option.isSome_iff_exists.mp hsome
    exact ⟨t, ht, hc.trans ht⟩

/-! ### Matching makes progress -/

/-- Every rule comes to an end on every text and from every place in it. What it repeats, and
every blank and comment that it skips, consumes at least one byte. If calls lead from a rule
back to the same rule, at least one byte has been consumed, and the rules on the way are on
one circle. -/
theorem Rule.run_progresses (r : Rule) :
    (∀ mode c f, ∃ o, o ≠ .exhausted ∧ ∀ n, callBound c.rest.length ≤ n → r.run n mode c f = o) ∧
      (∀ a ∈ r.body.loops, ∀ n mode, Results Advances (a.eval (Rule.run n) n mode)) ∧
      (∀ n, Results Advances ((whitespace.run n .tight).orElse (comment.run n .tight))) ∧
      ∀ r' c c' c'', Relation.TransGen Calls (r, c) (r', c') →
        Relation.ReflTransGen Calls (r', c') (r, c'') →
          c.Past c'' ∧ ∃ t, r.circle? = some t ∧ r'.circle? = some t := by
  refine ⟨r.exists_outcome, fun a ha => advances_of_mem_loops ha, advances_gap, ?_⟩
  intro r' c c' c'' h h'
  obtain ⟨hahead, hless⟩ := Calls.descends_chain (h.trans_left h')
  -- the level of the rule is the same, so there is less text
  have hlt := hless.resolve_right (Nat.lt_irrefl _)
  exact ⟨hahead.past hlt, Calls.circle_of_return h h' rfl⟩

/-- A place in the parameters of a block of which the first is a block. -/
def nestedBlock (k : Nat) : Cursor := ⟨"(void (^)(int), id)".toList.drop k, k⟩

/-- The parameters of the inner block are reached through its declarator, and the second parameter
of the outer one in a round of a repetition. -/
theorem Rule.run_progresses_nestedBlock :
    (∃ a ∈ blockParameters.body.loops,
      (∃ ns f, a.eval (Rule.run 999) 999 .spaced (nestedBlock 14) .start =
        .matched (nestedBlock 18) ns f) ∧ (nestedBlock 14).Past (nestedBlock 18)) ∧
      Relation.TransGen Calls (blockParameters, nestedBlock 0) (declarator, nestedBlock 6) ∧
      Relation.ReflTransGen Calls (declarator, nestedBlock 6) (blockParameters, nestedBlock 9) ∧
      (nestedBlock 0).Past (nestedBlock 9) ∧
      ∃ t, blockParameters.circle? = some t ∧ declarator.circle? = some t := by
  obtain ⟨-, hloops, -, hcalls⟩ := Rule.run_progresses .blockParameters
  constructor
  · have hround : Expr.seq (.literal [',']) (.call .parameterDeclaration) ∈
        blockParameters.body.loops := by
      decide
    have hmatched : ∃ ns f, (Expr.seq (.literal [',']) (.call .parameterDeclaration)).eval
        (Rule.run 999)
        999 .spaced (nestedBlock 14) .start = .matched (nestedBlock 18) ns f := by decide +kernel
    obtain ⟨ns, f, hmatched⟩ := hmatched
    exact ⟨_, hround, ⟨ns, f, hmatched⟩, hloops _ hround 999 .spaced hmatched⟩
  · have h₁ : Calls (blockParameters, nestedBlock 0) (parameterDeclaration, nestedBlock 1) :=
      ⟨.spaced, .start, callBound 19, by decide +kernel, by decide +kernel⟩
    have h₂ : Calls (parameterDeclaration, nestedBlock 1) (declarator, nestedBlock 6) :=
      ⟨.spaced, .start, callBound 19, by decide +kernel, by decide +kernel⟩
    have h₃ : Calls (declarator, nestedBlock 6) (directDeclarator, nestedBlock 6) :=
      ⟨.spaced, .start, callBound 19, by decide +kernel, by decide +kernel⟩
    have h₄ : Calls (directDeclarator, nestedBlock 6) (blockParameters, nestedBlock 9) :=
      ⟨.spaced, .start, callBound 19, by decide +kernel, by decide +kernel⟩
    have hout := (Relation.TransGen.single h₁).tail h₂
    have hback := (Relation.ReflTransGen.single h₃).tail h₄
    exact ⟨hout, hback, hcalls _ _ _ _ hout hback⟩

end HeaderBridge.Grammar
