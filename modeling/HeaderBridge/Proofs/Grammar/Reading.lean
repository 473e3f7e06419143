import HeaderBridge.Proofs.Grammar.Independence
import HeaderBridge.Proofs.Grammar.Provenance

/-! # What a rule reads

Every rule has a meaning: a function from the text that is left to what is left
after the match, together with the nodes up to their offsets. The meaning of a
rule is the meaning of its body, and matching a text computes it.
-/

namespace HeaderBridge.Grammar

open Matcher

variable {r : Rule} {mode : Mode} {cs cs' : List Char} {ns : List Node} {x : Reading}

/-- What is left after a match, and the nodes of the match up to their offsets. -/
abbrev Reading := Option (List Char × List Node)

/-! ### Meanings -/

/-- The meaning of a rule, which is also that of its body (`Rule.reading_eq`). -/
def Rule.reading (mode : Mode) (r : Rule) (cs : List Char) : Reading :=
  match r.run (callBound cs.length) mode ⟨cs, 0⟩ .start with
  | .matched c ns _ => some (c.rest, ns.map Node.unplaced)
  | .failed _ | .exhausted => none

def Reading.andThen (x : Reading) (next : List Char → Reading) : Reading :=
  x.bind fun y => (next y.1).bind fun z => some (z.1, y.2 ++ z.2)

theorem Reading.andThen_eq_some {next : List Char → Reading} : x.andThen next = some (cs, ns) ↔
      ∃ cs₁ ns₁ ns₂, x = some (cs₁, ns₁) ∧ next cs₁ = some (cs, ns₂) ∧ ns = ns₁ ++ ns₂ := by
  simp only [andThen, Option.bind_eq_some_iff, Option.some.injEq, Prod.mk.injEq, Prod.exists]
  constructor
  · rintro ⟨cs₁, ns₁, rfl, cs₂, ns₂, h, rfl, rfl⟩
    exact ⟨_, _, _, rfl, h, rfl⟩
  · rintro ⟨cs₁, ns₁, ns₂, rfl, h, rfl⟩
    exact ⟨_, _, rfl, _, _, h, rfl, rfl⟩

@[simp] theorem Reading.none_andThen (next : List Char → Reading) :
    Reading.andThen none next = none := rfl

theorem Reading.some_andThen (cs : List Char) (ns : List Node) (next : List Char → Reading) :
    Reading.andThen (some (cs, ns)) next = (next cs).map fun z => (z.1, ns ++ z.2) := by
  cases h : next cs <;> simp [andThen, h]

@[simp] theorem Reading.some_nil_andThen (cs : List Char) (next : List Char → Reading) :
    Reading.andThen (some (cs, [])) next = next cs := by
  cases h : next cs <;> simp [some_andThen, h]

/-- Read round after round, as long as a round can be read. -/
def readRounds (step : List Char → Reading) (cs : List Char) (ns : List Node) :
    List Char × List Node :=
  match step cs with
  | none => (cs, ns)
  | some (cs', ns') =>
    if cs'.length < cs.length then readRounds step cs' (ns ++ ns') else (cs, ns)
termination_by cs.length

section Rounds

variable {step : List Char → Reading}

theorem readRounds_of_none (h : step cs = none) (ns : List Node) :
    readRounds step cs ns = (cs, ns) := by
  rw [readRounds, h]

theorem readRounds_of_some {ms : List Node} (h : step cs = some (cs', ms))
    (hlt : cs'.length < cs.length) (ns : List Node) :
    readRounds step cs ns = readRounds step cs' (ns ++ ms) := by
  rw [readRounds, h]
  simp only [hlt, if_true]

end Rounds

namespace Expr

/-- What is left after blanks and comments. -/
def skipGap (cs : List Char) : List Char :=
  (readRounds (fun cs => (Rule.whitespace.reading .tight cs).or (Rule.comment.reading .tight cs))
    cs []).1

def skipBetween : Mode → List Char → List Char
  | .tight, cs => cs
  | .spaced, cs => skipGap cs

/-- The meaning of an expression. -/
def reading (mode : Mode) : Expr → List Char → Reading
  | literal l, cs => if l <+: cs then some (cs.drop l.length, []) else none
  | char cls, cs =>
    match cs with
    | c :: cs => if cls.contains c then some (cs, []) else none
    | [] => none
  | start, cs => some (cs, [])
  | finish, cs => if cs.isEmpty then some (cs, []) else none
  | .call r, cs => r.reading mode cs
  | seq a b, cs => (reading mode a cs).andThen fun cs => reading mode b (skipBetween mode cs)
  | choice a b, cs => (reading mode a cs).or (reading mode b cs)
  | opt a, cs => some ((reading mode a cs).getD (cs, []))
  | many a, cs =>
    match reading mode a cs with
    | none => some (cs, [])
    | some (cs₁, ns₁) =>
      some (readRounds (fun cs => reading mode a (skipBetween mode cs)) cs₁ ns₁)
  | notAhead a, cs => if (reading mode a cs).isSome then none else some (cs, [])

section Equations

variable {mode : Mode} {a b : Expr} {cs : List Char}

theorem reading_literal {l : List Char} :
    (literal l).reading mode cs = if l <+: cs then some (cs.drop l.length, []) else none := by
  cases cs <;> rfl

theorem reading_start : start.reading mode cs = some (cs, []) := by
  cases cs <;> rfl

theorem reading_finish : finish.reading mode cs = if cs.isEmpty then some (cs, []) else none := by
  cases cs <;> rfl

theorem reading_call : (Expr.call r).reading mode cs = r.reading mode cs := by
  cases cs <;> rfl

theorem reading_seq :
    (seq a b).reading mode cs =
      (a.reading mode cs).andThen fun cs => b.reading mode (skipBetween mode cs) := by
  cases cs <;> rfl

theorem reading_choice :
    (choice a b).reading mode cs = (a.reading mode cs).or (b.reading mode cs) := by
  cases cs <;> rfl

theorem reading_opt : (opt a).reading mode cs = some ((a.reading mode cs).getD (cs, [])) := by
  cases cs <;> rfl

theorem reading_many :
    (many a).reading mode cs =
      match a.reading mode cs with
      | none => some (cs, [])
      | some (cs₁, ns₁) =>
        some (readRounds (fun cs => a.reading mode (skipBetween mode cs)) cs₁ ns₁) := by
  cases cs <;> rfl

theorem reading_notAhead :
    (notAhead a).reading mode cs =
      if (a.reading mode cs).isSome then none else some (cs, []) := by
  cases cs <;> rfl

end Equations

end Expr

/-! ### Matching a rule computes its meaning -/

/-- The outcome of a match is what the meaning says, unless the match came to no end. -/
inductive Outcome.Reads : Outcome → Reading → Prop where
  | exhausted (x : Reading) : Reads .exhausted x
  | failed (f : Furthest) : Reads (.failed f) none
  | matched (c : Cursor) (ns : List Node) (f : Furthest) :
      Reads (.matched c ns f) (some (c.rest, ns.map Node.unplaced))

theorem Outcome.Reads.eq_some {c : Cursor} {f : Furthest} (h : (Outcome.matched c ns f).Reads x) :
    x = some (c.rest, ns.map Node.unplaced) := by
  cases h
  rfl

theorem Outcome.Reads.eq_none {f : Furthest} (h : (Outcome.failed f).Reads x) : x = none := by
  cases h
  rfl

/-- Every match of a rule that comes to an end is as the meaning of the rule says. -/
theorem Rule.run_reads (n : Nat) (mode : Mode) (r : Rule) (c : Cursor) (f : Furthest)
    (h : r.floating = true ∨ c.offset = 0) : (r.run n mode c f).Reads (r.reading mode c.rest) := by
  have h₁ :=
    run_shifted (Nat.le_max_left n (callBound c.rest.length)) mode r (d := c) rfl (.inl rfl)
    f f
  have h₂ := run_shifted (Nat.le_max_right n (callBound c.rest.length)) mode r (c := ⟨c.rest, 0⟩)
    (d := c) rfl (h.symm.imp_left Eq.symm) .start f
  have h₃ : r.run (callBound c.rest.length) mode ⟨c.rest, 0⟩ .start ≠ .exhausted :=
    run_ne_exhausted (r.enough_le_callBound _)
  unfold Rule.reading
  revert h₁ h₂ h₃
  generalize r.run n mode c f = x
  generalize r.run (max n (callBound c.rest.length)) mode c f = y
  generalize r.run (callBound c.rest.length) mode ⟨c.rest, 0⟩ .start = z
  rintro (_ | _ | ⟨hc₁, hn₁, -⟩) h₂ h₃
  · exact .exhausted _
  · cases h₂ with
    | exhausted => exact absurd rfl h₃
    | failed => exact .failed _
  · cases h₂ with
    | exhausted => exact absurd rfl h₃
    | matched hc₂ hn₂ =>
      have hn : _ = _ := hn₂.trans hn₁.symm
      simp only [hc₂.1, ← hc₁.1, hn]
      exact .matched _ _ _

theorem Rule.run_eq_matched (h : r.reading mode cs = some (cs', ns)) : ∃ c ms f,
    r.run (callBound cs.length) mode ⟨cs, 0⟩ .start = .matched c ms f ∧ c.rest = cs' ∧
      ms.map Node.unplaced = ns := by
  unfold Rule.reading at h
  cases hm : r.run (callBound cs.length) mode ⟨cs, 0⟩ .start with
  | matched c ms f =>
    simp only [hm, Option.some.injEq, Prod.mk.injEq] at h
    exact ⟨c, ms, f, rfl, h.1, h.2⟩
  | failed f => simp [hm] at h
  | exhausted => simp [hm] at h

theorem Rule.reading_suffix (h : r.reading mode cs = some (cs', ns)) : cs' <:+ cs := by
  obtain ⟨c, ms, f, hm, rfl, -⟩ := run_eq_matched h
  obtain ⟨ds, hr, -⟩ := run_moves _ _ r hm
  exact ⟨ds, hr.symm⟩

theorem Rule.reading_length_lt
    (hr : r.mayBeEmpty = false) (h : r.reading mode cs = some (cs', ns)) :
    cs'.length < cs.length := by
  obtain ⟨c, ms, f, hm, rfl, -⟩ := run_eq_matched h
  exact run_shrinks _ _ r hr hm

theorem Rule.reading_tight_nodes (h : r.reading .tight cs = some (cs', ns)) : ns = [] := by
  obtain ⟨c, ms, f, hm, -, rfl⟩ := run_eq_matched h
  rw [run_tight_nodes hm, List.map_nil]

/-! ### Matching an expression computes its meaning -/

/-- What holds where the rounds begin and is kept by every round holds where they end. -/
theorem readRounds_keeps {step : List Char → Reading} {Q : List Char → List Node → Prop}
    (hstep : ∀ {cs c ns ms}, Q cs ns → step cs = some (c, ms) → Q c (ns ++ ms)) (h : Q cs ns) :
    Q (readRounds step cs ns).1 (readRounds step cs ns).2 := by
  fun_induction readRounds step cs ns with
  | case1 => exact h
  | case2 cs ns c ms hs hlt ih => exact ih (hstep h hs)
  | case3 => exact h

theorem readRounds_nodes {step : List Char → Reading}
    (h : ∀ cs cs' ns, step cs = some (cs', ns) → ns = []) (cs : List Char) (ns : List Node) :
    (readRounds step cs ns).2 = ns :=
  readRounds_keeps (Q := fun _ ms => ms = ns) (fun hms hs =>
    by rw [hms, h _ _ _ hs, List.append_nil])
    rfl

theorem Matcher.andThen_reads {a b : Matcher} {c : Cursor} {f : Furthest}
    (next : List Char → Reading) (ha : (a c f).Reads x)
    (hb : ∀ c₁ f₁, (b c₁ f₁).Reads (next c₁.rest)) : (a.andThen b c f).Reads (x.andThen next) := by
  unfold andThen Reading.andThen
  revert ha
  generalize a c f = u
  rintro (_ | _ | ⟨c₁, ns₁, f₁⟩)
  · exact .exhausted _
  · exact .failed _
  · have h₂ := hb c₁ f₁
    simp only [Option.bind_some]
    revert h₂
    generalize b c₁ f₁ = u
    generalize next c₁.rest = y
    rintro (_ | _ | ⟨c₂, ns₂, f₂⟩)
    · exact .exhausted _
    · exact .failed _
    · rw [Option.bind_some, ← List.map_append]
      exact .matched _ _ _

section Alternatives

variable {a b : Matcher} {c : Cursor} {f : Furthest}

theorem Matcher.orElse_reads {y : Reading} (ha : (a c f).Reads x) (hb : ∀ f₁, (b c f₁).Reads y) :
    (a.orElse b c f).Reads (x.or y) := by
  unfold orElse
  revert ha
  generalize a c f = u
  rintro (_ | f₁ | _)
  · exact .exhausted _
  · exact hb f₁
  · exact .matched _ _ _

theorem Matcher.opt_reads (ha : (a c f).Reads x) :
    (a.opt c f).Reads (some (x.getD (c.rest, []))) := by
  unfold Matcher.opt
  revert ha
  generalize a c f = u
  rintro (_ | f₁ | _)
  · exact .exhausted _
  · exact .matched c [] f₁
  · exact .matched _ _ _

theorem Matcher.notAhead_reads (ha : (a c f).Reads x) :
    (a.notAhead c f).Reads (if x.isSome then none else some (c.rest, [])) := by
  unfold Matcher.notAhead
  revert ha
  generalize a c f = u
  rintro (_ | f₁ | _)
  · exact .exhausted _
  · exact .matched c [] f
  · exact .failed _

end Alternatives

theorem Matcher.rounds_reads {a : Matcher} (step : List Char → Reading)
    (h : ∀ c f, (a c f).Reads (step c.rest)) (hs : Results Shrinks a) (n : Nat) (ns : List Node)
    (c : Cursor) (f : Furthest) :
    (rounds a n ns c f).Reads (some (readRounds step c.rest (ns.map Node.unplaced))) := by
  induction n generalizing ns c f with
  | zero => exact .exhausted _
  | succ n ih =>
    have h₁ := h c f
    rw [rounds, readRounds]
    cases hac : a c f with
    | exhausted => exact .exhausted _
    | failed f₁ =>
      rw [hac] at h₁
      generalize step c.rest = x at h₁ ⊢
      cases h₁
      exact .matched _ _ _
    | matched c₁ ns₁ f₁ =>
      have hlt : c₁.rest.length < c.rest.length := hs hac
      have h₂ := ih (ns ++ ns₁) c₁ f₁
      rw [hac] at h₁
      generalize step c.rest = x at h₁ ⊢
      cases h₁
      simpa only [hlt, if_true, List.map_append] using h₂

namespace Expr

/-- An expression that asks for the start of the text only before all else. -/
def anchored : Expr → Bool
  | seq a b => a.anchored && b.floating
  | choice a b => a.anchored && b.anchored
  | opt a | many a | notAhead a => a.floating
  | literal _ | char _ | start | finish | .call _ => true

variable {n : Nat} {mode : Mode}

theorem between_reads (n : Nat) (mode : Mode) (c : Cursor) (f : Furthest) :
    (eval.between (Rule.run n) n mode c f).Reads
    (some (skipBetween mode c.rest, [])) := by
  cases mode with
  | tight => exact .matched _ _ _
  | spaced =>
    have hstep :
        ∀ c f, (((Rule.whitespace.run n .tight).orElse (Rule.comment.run n .tight)) c f).Reads
        ((Rule.whitespace.reading .tight c.rest).or (Rule.comment.reading .tight c.rest)) := by
      intro c f
      exact orElse_reads (Rule.whitespace.run_reads n .tight c f (.inl rfl)) fun f₁ =>
        Rule.comment.run_reads n .tight c f₁ (.inl rfl)
    have hnodes : ∀ cs cs' ns, (Rule.whitespace.reading .tight cs).or
        (Rule.comment.reading .tight cs) = some (cs', ns) → ns = [] := by
      intro cs cs' ns h
      rcases Option.or_eq_some_iff.mp h with h | ⟨-, h⟩
      · exact Rule.reading_tight_nodes h
      · exact Rule.reading_tight_nodes h
    have hshrinks := (Rule.run_shrinks n .tight .whitespace rfl).orElse
      (Rule.run_shrinks n .tight .comment rfl)
    have h := rounds_reads (fun cs => (Rule.whitespace.reading .tight cs).or
      (Rule.comment.reading .tight cs)) hstep hshrinks n [] c f
    have hpair : readRounds (fun cs => (Rule.whitespace.reading .tight cs).or
        (Rule.comment.reading .tight cs)) c.rest ([].map Node.unplaced) =
          (skipBetween .spaced c.rest, []) := by
      refine Prod.ext rfl ?_
      rw [readRounds_nodes hnodes]
      rfl
    rw [hpair] at h
    exact h

theorem afterBetween_reads {a : Matcher} (next : List Char → Reading)
    (ha : ∀ c f, (a c f).Reads (next c.rest)) (c : Cursor) (f : Furthest) :
    (Matcher.andThen (eval.between (Rule.run n) n mode) a c f).Reads
      (next (skipBetween mode c.rest)) := by
  have h := andThen_reads next (between_reads n mode c f) ha
  rw [Reading.andThen, Option.bind_some] at h
  simp only [List.nil_append] at h
  rwa [show (fun z : List Char × List Node => some (z.1, z.2)) = some from rfl,
    Option.bind_fun_some] at h

/-- Every match of an expression that comes to an end is as its meaning says. -/
theorem eval_reads (e : Expr) (hl : e.loopsConsume = true) (c : Cursor) (f : Furthest)
    (h : e.floating = true ∨ e.anchored = true ∧ c.offset = 0) :
    (e.eval (Rule.run n) n mode c f).Reads (e.reading mode c.rest) := by
  induction e generalizing c f with
  | literal l =>
    simp only [eval, ofStep, reading, Cursor.skip?_eq]
    by_cases hp : l <+: c.rest
    · simp only [hp, if_true]
      exact .matched ⟨_, _⟩ [] _
    · simp only [hp, if_false]
      exact .failed _
  | char cls =>
    obtain ⟨cs, p⟩ := c
    simp only [eval, ofStep, reading]
    cases cs with
    | nil => exact .failed _
    | cons b bs =>
      simp only [Cursor.step?]
      by_cases hb : cls.contains b = true
      · simp only [hb, if_true]
        exact .matched ⟨bs, _⟩ [] _
      · simp only [hb]
        exact .failed _
  | start =>
    have h0 : c.offset = 0 := by simpa [floating, anchored] using h
    simp only [eval, ofStep, reading, h0, if_true]
    exact .matched _ _ _
  | finish =>
    simp only [eval, ofStep, reading]
    cases hc : c.rest.isEmpty with
    | true => exact .matched _ _ _
    | false => exact .failed _
  | call r => exact Rule.run_reads n mode r c f (h.imp id And.right)
  | seq a b iha ihb =>
    simp only [loopsConsume, Bool.and_eq_true] at hl
    have ha : a.floating = true ∨ a.anchored = true ∧ c.offset = 0 := by
      simp only [floating, anchored, Bool.and_eq_true] at h
      exact h.imp And.left fun h => ⟨h.1.1, h.2⟩
    have hb : b.floating = true := by
      simp only [floating, anchored, Bool.and_eq_true] at h
      exact h.elim And.right fun h => h.1.2
    exact andThen_reads (fun cs => b.reading mode (skipBetween mode cs))
      (iha hl.1 c f ha) (afterBetween_reads _ fun c f => ihb hl.2 c f (.inl hb))
  | choice a b iha ihb =>
    simp only [loopsConsume, Bool.and_eq_true] at hl
    have hab : (a.floating = true ∨ a.anchored = true ∧ c.offset = 0) ∧
        (b.floating = true ∨ b.anchored = true ∧ c.offset = 0) := by
      simp only [floating, anchored, Bool.and_eq_true] at h
      exact ⟨h.imp And.left fun h => ⟨h.1.1, h.2⟩, h.imp And.right fun h => ⟨h.1.2, h.2⟩⟩
    rw [reading_choice]
    exact orElse_reads (iha hl.1 c f hab.1) fun f₁ => ihb hl.2 c f₁ hab.2
  | opt a ih =>
    rw [reading_opt]
    exact opt_reads (ih hl c f (.inl (by simpa [floating, anchored] using h.imp id And.left)))
  | many a ih =>
    have ha : a.floating = true := by simpa [floating, anchored] using h.imp id And.left
    simp only [loopsConsume, Bool.and_eq_true, Bool.not_eq_true'] at hl
    have hshrinks : Results Shrinks (Matcher.andThen (eval.between (Rule.run n) n mode)
        (a.eval (Rule.run n) n mode)) :=
      (eval_shrinks (Rule.run_moves n) (Rule.run_shrinks n mode) a hl.1).after
        (between_results _ _ Moves.composable (Rule.run_moves n _ _) (Rule.run_moves n _ _))
    have h₁ := ih hl.2 c f (.inl ha)
    simp only [eval, reading, Matcher.many]
    revert h₁
    generalize a.eval (Rule.run n) n mode c f = x
    generalize a.reading mode c.rest = y
    rintro (_ | f₁ | ⟨c₁, ns₁, f₁⟩)
    · exact .exhausted _
    · exact .matched c [] f₁
    · exact rounds_reads (fun cs => a.reading mode (skipBetween mode cs))
        (afterBetween_reads _ fun c f => ih hl.2 c f (.inl ha)) hshrinks n ns₁ c₁ f₁
  | notAhead a ih =>
    rw [reading_notAhead]
    exact notAhead_reads (ih hl c f (.inl (by simpa [floating, anchored] using h.imp id And.left)))

end Expr

/-! ### The meaning of a rule is that of its body -/

theorem Rule.body_anchored (r : Rule) : r.body.anchored = true := by
  have hall : ∀ r ∈ Rule.all, r.body.anchored = true := by decide
  exact forall_of_all hall r

/-- The meaning of a rule that leaves a node over the nodes of its parts. -/
def Reading.named (r : Rule) (cs : List Char) (x : Reading) : Reading :=
  x.map fun y => (y.1, [.mk r 0 (.ofList (cs.take (cs.length - y.1.length))) y.2])

theorem Matcher.named_reads {a : Matcher} {c : Cursor} {f : Furthest} (h : (a c f).Reads x)
    (hm : Results Moves a) : (named r a c f).Reads (Reading.named r c.rest x) := by
  unfold named
  cases hac : a c f with
  | exhausted => exact .exhausted _
  | failed f₁ =>
    rw [hac] at h
    cases h
    exact .failed _
  | matched c₁ ns₁ f₁ =>
    rw [hac] at h
    cases h
    have hr := Outcome.Reads.matched c₁ [.mk r c.offset (c.textTo c₁) ns₁] f₁
    rw [List.map_singleton, Node.unplaced_mk] at hr
    simp only [Cursor.textTo_eq (hm hac)] at hr ⊢
    exact hr

theorem Outcome.Reads.unique {o : Outcome} {y : Reading} (hx : o.Reads x) (hy : o.Reads y)
    (ho : o ≠ .exhausted) : x = y := by
  cases hx with
  | exhausted => exact absurd rfl ho
  | failed => cases hy; rfl
  | matched => cases hy; rfl

theorem Rule.reading_eq (mode : Mode) (r : Rule) (cs : List Char) :
    r.reading mode cs =
      match r.kind, mode with
      | .branch, .spaced => Reading.named r cs (r.body.reading .spaced cs)
      | .token, .spaced => Reading.named r cs (r.body.reading .tight cs)
      | .group, .spaced => r.body.reading .spaced cs
      | .blank, .spaced => r.body.reading .tight cs
      | _, .tight => r.body.reading .tight cs := by
  have hr := r.run_reads (callBound cs.length + 1) mode ⟨cs, 0⟩ .start (.inr rfl)
  have hne : r.run (callBound cs.length + 1) mode ⟨cs, 0⟩ .start ≠ .exhausted :=
    run_ne_exhausted (Nat.le_succ_of_le (r.enough_le_callBound _))
  have hbody : ∀ mode, (r.body.eval (Rule.run (callBound cs.length)) (callBound cs.length) mode
      ⟨cs, 0⟩ .start).Reads (r.body.reading mode cs) := fun mode =>
    Expr.eval_reads r.body r.body_loopsConsume ⟨cs, 0⟩ .start (.inr ⟨r.body_anchored, rfl⟩)
  have hmoves : ∀ mode, Results Moves (r.body.eval (Rule.run (callBound cs.length))
      (callBound cs.length) mode) := fun mode => Expr.eval_moves (Rule.run_moves _) r.body
  cases hk : r.kind <;> cases mode <;> simp only [Rule.run, hk] at hr hne ⊢ <;>
    first | exact hr.unique (hbody _) hne | exact hr.unique (named_reads (hbody _) (hmoves _)) hne

section Kinds

variable {r : Rule} {cs : List Char}

theorem Rule.reading_branch (h : r.kind = .branch) :
    r.reading .spaced cs = Reading.named r cs (r.body.reading .spaced cs) := by
  rw [reading_eq, h]

theorem Rule.reading_token (h : r.kind = .token) :
    r.reading .spaced cs = Reading.named r cs (r.body.reading .tight cs) := by
  rw [reading_eq, h]

theorem Rule.reading_group (h : r.kind = .group) :
    r.reading .spaced cs = r.body.reading .spaced cs := by
  rw [reading_eq, h]

theorem Rule.reading_tight : r.reading .tight cs = r.body.reading .tight cs := by
  rw [reading_eq]
  cases r.kind <;> rfl

end Kinds

/-! ### Matching a whole text -/

theorem Rule.reading_toList (r : Rule) (text : String) :
    r.reading .spaced text.toList =
      match r.matchText text with
      | .matched c ns _ => some (c.rest, ns.map Node.unplaced)
      | .failed _ | .exhausted => none := by
  rw [reading, matchText, String.length_toList, Cursor.ofText]

theorem parse_eq_ok {text : String} (h : parse r text = .ok ns) :
    ∃ cs, r.reading .spaced text.toList = some (cs, ns.map Node.unplaced) := by
  rw [Rule.reading_toList]
  unfold parse at h
  cases hm : r.matchText text with
  | matched c ms f =>
    rw [hm] at h
    obtain rfl := Except.ok.inj h
    exact ⟨_, rfl⟩
  | failed f => simp [hm] at h
  | exhausted => simp [hm] at h

theorem parse_of_reading {text : String} {ms : List Node}
    (h : r.reading .spaced text.toList = some (cs, ms)) :
    ∃ ns, parse r text = .ok ns ∧ ns.map Node.unplaced = ms := by
  rw [Rule.reading_toList] at h
  unfold parse
  cases hm : r.matchText text with
  | matched c ns f =>
    simp only [hm, Option.some.injEq, Prod.mk.injEq] at h
    exact ⟨ns, rfl, h.2⟩
  | failed f => simp [hm] at h
  | exhausted => simp [hm] at h

theorem parse_of_reading_eq_none {text : String} (h : r.reading .spaced text.toList = none) :
    ∃ f, parse r text = .error f := by
  rw [Rule.reading_toList] at h
  unfold parse
  cases hm : r.matchText text with
  | matched c ns f => simp [hm] at h
  | failed f => exact ⟨f, rfl⟩
  | exhausted => exact ⟨_, rfl⟩

end HeaderBridge.Grammar
