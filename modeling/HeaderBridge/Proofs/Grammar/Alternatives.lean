import HeaderBridge.Proofs.Grammar.Occurrences
import Mathlib.Data.List.Basic

/-! # Parts that exclude each other

Where a rule has alternatives, a node of it has the parts of one of them. Which
parts never stand together can be seen from the expression, and so can which
rules are out of reach below a node.
-/

namespace HeaderBridge.Grammar

open HeaderBridge.Grammar.Expr

/-! ### Alternatives -/

namespace Expr

/-- Whether an expression leaves no node of the rule. -/
def avoids (r : Rule) (e : Expr) : Bool := r ∉ e.seen.flatMap Rule.leaves

/-- Whether no match of an expression leaves nodes of both rules. -/
def apart (r r' : Rule) : Expr → Bool
  | seq a b =>
    (seq a b).avoids r || (seq a b).avoids r' || (a.apart r r' && b.avoids r && b.avoids r')
      || (b.apart r r' && a.avoids r && a.avoids r')
  | choice a b => a.apart r r' && b.apart r r'
  | opt a => a.apart r r'
  | e => e.avoids r || e.avoids r'

variable {r r' : Rule} {e : Expr} {cs c : List Char} {ns : List Node}

theorem ne_of_avoids (he : e.avoids r = true) (hcs : Solid cs)
    (h : e.reading .spaced cs = some (c, ns)) : ∀ x ∈ ns, x.rule ≠ r := by
  rintro x hx rfl
  exact of_decide_eq_true he (reading_nodes hcs h x hx).2

theorem ne_or_ne_of_avoids (he : e.avoids r = true ∨ e.avoids r' = true) (hcs : Solid cs)
    (h : e.reading .spaced cs = some (c, ns)) :
    (∀ x ∈ ns, x.rule ≠ r) ∨ ∀ x ∈ ns, x.rule ≠ r' := by
  rcases he with he | he
  · exact .inl (ne_of_avoids he hcs h)
  · exact .inr (ne_of_avoids he hcs h)

theorem ne_or_ne_of_apart (he : e.apart r r' = true) (hcs : Solid cs)
    (h : e.reading .spaced cs = some (c, ns)) :
    (∀ x ∈ ns, x.rule ≠ r) ∨ ∀ x ∈ ns, x.rule ≠ r' := by
  induction e generalizing cs c ns with
  | seq a b iha ihb =>
    simp only [apart, Bool.or_eq_true, Bool.and_eq_true] at he
    rcases he with ((he | he) | ⟨⟨ha, hb⟩, hb'⟩) | ⟨⟨hb, ha⟩, ha'⟩
    · exact .inl (ne_of_avoids he hcs h)
    · exact .inr (ne_of_avoids he hcs h)
    all_goals
      rw [reading_seq, Reading.andThen_eq_some] at h
      obtain ⟨c₁, ns₁, ns₂, h₁, h₂, rfl⟩ := h
      simp only [List.forall_mem_append]
    · have hr := ne_of_avoids hb (solid_skipGap c₁) h₂
      have hr' := ne_of_avoids hb' (solid_skipGap c₁) h₂
      exact (iha ha hcs h₁).imp (⟨·, hr⟩) (⟨·, hr'⟩)
    · have hr := ne_of_avoids ha hcs h₁
      have hr' := ne_of_avoids ha' hcs h₁
      exact (ihb hb (solid_skipGap c₁) h₂).imp (⟨hr, ·⟩) (⟨hr', ·⟩)
  | choice a b iha ihb =>
    simp only [apart, Bool.and_eq_true] at he
    rw [reading_choice, Option.or_eq_some_iff] at h
    rcases h with h | ⟨-, h⟩
    · exact iha he.1 hcs h
    · exact ihb he.2 hcs h
  | opt a ih =>
    rw [reading_opt] at h
    cases ha : a.reading .spaced cs with
    | none =>
      rw [ha] at h
      cases h
      simp
    | some y =>
      rw [ha] at h
      cases h
      exact ih he hcs ha
  | _ => exact ne_or_ne_of_avoids (by simpa only [apart, Bool.or_eq_true] using he) hcs h

/-- Whether every match of an expression that leaves a node of the first rule leaves one of the
second too. -/
def brings (r r' : Rule) : Expr → Bool
  | seq a b => (seq a b).avoids r || (seq a b).surely [r']
  | choice a b => a.brings r r' && b.brings r r'
  | e => e.avoids r

theorem ne_or_exists_of_brings (he : e.brings r r' = true) (hcs : Solid cs)
    (h : e.reading .spaced cs = some (c, ns)) :
    (∀ x ∈ ns, x.rule ≠ r) ∨ ∃ x ∈ ns, x.rule = r' := by
  induction e generalizing cs c ns with
  | seq a b =>
    simp only [brings, Bool.or_eq_true] at he
    rcases he with he | he
    · exact .inl (ne_of_avoids he hcs h)
    · obtain ⟨x, hx, hrule⟩ := exists_of_surely he h
      exact .inr ⟨x, hx, List.mem_singleton.mp hrule⟩
  | choice a b iha ihb =>
    simp only [brings, Bool.and_eq_true] at he
    rw [reading_choice, Option.or_eq_some_iff] at h
    rcases h with h | ⟨-, h⟩
    · exact iha he.1 hcs h
    · exact ihb he.2 hcs h
  | _ => exact .inl (ne_of_avoids he hcs h)

/-- Whether every match of an expression leaves a single node. -/
def single : Expr → Bool
  | choice a b => a.single && b.single
  | call r => r.kind = .branch || r.kind = .token
  | _ => false

theorem exists_of_single (he : e.single = true) (h : e.reading .spaced cs = some (c, ns)) :
    ∃ x, ns = [x] := by
  induction e generalizing cs c ns with
  | choice a b iha ihb =>
    simp only [single, Bool.and_eq_true] at he
    rw [reading_choice, Option.or_eq_some_iff] at h
    rcases h with h | ⟨-, h⟩
    · exact iha he.1 h
    · exact ihb he.2 h
  | call r =>
    simp only [single, Bool.or_eq_true, decide_eq_true_eq] at he
    rw [reading_call] at h
    obtain ⟨t, ms, rfl⟩ := Rule.reading_singleton he h
    exact ⟨_, rfl⟩
  | _ => cases he

end Expr

namespace Node

variable {m : Node}

theorem Read.exists_part (h : m.Read) (hk : m.rule.kind = .branch)
    (hs : m.rule.body.single = true) : ∃ x, m.children = [x] := by
  obtain ⟨t, c, -, -, hread⟩ := h.body hk
  obtain ⟨y, hy⟩ := exists_of_single hs hread
  obtain ⟨x, hx, -⟩ := List.map_eq_singleton_iff.mp hy
  exact ⟨x, hx⟩

theorem childrenOf_eq_nil {r : Rule} (h : ∀ x ∈ m.children.map unplaced, x.rule ≠ r) :
    m.childrenOf r = [] := by
  refine List.filter_eq_nil_iff.mpr fun x hx => ?_
  have hne := h _ (List.mem_map_of_mem hx)
  rw [rule_unplaced] at hne
  simpa using hne

theorem Read.childrenOf_apart (h : m.Read) (hk : m.rule.kind = .branch) {r r' : Rule}
    (hr : m.rule.body.apart r r' = true) : m.childrenOf r = [] ∨ m.childrenOf r' = [] := by
  obtain ⟨t, c, hsolid, -, hread⟩ := h.body hk
  exact (ne_or_ne_of_apart hr hsolid hread).imp childrenOf_eq_nil childrenOf_eq_nil

/-- A part that others always come with does not stand without them. -/
theorem Read.childrenOf_brings (h : m.Read) (hk : m.rule.kind = .branch) {r r' : Rule}
    (hr : m.rule.body.brings r r' = true) (hnone : m.child? r' = none) : m.childrenOf r = [] := by
  obtain ⟨t, c, hsolid, -, hread⟩ := h.body hk
  rcases ne_or_exists_of_brings hr hsolid hread with hne | ⟨x, hx, hrule⟩
  · exact childrenOf_eq_nil hne
  · obtain ⟨y, hy, rfl⟩ := List.mem_map.mp hx
    rw [rule_unplaced] at hrule
    obtain ⟨z, hz⟩ := Node.exists_child? hy hrule
    rw [hz] at hnone
    cases hnone

theorem perm_childrenOf {rs : List Rule} (hnodup : rs.Nodup) (h : ∀ x ∈ m.children, x.rule ∈ rs) :
    (rs.flatMap m.childrenOf).Perm m.children := by
  change (rs.flatMap fun r => m.children.filter fun x => decide (x.rule = r)).Perm m.children
  generalize m.children = xs at h
  induction rs generalizing xs with
  | nil => rw [List.eq_nil_iff_forall_not_mem.mpr fun x hx => List.not_mem_nil (h x hx)]; rfl
  | cons r rs ih =>
    obtain ⟨hr, hnodup⟩ := List.nodup_cons.mp hnodup
    have hrest : ∀ x ∈ xs.filter (fun x => !decide (x.rule = r)), x.rule ∈ rs := by
      intro x hx
      obtain ⟨hx, hne⟩ := List.mem_filter.mp hx
      exact (List.mem_cons.mp (h x hx)).resolve_left (by simpa using hne)
    have hfilter : ∀ q ∈ rs, (xs.filter (fun x => !decide (x.rule = r))).filter
        (fun x => decide (x.rule = q)) = xs.filter fun x => decide (x.rule = q) := by
      intro q hq
      rw [List.filter_filter]
      refine List.filter_congr fun x _ => ?_
      have hne : q ≠ r := fun heq => hr (heq ▸ hq)
      by_cases hx : x.rule = q
      · simp [hx, hne]
      · simp [hx]
    have hih := ih hnodup _ hrest
    rw [List.flatMap_congr hfilter] at hih
    rw [List.flatMap_cons]
    exact (hih.append_left _).trans (List.filter_append_perm _ xs)

/-! ### Rules out of reach -/

theorem Read.rule_within (h : m.Read) {rs : List Rule} (hm : m.rule ∈ rs)
    (hrs : ∀ r ∈ rs, r.kind = .branch → ∀ r' ∈ r.body.seen.flatMap Rule.leaves, r' ∈ rs) {x : Node}
    (hx : x.Within m) : x.rule ∈ rs := by
  induction hx with
  | self => exact hm
  | inside hc _ ih =>
    obtain ⟨hread, hkind, hrule⟩ := h.part hc
    exact ih hread (hrs _ hm hkind _ hrule)

theorem Read.occurrences_of_closed (h : m.Read) {rs qs : List Rule} (hm : m.rule ∈ rs)
    (hrs : ∀ r ∈ rs, r ∉ qs ∧ (r.kind = .branch → ∀ r' ∈ r.body.seen.flatMap Rule.leaves,
      r' ∈ rs)) :
    m.occurrences qs = [] := by
  refine List.eq_nil_iff_forall_not_mem.mpr fun x hx => ?_
  obtain ⟨hwithin, hq⟩ := within_of_mem_occurrences m hx
  exact (hrs _ (h.rule_within hm (fun r hr => (hrs r hr).2) hwithin)).1 hq

end Node

end HeaderBridge.Grammar
