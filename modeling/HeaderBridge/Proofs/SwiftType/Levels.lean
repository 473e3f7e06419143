import HeaderBridge.Proofs.SwiftType.Rendering

/-! # Levels of Swift types

The levels of a type are those that its text shows. A type with no more levels than
are shown reads as it does without a limit.
-/

namespace HeaderBridge

/-! ### Levels -/

mutual

def Nominal.levels : Nominal → Nat
  | .plain _ => 0
  | .generic n ts => if SwiftType.isErased n ts.length then 0 else SwiftType.levelsAll ts

def Nominal.levelsAll : List Nominal → Nat
  | [] => 0
  | n :: ns => max n.levels (Nominal.levelsAll ns)

def Component.levels : Component → Nat
  | .nominal t => t.levels
  | .nested a b rest => max a.levels (max b.levels (Nominal.levelsAll rest))

def Component.levelsAll : List Component → Nat
  | [] => 0
  | c :: cs => max c.levels (Component.levelsAll cs)

/-- The levels of a type. The named types of a chain or of a composition are no levels of their
own. -/
def SwiftType.levels : SwiftType → Nat
  | .nominal t => t.levels + 1
  | .nested a b rest => max a.levels (max b.levels (Nominal.levelsAll rest)) + 1
  | .optional t | .implicitlyUnwrapped t | .unspecified t | .metatype t => t.levels + 1
  | .void => 1
  | .tuple ts => SwiftType.levelsAll ts + 1
  | .block r ps _ => max r.levels (SwiftType.levelsAll ps) + 1
  | .composition cs => Component.levelsAll cs + 1

def SwiftType.levelsAll : List SwiftType → Nat
  | [] => 0
  | t :: ts => max t.levels (SwiftType.levelsAll ts)

end

theorem SwiftType.levelsAll_le {ts : List SwiftType} {n : Nat} :
    levelsAll ts ≤ n ↔ ∀ t ∈ ts, t.levels ≤ n := by
  induction ts with
  | nil => simp [levelsAll]
  | cons t ts ih => simp only [levelsAll, Nat.max_le, ih, List.forall_mem_cons]

theorem Nominal.levelsAll_le {ns : List Nominal} {n : Nat} :
    levelsAll ns ≤ n ↔ ∀ t ∈ ns, t.levels ≤ n := by
  induction ns with
  | nil => simp [levelsAll]
  | cons t ts ih => simp only [levelsAll, Nat.max_le, ih, List.forall_mem_cons]

theorem Component.levelsAll_le {cs : List Component} {n : Nat} :
    levelsAll cs ≤ n ↔ ∀ t ∈ cs, t.levels ≤ n := by
  induction cs with
  | nil => simp [levelsAll]
  | cons t ts ih => simp only [levelsAll, Nat.max_le, ih, List.forall_mem_cons]

/-! ### Types that are shown in full -/

namespace SwiftType

theorem limited_of_le {left levels : Nat} {text : Option Nat → String} (h : levels + 1 ≤ left)
    (htext : ∀ k, levels ≤ k → text (some k) = text none) :
    limited (some left) text = limited none text := by
  cases left with
  | zero => omega
  | succ k => exact htext k (Nat.le_of_succ_le_succ h)

mutual

/-- A type with no more levels than are shown reads as it does without a limit. -/
theorem renderWithin_eq_none (left : Nat) (depth : UInt64) : ∀ t : SwiftType, t.levels ≤ left →
    renderWithin (some left) depth t = renderWithin none depth t
  | nominal (.plain n), h => by
    rw [renderWithin, renderWithin]
    exact limited_of_le h fun _ _ => rfl
  | nominal (.generic n ts), h => by
    rw [renderWithin, renderWithin]
    refine limited_of_le h fun k hk => ?_
    cases herased : isErased n ts.length with
    | true => rfl
    | false =>
      simp only [Nominal.levels, herased] at hk
      rw [renderAll_eq_none k depth ts hk]
  | nested a b rest, h => by
    rw [renderWithin, renderWithin]
    refine limited_of_le h fun k hk => ?_
    rw [Nat.max_le, Nat.max_le] at hk
    rw [renderNominal_eq_none k depth a hk.1, renderNominal_eq_none k depth b hk.2.1,
      renderNominals_eq_none k depth rest hk.2.2]
  | optional t, h | implicitlyUnwrapped t, h | unspecified t, h | metatype t, h => by
    rw [renderWithin, renderWithin]
    exact limited_of_le h fun k hk => by rw [renderWithin_eq_none k depth t hk]
  | void, h => by
    rw [renderWithin, renderWithin]
    exact limited_of_le h fun _ _ => rfl
  | tuple ts, h => by
    rw [renderWithin, renderWithin]
    exact limited_of_le h fun k hk => by rw [renderAll_eq_none k depth ts hk]
  | block r ps as, h => by
    rw [renderWithin, renderWithin]
    refine limited_of_le h fun k hk => ?_
    rw [Nat.max_le] at hk
    rw [renderWithin_eq_none k (depth + 1) r hk.1, renderAll_eq_none k (depth + 1) ps hk.2]
  | composition cs, h => by
    rw [renderWithin, renderWithin]
    exact limited_of_le h fun k hk => by rw [renderComponents_eq_none k depth cs hk]

theorem renderAll_eq_none (left : Nat) (depth : UInt64) : ∀ ts : List SwiftType,
    levelsAll ts ≤ left → renderAll (some left) depth ts = renderAll none depth ts
  | [], _ => rfl
  | t :: ts, h => by
    rw [levelsAll, Nat.max_le] at h
    rw [renderAll, renderWithin_eq_none left depth t h.1, renderAll_eq_none left depth ts h.2,
      renderAll]

theorem renderNominal_eq_none (left : Nat) (depth : UInt64) : ∀ n : Nominal, n.levels ≤ left →
    renderNominal (some left) depth n = renderNominal none depth n
  | .plain _, _ => rfl
  | .generic n ts, h => by
    rw [renderNominal, renderNominal]
    cases herased : isErased n ts.length with
    | true => rfl
    | false =>
      simp only [Nominal.levels, herased] at h
      rw [renderAll_eq_none left depth ts h]

theorem renderNominals_eq_none (left : Nat) (depth : UInt64) : ∀ ns : List Nominal,
    Nominal.levelsAll ns ≤ left → renderNominals (some left) depth ns = renderNominals none depth ns
  | [], _ => rfl
  | n :: ns, h => by
    rw [Nominal.levelsAll, Nat.max_le] at h
    rw [renderNominals, renderNominal_eq_none left depth n h.1,
      renderNominals_eq_none left depth ns h.2, renderNominals]

theorem renderComponent_eq_none (left : Nat) (depth : UInt64) : ∀ c : Component, c.levels ≤ left →
    renderComponent (some left) depth c = renderComponent none depth c
  | .nominal t, h => renderNominal_eq_none left depth t h
  | .nested a b rest, h => by
    rw [Component.levels, Nat.max_le, Nat.max_le] at h
    rw [renderComponent, renderNominal_eq_none left depth a h.1,
      renderNominal_eq_none left depth b h.2.1, renderNominals_eq_none left depth rest h.2.2,
      renderComponent]

theorem renderComponents_eq_none (left : Nat) (depth : UInt64) : ∀ cs : List Component,
    Component.levelsAll cs ≤ left →
      renderComponents (some left) depth cs = renderComponents none depth cs
  | [], _ => rfl
  | c :: cs, h => by
    rw [Component.levelsAll, Nat.max_le] at h
    rw [renderComponents, renderComponent_eq_none left depth c h.1,
      renderComponents_eq_none left depth cs h.2, renderComponents]

end

theorem render_eq_renderFully {t : SwiftType} (h : t.levels ≤ maxLevels) :
    t.render = t.renderFully 0 := by
  rw [render_eq, renderWithin_eq_none maxLevels 0 t h, renderFully]

end SwiftType

end HeaderBridge
