import HeaderBridge.Outline.Basic
import Mathlib.Data.List.Nodup

/-! # Outlines numbered in pre-order

The trees below a node are laid out in an outline when their nodes take up
consecutive numbers, each node before the nodes below it. An outline whose root
is laid out in this way is its own pre-order, and each of its nodes hangs in
exactly one place.
-/

namespace HeaderBridge.Outline

/-- The trees at the given nodes, which hang under one parent, take up the numbers
from the first bound up to the second, in pre-order. -/
inductive Layout (o : Outline) : Nat → Nat → List Nat → Nat → Prop where
  | nil (p a : Nat) : Layout o p a [] a
  | cons {p a b c : Nat} {is : List Nat} : o.parentOf a = some p →
      Layout o a (a + 1) (o.childrenOf a) b → Layout o p b is c → Layout o p a (a :: is) c

namespace Layout

variable {o o' : Outline} {p a b c : Nat} {is js : List Nat}

theorem le (h : Layout o p a is c) : a ≤ c := by
  induction h with
  | nil => exact Nat.le_refl _
  | cons _ _ _ ih ih' => omega

theorem append (h : Layout o p a is b) (h' : Layout o p b js c) : Layout o p a (is ++ js) c := by
  induction h with
  | nil => exact h'
  | cons hp hb _ _ ih => exact .cons hp hb (ih h')

theorem single (hp : o.parentOf a = some p) (h : Layout o a (a + 1) (o.childrenOf a) c) :
    Layout o p a [a] c := .cons hp h (.nil _ _)

theorem congr (h : Layout o p a is c) (he : ∀ i, a ≤ i → i < c → o'.get? i = o.get? i) :
    Layout o' p a is c := by
  induction h with
  | nil => exact .nil _ _
  | @cons p a b c is hp hb hc ih ih' =>
    have hab := hb.le
    have hbc := hc.le
    have hg : o'.get? a = o.get? a := he a (Nat.le_refl _) (by omega)
    have hch : o'.childrenOf a = o.childrenOf a := by simp only [childrenOf, hg]
    refine .cons ?_ ?_ (ih' fun i hi hic => he i (by omega) hic)
    · rw [← hp]; simp only [parentOf, hg]
    · rw [hch]; exact ih fun i hi hib => he i (by omega) (by omega)

theorem bounds (h : Layout o p a is c) :
    ∀ i ∈ is, a ≤ i ∧ i < c ∧ o.parentOf i = some p := by
  induction h with
  | nil => simp
  | cons hp hb hc _ ih =>
    intro i hi
    have hab := hb.le
    have hbc := hc.le
    rcases List.mem_cons.mp hi with rfl | hi
    · exact ⟨Nat.le_refl _, by omega, hp⟩
    · obtain ⟨h₁, h₂, h₃⟩ := ih i hi
      exact ⟨by omega, h₂, h₃⟩

theorem nodup (h : Layout o p a is c) : is.Nodup := by
  induction h with
  | nil => exact .nil
  | cons _ hb hc _ ih =>
    refine List.nodup_cons.mpr ⟨fun hm => ?_, ih⟩
    have hab := hb.le
    have hbm := (hc.bounds _ hm).1
    omega

theorem sub (h : Layout o p a is c) : ∀ i, a ≤ i → i < c →
    ∃ d, d ≤ c ∧ Layout o i (i + 1) (o.childrenOf i) d := by
  induction h with
  | nil => intro i hi hic; omega
  | @cons p a b c is hp hb hc ih ih' =>
    intro i hi hic
    have hbc := hc.le
    rcases Nat.lt_or_ge i b with hib | hbi
    · rcases Nat.eq_or_lt_of_le hi with rfl | hlt
      · exact ⟨b, hbc, hb⟩
      · obtain ⟨d, hd, hl⟩ := ih i hlt hib
        exact ⟨d, by omega, hl⟩
    · exact ih' i hbi hic

theorem mem_or_child (h : Layout o p a is c) : ∀ i, a ≤ i → i < c →
    i ∈ is ∨ ∃ q, a ≤ q ∧ q < c ∧ i ∈ o.childrenOf q := by
  induction h with
  | nil => intro i hi hic; omega
  | @cons p a b c is hp hb hc ih ih' =>
    intro i hi hic
    have hab := hb.le
    have hbc := hc.le
    rcases Nat.lt_or_ge i b with hib | hbi
    · rcases Nat.eq_or_lt_of_le hi with rfl | hlt
      · exact .inl List.mem_cons_self
      · rcases ih i hlt hib with hm | ⟨q, hq, hqb, hm⟩
        · exact .inr ⟨a, Nat.le_refl _, by omega, hm⟩
        · exact .inr ⟨q, by omega, by omega, hm⟩
    · rcases ih' i hbi hic with hm | ⟨q, hq, hqc, hm⟩
      · exact .inl (List.mem_cons_of_mem _ hm)
      · exact .inr ⟨q, by omega, hqc, hm⟩

theorem range'_eq (hab : a + 1 ≤ b) (hbc : b ≤ c) : List.range' a (c - a) =
    a :: (List.range' (a + 1) (b - (a + 1)) ++ List.range' b (c - b)) := by
  have hjoin := @List.range'_append_1 (a + 1) (b - (a + 1)) (c - b)
  rw [show a + 1 + (b - (a + 1)) = b by omega] at hjoin
  rw [hjoin, show c - a = (b - (a + 1) + (c - b)) + 1 by omega, List.range'_succ]

/-- Unfolding the trees of a layout gives their numbers in order. -/
theorem unfold_append (h : Layout o p a is c) : ∀ n rest,
    o.unfold (n + (c - a)) (is ++ rest) = List.range' a (c - a) ++ o.unfold n rest := by
  induction h with
  | nil => simp
  | @cons p a b c is hp hb hc ih ih' =>
    intro n rest
    have hab := hb.le
    have hbc := hc.le
    have hsteps : n + (c - a) = n + (c - b) + (b - (a + 1)) + 1 := by omega
    rw [hsteps, List.cons_append, unfold, ih, ih', range'_eq hab hbc, List.cons_append,
      List.append_assoc]

/-- The nodes below a node are those of its layout. -/
theorem descendants_eq {top : Nat} (h : Layout o top (top + 1) (o.childrenOf top) c)
    (hc : c ≤ o.size) : o.descendants top = List.range' (top + 1) (c - (top + 1)) := by
  have hunfold := h.unfold_append (o.size - (c - (top + 1))) []
  have hnil : ∀ n, o.unfold n [] = [] := by
    rintro (_ | n) <;> rfl
  rw [List.append_nil, show o.size - (c - (top + 1)) + (c - (top + 1)) = o.size by omega, hnil,
    List.append_nil] at hunfold
  exact hunfold

end Layout

/-! ### Whole outlines -/

/-- The nodes are numbered in pre-order, and each but the root hangs in one place. -/
structure PreOrdered (o : Outline) : Prop where
  parentOf_root : o.parentOf root = none
  descendants_root : o.descendants root = List.range' 1 (o.size - 1)
  /-- Every node but the root stands once in the list of its parent, and in no other. -/
  hangs_once : ∀ i, i ≠ root → i < o.size → ∃ p, p < o.size ∧ o.parentOf i = some p ∧
    (o.childrenOf p).count i = 1 ∧ ∀ q, q ≠ p → i ∉ o.childrenOf q
  /-- Only nodes other than the root stand in the list of any node. -/
  children : ∀ p i, i ∈ o.childrenOf p → i ≠ root ∧ i < o.size ∧ o.parentOf i = some p

theorem childrenOf_of_size_le {o : Outline} {i : Nat} (h : o.size ≤ i) : o.childrenOf i = [] := by
  simp only [size] at h
  simp [childrenOf, get?, h]

theorem Layout.preOrdered {o : Outline} (hroot : o.parentOf root = none) (hs : 0 < o.size)
    (h : Layout o root 1 (o.childrenOf root) o.size) : PreOrdered o := by
  have hchild : ∀ p i, i ∈ o.childrenOf p → i ≠ root ∧ i < o.size ∧ o.parentOf i = some p := by
    intro p i hi
    have hp : p < o.size := by
      rcases Nat.lt_or_ge p o.size with hlt | hge
      · exact hlt
      · simp [childrenOf_of_size_le hge] at hi
    obtain ⟨d, hd, hl⟩ : ∃ d, d ≤ o.size ∧ Layout o p (p + 1) (o.childrenOf p) d := by
      rcases Nat.eq_zero_or_pos p with rfl | hpos
      · exact ⟨_, Nat.le_refl _, h⟩
      · exact h.sub p hpos hp
    obtain ⟨h₁, h₂, h₃⟩ := hl.bounds i hi
    exact ⟨by simp only [root]; omega, by omega, h₃⟩
  refine ⟨hroot, ?_, ?_, hchild⟩
  · have hu := h.unfold_append 1 []
    rw [List.append_nil, show 1 + (o.size - 1) = o.size by omega] at hu
    rw [descendants, hu]
    simp [unfold]
  · intro i hi his
    -- a node of the outline stands in the list of the root or of another node
    obtain ⟨p, hp, d, hl, him⟩ : ∃ p, p < o.size ∧ ∃ d,
        Layout o p (p + 1) (o.childrenOf p) d ∧ i ∈ o.childrenOf p := by
      rcases h.mem_or_child i (Nat.one_le_iff_ne_zero.mpr hi) his with hm | ⟨q, hq, hqs, hm⟩
      · exact ⟨root, hs, _, h, hm⟩
      · obtain ⟨d, -, hl⟩ := h.sub q hq hqs
        exact ⟨q, hqs, d, hl, hm⟩
    have hpar := (hchild p i him).2.2
    refine ⟨p, hp, hpar, List.count_eq_one_of_mem hl.nodup him, fun q hq hm => hq ?_⟩
    have hpar' := (hchild q i hm).2.2
    rw [hpar] at hpar'
    exact (Option.some.inj hpar').symm

end HeaderBridge.Outline
