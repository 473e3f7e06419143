import HeaderBridge.Proofs.SwiftType.Rendering

/-! # Open nullability

Nullability that a header leaves open can be closed in a type, each place by a rule
that sees how many function types stand around it. A renderer follows one such rule:
it gives a type the text of the type in which open nullability has become an
implicitly unwrapped optional outside all function types, and an optional inside them.
Where its counter may start over, the rule counts like the counter.
-/

namespace HeaderBridge

/-! ### Closing -/

mutual

def Nominal.closeWith (close : Nat → SwiftType → SwiftType) (depth : Nat) : Nominal → Nominal
  | .plain n => .plain n
  | .generic n ts => .generic n (SwiftType.closeAllWith close depth ts)

def Nominal.closeAllWith (close : Nat → SwiftType → SwiftType) (depth : Nat) :
    List Nominal → List Nominal
  | [] => []
  | n :: ns => n.closeWith close depth :: Nominal.closeAllWith close depth ns

def Component.closeWith (close : Nat → SwiftType → SwiftType) (depth : Nat) : Component → Component
  | .nominal t => .nominal (t.closeWith close depth)
  | .nested a b rest =>
    .nested (a.closeWith close depth) (b.closeWith close depth)
      (Nominal.closeAllWith close depth rest)

def Component.closeAllWith (close : Nat → SwiftType → SwiftType) (depth : Nat) :
    List Component → List Component
  | [] => []
  | c :: cs => c.closeWith close depth :: Component.closeAllWith close depth cs

/-- Close the nullability that is left open anywhere in a type. The rule is given the number of
function types around, of which `depth` stand around the whole type, and what is wrapped. -/
def SwiftType.closeWith (close : Nat → SwiftType → SwiftType) (depth : Nat) : SwiftType → SwiftType
  | .nominal t => .nominal (t.closeWith close depth)
  | .nested a b rest =>
    .nested (a.closeWith close depth) (b.closeWith close depth)
      (Nominal.closeAllWith close depth rest)
  | .optional t => .optional (t.closeWith close depth)
  | .implicitlyUnwrapped t => .implicitlyUnwrapped (t.closeWith close depth)
  | .unspecified t => close depth (t.closeWith close depth)
  | .metatype t => .metatype (t.closeWith close depth)
  | .void => .void
  | .tuple ts => .tuple (SwiftType.closeAllWith close depth ts)
  | .block r ps as =>
    .block (r.closeWith close (depth + 1)) (SwiftType.closeAllWith close (depth + 1) ps) as
  | .composition cs => .composition (Component.closeAllWith close depth cs)

def SwiftType.closeAllWith (close : Nat → SwiftType → SwiftType) (depth : Nat) :
    List SwiftType → List SwiftType
  | [] => []
  | t :: ts => t.closeWith close depth :: SwiftType.closeAllWith close depth ts

end

namespace SwiftType

/-! ### Resolving -/

/-- Open nullability as an optional inside function types, and as an implicitly unwrapped optional
outside them. -/
def optionalInside (depth : Nat) (t : SwiftType) : SwiftType :=
  if depth = 0 then implicitlyUnwrapped t else optional t

/-- The type inside `depth` function types with all open nullability resolved. -/
def resolve (depth : Nat) (t : SwiftType) : SwiftType := t.closeWith optionalInside depth

/-- The same where the function types are counted by a counter that starts over. -/
def resolveWrapping (depth : UInt64) (t : SwiftType) : SwiftType :=
  t.closeWith (fun n => optionalInside (n % UInt64.size)) depth.toNat

/-- A rule that closes open nullability as a renderer with `left` levels to go reads it, inside
`n` function types and more. -/
def Follows (close : Nat → SwiftType → SwiftType) (left n : Nat) : Prop :=
  ∀ m, n ≤ m → m ≤ n + left → close m = optionalInside (m % UInt64.size)

section Closing

variable {close : Nat → SwiftType → SwiftType} {k n : Nat}

theorem Follows.deeper (h : Follows close (k + 1) n) : Follows close k n :=
  fun m hn hm => h m hn (by omega)

theorem Follows.inBlock (h : Follows close (k + 1) n) : Follows close k (n + 1) :=
  fun m hn hm => h m (by omega) (by omega)

theorem length_closeAllWith (close : Nat → SwiftType → SwiftType) (n : Nat) (ts : List SwiftType) :
    (closeAllWith close n ts).length = ts.length := by
  induction ts with
  | nil => rfl
  | cons t ts ih => rw [closeAllWith, List.length_cons, ih, List.length_cons]

theorem Follows.needsParens_closeWith (h : Follows close k n) (t : SwiftType) :
    (t.closeWith close n).needsParens = t.needsParens := by
  cases t with
  | unspecified t =>
    rw [closeWith, h n (Nat.le_refl n) (Nat.le_add_right n k), optionalInside]
    split <;> rfl
  | _ => rfl

theorem ofNat_eq_zero_iff : UInt64.ofNat n = 0 ↔ n % UInt64.size = 0 := by
  rw [← UInt64.toNat_inj, UInt64.toNat_ofNat', UInt64.toNat_zero]

theorem renderWithin_optionalInside (left : Option Nat) (e : UInt64) (n : Nat) (t : SwiftType) :
    renderWithin left e (optionalInside (n % UInt64.size) t) = limited left fun j =>
      parenthesized t.needsParens (renderWithin j e t) ++
        if UInt64.ofNat n = 0 then "!" else "?" := by
  simp only [optionalInside, ofNat_eq_zero_iff]
  split <;> rw [renderWithin]

theorem limited_congr {left : Nat} {f g : Option Nat → String}
    (h : ∀ k, left = k + 1 → f (some k) = g (some k)) :
    limited (some left) f = limited (some left) g := by
  cases left with
  | zero => rfl
  | succ k => exact h k rfl

mutual

/-- Once all nullability is closed, it does not matter how many function types stand around. -/
theorem Follows.renderWithin_eq {k n : Nat} (h : Follows close k n) (e : UInt64) :
    ∀ t : SwiftType,
      renderWithin (some k) e (t.closeWith close n) = renderWithin (some k) (.ofNat n) t
  | nominal (.plain _) => by
    rw [closeWith, Nominal.closeWith, renderWithin, renderWithin]
  | nominal (.generic s ts) => by
    rw [closeWith, Nominal.closeWith, renderWithin, renderWithin]
    refine limited_congr ?_
    rintro j rfl
    rw [length_closeAllWith, h.deeper.renderAll_eq e ts]
  | nested a b rest => by
    rw [closeWith, renderWithin, renderWithin]
    refine limited_congr ?_
    rintro j rfl
    rw [h.deeper.renderNominal_eq e a, h.deeper.renderNominal_eq e b,
      h.deeper.renderNominals_eq e rest]
  | optional t | implicitlyUnwrapped t | metatype t => by
    rw [closeWith, renderWithin, renderWithin, h.needsParens_closeWith]
    refine limited_congr ?_
    rintro j rfl
    rw [h.deeper.renderWithin_eq e t]
  | unspecified t => by
    rw [closeWith, h n (Nat.le_refl n) (Nat.le_add_right n k), renderWithin_optionalInside,
      renderWithin, h.needsParens_closeWith]
    refine limited_congr ?_
    rintro j rfl
    rw [h.deeper.renderWithin_eq e t]
  | void => by rw [closeWith, renderWithin, renderWithin]
  | tuple ts => by
    rw [closeWith, renderWithin, renderWithin]
    refine limited_congr ?_
    rintro j rfl
    rw [h.deeper.renderAll_eq e ts]
  | block r ps as => by
    rw [closeWith, renderWithin, renderWithin]
    refine limited_congr ?_
    rintro j rfl
    have hnext : UInt64.ofNat n + 1 = .ofNat (n + 1) := (UInt64.ofNat_add n 1).symm
    rw [h.inBlock.renderWithin_eq (e + 1) r, h.inBlock.renderAll_eq (e + 1) ps, hnext]
  | composition cs => by
    rw [closeWith, renderWithin, renderWithin]
    refine limited_congr ?_
    rintro j rfl
    rw [h.deeper.renderComponents_eq e cs]

theorem Follows.renderAll_eq {k n : Nat} (h : Follows close k n) (e : UInt64) :
    ∀ ts : List SwiftType,
      renderAll (some k) e (closeAllWith close n ts) = renderAll (some k) (.ofNat n) ts
  | [] => rfl
  | t :: ts => by
    rw [closeAllWith, renderAll, h.renderAll_eq e ts, h.renderWithin_eq e t, renderAll]

theorem Follows.renderNominal_eq {k n : Nat} (h : Follows close k n) (e : UInt64) :
    ∀ x : Nominal,
      renderNominal (some k) e (x.closeWith close n) = renderNominal (some k) (.ofNat n) x
  | .plain _ => rfl
  | .generic s ts => by
    rw [Nominal.closeWith, renderNominal, length_closeAllWith, h.renderAll_eq e ts, renderNominal]

theorem Follows.renderNominals_eq {k n : Nat} (h : Follows close k n) (e : UInt64) :
    ∀ xs : List Nominal, renderNominals (some k) e (Nominal.closeAllWith close n xs) =
      renderNominals (some k) (.ofNat n) xs
  | [] => rfl
  | x :: xs => by
    rw [Nominal.closeAllWith, renderNominals, h.renderNominal_eq e x, h.renderNominals_eq e xs,
      renderNominals]

theorem Follows.renderComponent_eq {k n : Nat} (h : Follows close k n) (e : UInt64) :
    ∀ c : Component,
      renderComponent (some k) e (c.closeWith close n) = renderComponent (some k) (.ofNat n) c
  | .nominal t => h.renderNominal_eq e t
  | .nested a b rest => by
    rw [Component.closeWith, renderComponent, h.renderNominal_eq e a, h.renderNominal_eq e b,
      h.renderNominals_eq e rest, renderComponent]

theorem Follows.renderComponents_eq {k n : Nat} (h : Follows close k n) (e : UInt64) :
    ∀ cs : List Component, renderComponents (some k) e (Component.closeAllWith close n cs) =
      renderComponents (some k) (.ofNat n) cs
  | [] => rfl
  | c :: cs => by
    rw [Component.closeAllWith, renderComponents, h.renderComponent_eq e c,
      h.renderComponents_eq e cs, renderComponents]

end

end Closing

end SwiftType

/-! ### Renderers -/

namespace Renderer

open SwiftType

/-- A renderer inside `e` function types reads a type that is closed like one inside `d` of them. -/
theorem gives_closeWith {a : Arithmetic} {close : Nat → SwiftType → SwiftType} {d : UInt64}
    (h : Follows close maxLevels d.toNat) (e : UInt64) (t : SwiftType) :
    Gives (a = .checked ∧ UInt64.size ≤ e.toNat + maxLevels) (within e)
      (render a (t.closeWith close d.toNat)) (renderWithin (some maxLevels) d t) := by
  have htext := h.renderWithin_eq e t
  rw [UInt64.ofNat_toNat] at htext
  rw [← htext]
  exact render_gives (within e) _

/-- A renderer gives a type the text of the type with its open nullability resolved, wherever the
latter stands, and has its counters back behind both. It stops instead only where counters are
checked, inside one of the last 64 numbers of function types. -/
theorem render_eq_resolve (t : SwiftType) (d e : UInt64) : ∃ s, ∀ a,
    Gives (a = .checked ∧ UInt64.size ≤ d.toNat + 64) (within d) (render a t) s ∧
    Gives (a = .checked ∧ UInt64.size ≤ e.toNat + 64) (within e)
      (render a (t.resolveWrapping d)) s ∧
    (d.toNat + 64 < UInt64.size →
      Gives (a = .checked ∧ UInt64.size ≤ e.toNat + 64) (within e)
        (render a (t.resolve d.toNat)) s) := by
  refine ⟨renderWithin (some maxLevels) d t, fun a => ⟨render_gives (within d) t, ?_, fun hd => ?_⟩⟩
  · exact gives_closeWith (fun _ _ _ => rfl) e t
  · have hfollows : Follows optionalInside maxLevels d.toNat := by
      intro m _ hm
      rw [Nat.mod_eq_of_lt (Nat.lt_of_le_of_lt hm hd)]
    exact gives_closeWith hfollows e t

/-- The sibling of a function type is back outside of it. -/
theorem render_eq_resolve_sibling :
    let t := tuple [function .void [unspecified (named "A")], unspecified (named "B")]
    render .checked t (within 0) = .ok ("((A?) -> Void, B!)", within 0) ∧
      render .checked (t.resolve 0) (within 3) = .ok ("((A?) -> Void, B!)", within 3) := by
  intro t
  obtain ⟨s, hs⟩ := render_eq_resolve t 0 3
  obtain ⟨hrun, -, hresolved⟩ := hs .checked
  have hrun := hrun.resolve_right fun hstop => absurd hstop.1.2 (by decide)
  have hresolved := (hresolved (by decide)).resolve_right fun hstop => absurd hstop.1.2 (by decide)
  have htext : render .checked t (within 0) = .ok ("((A?) -> Void, B!)", within 0) := rfl
  obtain rfl : "((A?) -> Void, B!)" = s :=
    congrArg Prod.fst (Except.ok.inj (htext.symm.trans hrun))
  exact ⟨hrun, hresolved⟩

-- inside the last number of function types the counter is full
example : render .wrapping (function (unspecified (named "A")) []) (within 18446744073709551615) =
    .ok ("() -> A!", within 18446744073709551615) := by
  rfl

example : render .checked (function (unspecified (named "A")) []) (within 18446744073709551615) =
    .error .add := by
  rfl

end Renderer

end HeaderBridge
