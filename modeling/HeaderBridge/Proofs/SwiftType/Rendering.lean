import HeaderBridge.SwiftType.Render

/-! # Rendering as a function of the depth

A renderer carries its counters through a type. Whatever it renders, the counters
are back at their places behind it, so the text of a type is a function of the number
of levels that may still be shown and of the number of function types around. Without
a limit to the levels the same function gives the full text. A renderer that checks
its counters may stop instead, but only where its last 64 function types begin.
-/

namespace HeaderBridge

/-! ### Texts without counters -/

namespace SwiftType

/-- What is shown with a number of levels to go, or without a limit, given how it reads one level
deeper. -/
def limited : Option Nat → (Option Nat → String) → String
  | none, text => text none
  | some 0, _ => truncationMarker
  | some (n + 1), text => text (some n)

mutual

/-- The text of a type inside `depth` function types, with `left` levels to show. -/
def renderWithin (left : Option Nat) (depth : UInt64) : SwiftType → String
  | nominal (.plain n) => limited left fun _ => n
  | nominal (.generic n ts) => limited left fun k =>
    if isErased n ts.length then n else collectionText n (renderAll k depth ts)
  | nested a b rest => limited left fun k =>
    ".".intercalate
      (renderNominal k depth a :: renderNominal k depth b :: renderNominals k depth rest)
  | optional t => limited left fun k =>
    parenthesized t.needsParens (renderWithin k depth t) ++ "?"
  | implicitlyUnwrapped t => limited left fun k =>
    parenthesized t.needsParens (renderWithin k depth t) ++ "!"
  | unspecified t => limited left fun k =>
    parenthesized t.needsParens (renderWithin k depth t) ++ if depth = 0 then "!" else "?"
  | metatype t => limited left fun k =>
    parenthesized t.needsParens (renderWithin k depth t) ++ ".Type"
  | void => limited left fun _ => "Void"
  | tuple ts => limited left fun k => tupleText (renderAll k depth ts)
  | block r ps as => limited left fun k =>
    blockText as (renderAll k (depth + 1) ps) (renderWithin k (depth + 1) r)
  | composition cs => limited left fun k => " & ".intercalate (renderComponents k depth cs)

def renderAll (left : Option Nat) (depth : UInt64) : List SwiftType → List String
  | [] => []
  | t :: ts => renderWithin left depth t :: renderAll left depth ts

def renderNominal (left : Option Nat) (depth : UInt64) : Nominal → String
  | .plain n => n
  | .generic n ts =>
    if isErased n ts.length then n else genericText n (renderAll left depth ts)

def renderNominals (left : Option Nat) (depth : UInt64) : List Nominal → List String
  | [] => []
  | n :: ns => renderNominal left depth n :: renderNominals left depth ns

def renderComponent (left : Option Nat) (depth : UInt64) : Component → String
  | .nominal t => renderNominal left depth t
  | .nested a b rest =>
    ".".intercalate
      (renderNominal left depth a :: renderNominal left depth b :: renderNominals left depth rest)

def renderComponents (left : Option Nat) (depth : UInt64) : List Component → List String
  | [] => []
  | c :: cs => renderComponent left depth c :: renderComponents left depth cs

end

def renderFully (depth : UInt64) (t : SwiftType) : String := t.renderWithin none depth

section Lists

variable (left : Option Nat) (depth : UInt64)

theorem renderAll_eq_map (ts : List SwiftType) :
    renderAll left depth ts = ts.map (renderWithin left depth) := by
  induction ts with
  | nil => rfl
  | cons t ts ih => rw [renderAll, ih, List.map_cons]

theorem renderNominals_eq_map (ns : List Nominal) :
    renderNominals left depth ns = ns.map (renderNominal left depth) := by
  induction ns with
  | nil => rfl
  | cons n ns ih => rw [renderNominals, ih, List.map_cons]

theorem renderComponents_eq_map (cs : List Component) :
    renderComponents left depth cs = cs.map (renderComponent left depth) := by
  induction cs with
  | nil => rfl
  | cons c cs ih => rw [renderComponents, ih, List.map_cons]

end Lists

end SwiftType

/-! ### Counters that are taken back -/

namespace Arithmetic

variable {a : Arithmetic} {n : UInt64}

theorem increment_eq (h : a = checked → n + 1 ≠ 0) : a.increment n = .ok (n + 1) :=
  if_neg fun hfull => h hfull.1 hfull.2

theorem decrement_add_one (h : a = checked → n + 1 ≠ 0) : a.decrement (n + 1) = .ok n := by
  have hne : ¬ (a = checked ∧ n + 1 = 0) := fun hfull => h hfull.1 hfull.2
  rw [decrement, if_neg hne, UInt64.add_sub_cancel]

theorem add_one_eq_zero_iff : n + 1 = 0 ↔ n.toNat + 1 = UInt64.size := by
  have hlt := n.toNat_lt
  rw [← UInt64.toNat_inj, UInt64.toNat_add, UInt64.toNat_one, UInt64.toNat_zero, UInt64.size]
  omega

theorem toNat_add_one (h : n + 1 ≠ 0) : (n + 1).toNat = n.toNat + 1 := by
  have hlt := n.toNat_lt
  rw [Ne, add_one_eq_zero_iff, UInt64.size] at h
  rw [UInt64.toNat_add, UInt64.toNat_one, Nat.mod_eq_of_lt (by omega)]

end Arithmetic

namespace Renderer

open SwiftType Arithmetic

variable {a : Arithmetic} {r : Renderer}

/-- How many levels a renderer may still show. -/
def left (r : Renderer) : Nat := maxLevels - r.typeDepth.toNat

/-- Counters are checked, and there is no room for a function type at every level that may still
be shown. -/
def Crowded (a : Arithmetic) (r : Renderer) : Prop :=
  a = .checked ∧ UInt64.size ≤ r.blockDepth.toNat + r.left

def deeper (r : Renderer) : Renderer := { r with typeDepth := r.typeDepth + 1 }

def inBlock (r : Renderer) : Renderer := { r with blockDepth := r.blockDepth + 1 }

theorem left_eq_zero_iff : r.left = 0 ↔ maxLevels ≤ r.typeDepth.toNat := Nat.sub_eq_zero_iff_le

theorem typeDepth_add_one_ne_zero (h : r.left ≠ 0) : r.typeDepth + 1 ≠ 0 := by
  rw [Ne, left_eq_zero_iff, maxLevels] at h
  rw [Ne, add_one_eq_zero_iff, UInt64.size]
  omega

theorem left_deeper (h : r.left ≠ 0) : r.left = r.deeper.left + 1 := by
  rw [left, left, deeper, toNat_add_one (typeDepth_add_one_ne_zero h)]
  rw [Ne, left_eq_zero_iff] at h
  omega

theorem Crowded.of_deeper (hleft : r.left ≠ 0) (h : Crowded a r.deeper) : Crowded a r := by
  refine ⟨h.1, ?_⟩
  rw [left_deeper hleft]
  exact Nat.le_succ_of_le h.2

theorem Crowded.of_inBlock (hleft : r.left ≠ 0) (hne : r.blockDepth + 1 ≠ 0)
    (h : Crowded a r.deeper.inBlock) : Crowded a r := by
  obtain ⟨ha, hcrowded⟩ := h
  change UInt64.size ≤ (r.blockDepth + 1).toNat + r.deeper.left at hcrowded
  rw [toNat_add_one hne] at hcrowded
  refine ⟨ha, ?_⟩
  rw [left_deeper hleft]
  omega

theorem crowded_of_full (hleft : r.left ≠ 0) (ha : a = .checked) (hfull : r.blockDepth + 1 = 0) :
    Crowded a r := by
  rw [add_one_eq_zero_iff] at hfull
  exact ⟨ha, by omega⟩

theorem enterLevel_eq (h : r.left ≠ 0) : enterLevel a r = .ok r.deeper := by
  rw [enterLevel, increment_eq fun _ => typeDepth_add_one_ne_zero h]
  rfl

theorem leaveLevel_deeper (h : r.left ≠ 0) : leaveLevel a r.deeper = .ok r := by
  rw [leaveLevel, deeper, decrement_add_one fun _ => typeDepth_add_one_ne_zero h]
  rfl

theorem enterBlock_eq (h : a = .checked → r.blockDepth + 1 ≠ 0) :
    enterBlock a r = .ok r.inBlock := by
  rw [enterBlock, increment_eq h]
  rfl

theorem enterBlock_of_full (ha : a = .checked) (hfull : r.blockDepth + 1 = 0) :
    enterBlock a r = .error .add := by
  rw [enterBlock, increment, if_pos ⟨ha, hfull⟩]
  rfl

theorem leaveBlock_inBlock (h : a = .checked → r.blockDepth + 1 ≠ 0) :
    leaveBlock a r.inBlock = .ok r := by
  rw [leaveBlock, inBlock, decrement_add_one h]
  rfl

/-! ### Runs -/

section Steps

variable {α β : Type} {x : Rendering α} {f : α → Rendering β} {s : α} {r' : Renderer} {e : Overflow}

theorem bind_ok (h : x r = .ok (s, r')) : (x >>= f) r = f s r' := by
  change (x r).bind _ = _
  rw [h]
  rfl

theorem bind_error (h : x r = .error e) : (x >>= f) r = .error e := by
  change (x r).bind _ = _
  rw [h]
  rfl

theorem get_eq (r : Renderer) : (get : Rendering Renderer) r = .ok (r, r) := rfl

theorem set_eq (r r' : Renderer) : (set r' : Rendering PUnit) r = .ok (⟨⟩, r') := rfl

theorem liftM_ok {y : Except Overflow α} (h : y = .ok s) (r : Renderer) :
    (liftM y : Rendering α) r = .ok (s, r) := by
  rw [h]
  rfl

theorem liftM_error {y : Except Overflow α} (h : y = .error e) (r : Renderer) :
    (liftM y : Rendering α) r = .error e := by
  rw [h]
  rfl

end Steps

/-- A run gives a text and has its counters back behind it, or it stops at a full counter, which
it does under a condition only. -/
def Gives {α : Type} (stops : Prop) (r : Renderer) (x : Rendering α) (s : α) : Prop :=
  x r = .ok (s, r) ∨ stops ∧ x r = .error .add

namespace Gives

variable {α β : Type} {stops : Prop} {x : Rendering α} {s : α}

theorem mono {stops' : Prop} (h : Gives stops r x s) (hstops : stops → stops') :
    Gives stops' r x s :=
  h.imp_right fun hstop => ⟨hstops hstop.1, hstop.2⟩

theorem pure (s : α) : Gives stops r (Pure.pure s) s := .inl rfl

theorem bind {f : α → Rendering β} {u : β} (h : Gives stops r x s) (hf : Gives stops r (f s) u) :
    Gives stops r (x >>= f) u := by
  rcases h with h | ⟨hstops, h⟩
  · unfold Gives
    rwa [bind_ok h]
  · exact .inr ⟨hstops, bind_error h⟩

/-- What is raised in front of a text is taken back behind it. -/
theorem inside {enter leave : Renderer → Except Overflow Renderer} {text : Rendering String}
    {s : String} {r' : Renderer} (henter : enter r = .ok r') (h : Gives stops r' text s)
    (hleave : leave r' = .ok r) : Gives stops r (inside enter leave text) s := by
  unfold Gives
  rw [Renderer.inside, bind_ok (get_eq r), bind_ok (liftM_ok henter r), bind_ok (set_eq r r')]
  rcases h with h | ⟨hstops, h⟩
  · rw [bind_ok h, bind_ok (get_eq r'), bind_ok (liftM_ok hleave r'), bind_ok (set_eq r' r)]
    exact .inl rfl
  · exact .inr ⟨hstops, bind_error h⟩

theorem inside_of_error {enter leave : Renderer → Except Overflow Renderer}
    {text : Rendering String} {s : String} (henter : enter r = .error .add) (hstops : stops) :
    Gives stops r (Renderer.inside enter leave text) s := by
  refine .inr ⟨hstops, ?_⟩
  rw [Renderer.inside, bind_ok (get_eq r), bind_error (liftM_error henter r)]

theorem leveled {text : Rendering String} {s : Option Nat → String}
    (h : r.left ≠ 0 → Gives stops r.deeper text (s (some r.deeper.left))) :
    Gives stops r (leveled a text) (limited (some r.left) s) := by
  by_cases hleft : r.left = 0
  · refine .inl ?_
    rw [Renderer.leveled, bind_ok (get_eq r), if_pos (left_eq_zero_iff.mp hleft), hleft]
    rfl
  · unfold Gives
    rw [Renderer.leveled, bind_ok (get_eq r), if_neg (mt left_eq_zero_iff.mpr hleft),
      left_deeper hleft]
    exact inside (enterLevel_eq hleft) (h hleft) (leaveLevel_deeper hleft)

theorem inBlock {text : Rendering String} {s : String} (hleft : r.left ≠ 0)
    (h : Gives (Crowded a r.deeper.inBlock) r.deeper.inBlock text s) :
    Gives (Crowded a r) r.deeper (Renderer.inside (enterBlock a) (leaveBlock a) text) s := by
  by_cases hfull : a = .checked ∧ r.blockDepth + 1 = 0
  · obtain ⟨ha, hfull⟩ := hfull
    exact inside_of_error (enterBlock_of_full ha hfull) (crowded_of_full hleft ha hfull)
  · have hne : a = .checked → r.deeper.blockDepth + 1 ≠ 0 := fun ha hzero => hfull ⟨ha, hzero⟩
    exact inside (enterBlock_eq hne) (h.mono fun hcrowded =>
      hcrowded.of_inBlock hleft (hne hcrowded.1)) (leaveBlock_inBlock hne)

end Gives

mutual

/-- A renderer gives the text of the levels that are left, with its counters back behind it, or
stops if it is crowded. -/
theorem render_gives : ∀ (r : Renderer) (t : SwiftType),
    Gives (Crowded a r) r (render a t) (renderWithin (some r.left) r.blockDepth t)
  | r, .nominal (.plain n) => by
    rw [render, renderWithin]
    exact .leveled fun _ => .pure n
  | r, .nominal (.generic n ts) => by
    rw [render, renderWithin]
    refine .leveled fun hleft => ?_
    cases isErased n ts.length with
    | true => exact .pure n
    | false => exact ((renderAll_gives r.deeper ts).mono (.of_deeper hleft)).bind (.pure _)
  | r, .nested x y rest => by
    rw [render, renderWithin]
    refine .leveled fun hleft => Gives.mono ?_ (.of_deeper hleft)
    exact (renderNominal_gives r.deeper x).bind ((renderNominal_gives r.deeper y).bind
      ((renderNominals_gives r.deeper rest).bind (.pure _)))
  | r, .optional t | r, .implicitlyUnwrapped t | r, .metatype t => by
    rw [render, renderWithin]
    refine .leveled fun hleft => Gives.mono ?_ (.of_deeper hleft)
    exact (render_gives r.deeper t).bind (.pure _)
  | r, .unspecified t => by
    rw [render, renderWithin]
    refine .leveled fun hleft => Gives.mono ?_ (.of_deeper hleft)
    exact (render_gives r.deeper t).bind (.bind (.inl (get_eq _)) (.pure _))
  | r, .void => by
    rw [render, renderWithin]
    exact .leveled fun _ => .pure "Void"
  | r, .tuple ts => by
    rw [render, renderWithin]
    refine .leveled fun hleft => Gives.mono ?_ (.of_deeper hleft)
    exact (renderAll_gives r.deeper ts).bind (.pure _)
  | r, .block result ps as => by
    rw [render, renderWithin]
    refine .leveled fun hleft => .inBlock hleft ?_
    exact (renderAll_gives r.deeper.inBlock ps).bind
      ((render_gives r.deeper.inBlock result).bind (.pure _))
  | r, .composition cs => by
    rw [render, renderWithin]
    refine .leveled fun hleft => Gives.mono ?_ (.of_deeper hleft)
    exact (renderComponents_gives r.deeper cs).bind (.pure _)

theorem renderAll_gives : ∀ (r : Renderer) (ts : List SwiftType), Gives (Crowded a r) r
    (renderAll a ts) (SwiftType.renderAll (some r.left) r.blockDepth ts)
  | r, [] => .pure []
  | r, t :: ts => by
    rw [renderAll, SwiftType.renderAll]
    exact (render_gives r t).bind ((renderAll_gives r ts).bind (.pure _))

theorem renderNominal_gives : ∀ (r : Renderer) (n : Nominal), Gives (Crowded a r) r
    (renderNominal a n) (SwiftType.renderNominal (some r.left) r.blockDepth n)
  | r, .plain n => .pure n
  | r, .generic n ts => by
    rw [renderNominal, SwiftType.renderNominal]
    cases isErased n ts.length with
    | true => exact .pure n
    | false => exact (renderAll_gives r ts).bind (.pure _)

theorem renderNominals_gives : ∀ (r : Renderer) (ns : List Nominal), Gives (Crowded a r) r
    (renderNominals a ns) (SwiftType.renderNominals (some r.left) r.blockDepth ns)
  | r, [] => .pure []
  | r, n :: ns => by
    rw [renderNominals, SwiftType.renderNominals]
    exact (renderNominal_gives r n).bind ((renderNominals_gives r ns).bind (.pure _))

theorem renderComponent_gives : ∀ (r : Renderer) (c : Component), Gives (Crowded a r) r
    (renderComponent a c) (SwiftType.renderComponent (some r.left) r.blockDepth c)
  | r, .nominal t => renderNominal_gives r t
  | r, .nested x y rest => by
    rw [renderComponent, SwiftType.renderComponent]
    exact (renderNominal_gives r x).bind ((renderNominal_gives r y).bind
      ((renderNominals_gives r rest).bind (.pure _)))

theorem renderComponents_gives : ∀ (r : Renderer) (cs : List Component), Gives (Crowded a r) r
    (renderComponents a cs) (SwiftType.renderComponents (some r.left) r.blockDepth cs)
  | r, [] => .pure []
  | r, c :: cs => by
    rw [renderComponents, SwiftType.renderComponents]
    exact (renderComponent_gives r c).bind ((renderComponents_gives r cs).bind (.pure _))

end

end Renderer

theorem SwiftType.render_eq (t : SwiftType) : t.render = t.renderWithin (some maxLevels) 0 := by
  have hroom : ¬ Renderer.Crowded .checked {} := fun h => absurd h.2 (by decide)
  have hrun := (Renderer.render_gives {} t).resolve_right fun hstop => hroom hstop.1
  rw [render, hrun]
  rfl

end HeaderBridge
