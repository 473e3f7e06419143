import HeaderBridge.Proofs.SwiftType.Levels
import HeaderBridge.Proofs.SwiftType.Texts
import HeaderBridge.Proofs.Text.Plain
import Mathlib.Data.List.Basic
import Mathlib.Order.MinMax

/-! # Where texts are cut off

Rendering shows a limited number of levels. A type with no more levels reads as it
would without a limit, and the mark for what is not shown stands in the text of every
type with more. No other text has the mark in it, unless a name brings it along: the
angle brackets around an argument can make a mark of a name that is none.
-/

namespace HeaderBridge.SwiftType

/-! ### Marks in texts -/

/-- A text has the mark for levels that are not shown. -/
def Marked (s : List Char) : Prop := truncationMarker.toList <:+: s

namespace Marked

variable {u v : List Char}

theorem mono (h : Marked u) (huv : u <:+: v) : Marked v := List.IsInfix.trans h huv

theorem mem (h : Marked u) {c : Char} (hc : c ∈ truncationMarker.toList) : c ∈ u :=
  h.subset hc

/-- A mark does not reach across a character that it does not have. -/
theorem split {c : Char} (hc : c ∉ truncationMarker.toList) (h : Marked (u ++ c :: v)) :
    Marked u ∨ Marked v :=
  Text.infix_append_cons hc h

theorem split_opening (h : Marked (u ++ '<' :: v)) : Marked u ∨ Marked ('<' :: v) := by
  rcases Text.infix_append_cases h with h | h | ⟨a, b, hmark, ha, hb, -, hbv⟩
  · exact .inl h
  · exact .inr h
  · obtain ⟨d, a, rfl⟩ := List.exists_cons_of_ne_nil ha
    obtain ⟨e, b, rfl⟩ := List.exists_cons_of_ne_nil hb
    obtain ⟨rfl, -⟩ := List.cons_prefix_cons.mp hbv
    have htail : truncationMarker.toList.tail = a ++ '<' :: b := by rw [hmark]; rfl
    have hmem : '<' ∈ truncationMarker.toList.tail := by rw [htail]; simp
    exact absurd hmem (by decide)

theorem split_closing (h : Marked (u ++ ['>'] ++ v)) : Marked (u ++ ['>']) ∨ Marked v := by
  rcases Text.infix_append_cases h with h | h | ⟨a, b, hmark, ha, hb, hau, -⟩
  · exact .inl h
  · exact .inr h
  · have hlast : a.getLast ha = '>' := by
      obtain ⟨t, ht⟩ := hau
      have hlast := congrArg List.getLast? ht
      rw [List.getLast?_concat, List.getLast?_append, List.getLast?_eq_some_getLast ha] at hlast
      exact Option.some.inj hlast
    have hmem : '>' ∈ truncationMarker.toList.dropLast := by
      rw [hmark, List.dropLast_append_of_ne_nil hb]
      exact List.mem_append_left _ (hlast ▸ List.getLast_mem ha)
    exact absurd hmem (by decide)

end Marked

/-- A text that has no mark, and of which angle brackets around it make none. -/
def Unmarkable (s : List Char) : Prop := ¬ Marked ('<' :: (s ++ ['>']))

namespace Unmarkable

variable {s : List Char} (h : Unmarkable s)
include h

theorem not_marked : ¬ Marked s := fun hs => h (hs.mono ⟨['<'], ['>'], rfl⟩)

theorem not_marked_opened : ¬ Marked ('<' :: s) := fun hs => h (hs.mono ⟨[], ['>'], by simp⟩)

theorem not_marked_closed : ¬ Marked (s ++ ['>']) := fun hs => h (hs.mono ⟨['<'], [], by simp⟩)

theorem enclosed {a b : Char} (ha : a ∉ truncationMarker.toList)
    (hb : b ∉ truncationMarker.toList) : Unmarkable (a :: (s ++ [b])) := by
  intro hm
  have hm : Marked (['<'] ++ a :: (s ++ b :: ['>'])) := by simpa using hm
  rcases hm.split ha with hm | hm
  · exact absurd (hm.mem (c := '#') (by decide)) (by decide)
  · rcases hm.split hb with hm | hm
    · exact h.not_marked hm
    · exact absurd (hm.mem (c := '#') (by decide)) (by decide)

end Unmarkable

/-- Texts without a mark are put together to texts without a mark. -/
theorem composes_unmarkable : Composes true Unmarkable where
  word := by
    have hall : ∀ w ∈ ownWords, '#' ∉ '<' :: (w.toList ++ ['>']) := by decide
    exact fun w hw h => hall w hw (h.mem (by decide))
  join {c u v} hc _ hu hv := by
    have hall : ∀ c ∈ separators, c ∉ truncationMarker.toList := by decide
    intro h
    have h : Marked (('<' :: u) ++ c :: (v ++ ['>'])) := by simpa using h
    rcases h.split (hall c hc) with h | h
    · exact hu.not_marked_opened h
    · exact hv.not_marked_closed h
  round hu := hu.enclosed (by decide) (by decide)
  square hu := hu.enclosed (by decide) (by decide)
  angle {u v} hu hv := by
    intro h
    have h : Marked (('<' :: u) ++ '<' :: (v ++ ['>'] ++ ['>'])) := by simpa using h
    rcases h.split_opening with h | h
    · exact hu.not_marked_opened h
    · rcases Marked.split_closing (u := '<' :: v) h with h | h
      · exact hv h
      · exact absurd (h.mem (c := '#') (by decide)) (by decide)

/-! ### Parts of texts -/

theorem infix_intercalate (separator : String) {s : String} {ss : List String} (hs : s ∈ ss) :
    s.toList <:+: (separator.intercalate ss).toList := by
  rw [String.toList_intercalate]
  induction ss with
  | nil => cases hs
  | cons t ss ih =>
    cases ss with
    | nil =>
      obtain rfl := List.mem_singleton.mp hs
      simp
    | cons u ss =>
      rw [List.map_cons, List.map_cons, List.intercalate_cons_cons, ← List.map_cons]
      rcases List.mem_cons.mp hs with rfl | hs
      · exact ⟨[], _, by rw [List.nil_append, ← List.append_assoc]⟩
      · exact (ih hs).trans (List.infix_append_right ..)

theorem infix_parenthesized (wrap : Bool) (s : String) :
    s.toList <:+: (parenthesized wrap s).toList := by
  cases wrap with
  | false => exact List.infix_rfl
  | true => exact ⟨['('], [')'], by simp [parenthesized]⟩

theorem infix_tupleText {s : String} {ss : List String} (hs : s ∈ ss) :
    s.toList <:+: (tupleText ss).toList :=
  (infix_intercalate ", " hs).trans ⟨['('], [')'], by simp [tupleText]⟩

theorem infix_genericText (name : String) {s : String} {ss : List String} (hs : s ∈ ss) :
    s.toList <:+: (genericText name ss).toList :=
  (infix_intercalate ", " hs).trans ⟨name.toList ++ ['<'], ['>'], by simp [genericText]⟩

theorem infix_collectionText (name : String) {s : String} {ss : List String} (hs : s ∈ ss) :
    s.toList <:+: (collectionText name ss).toList := by
  have hgeneric := infix_genericText name hs
  unfold collectionText
  split
  · split
    · obtain rfl := List.mem_singleton.mp hs
      exact ⟨['['], [']'], by simp⟩
    · exact hgeneric
  · next a b =>
    split
    · rcases List.mem_cons.mp hs with rfl | hs
      · exact ⟨['['], ": ".toList ++ b.toList ++ [']'], by simp⟩
      · obtain rfl := List.mem_singleton.mp hs
        exact ⟨['['] ++ a.toList ++ ": ".toList, [']'], by simp⟩
    · exact hgeneric
  · exact hgeneric

theorem infix_blockText_result (attributes : BlockAttributes) (ss : List String) (result : String) :
    result.toList <:+: (blockText attributes ss result).toList := by
  rw [blockText, String.toList_append]
  exact List.infix_append_right ..

theorem infix_blockText_parameter (attributes : BlockAttributes) {s : String} {ss : List String}
    (hs : s ∈ ss) (result : String) : s.toList <:+: (blockText attributes ss result).toList := by
  rw [blockText, String.append_assoc, String.append_assoc, String.toList_append,
    String.toList_append, ← List.append_assoc]
  exact (infix_tupleText hs).trans ⟨_, _, rfl⟩

/-! ### Types with more levels -/

theorem marked_limited {left levels : Nat} {text : Option Nat → String}
    (hlevels : left < levels + 1) (htext : ∀ k < levels, Marked (text (some k)).toList) :
    Marked (limited (some left) text).toList := by
  cases left with
  | zero => exact List.infix_rfl
  | succ k => exact htext k (Nat.lt_of_succ_lt_succ hlevels)

theorem lt_levels_generic {left : Nat} {n : String} {ts : List SwiftType}
    (h : left < (Nominal.generic n ts).levels) :
    isErased n ts.length = false ∧ left < levelsAll ts := by
  rw [Nominal.levels] at h
  cases herased : isErased n ts.length with
  | true => simp [herased] at h
  | false => exact ⟨rfl, by simpa [herased] using h⟩

theorem marked_chain {a b : String} {ss : List String}
    (h : Marked a.toList ∨ Marked b.toList ∨ ∃ s ∈ ss, Marked s.toList) :
    Marked (".".intercalate (a :: b :: ss)).toList := by
  rcases h with h | h | ⟨s, hs, h⟩
  · exact h.mono (infix_intercalate _ List.mem_cons_self)
  · exact h.mono (infix_intercalate _ (List.mem_cons_of_mem _ List.mem_cons_self))
  · exact h.mono (infix_intercalate _ (List.mem_cons_of_mem _ (List.mem_cons_of_mem _ hs)))

mutual

/-- The text of a type with more levels than are shown has a mark. -/
theorem marked_renderWithin (left : Nat) (depth : UInt64) : ∀ t : SwiftType, left < t.levels →
    Marked (renderWithin (some left) depth t).toList
  | nominal (.plain n), hl => by
    rw [renderWithin]
    exact marked_limited hl fun k hk => absurd hk (Nat.not_lt_zero k)
  | nominal (.generic n ts), hl => by
    rw [renderWithin]
    refine marked_limited hl fun k hk => ?_
    obtain ⟨herased, hk⟩ := lt_levels_generic hk
    obtain ⟨s, hs, hmarked⟩ := marked_renderAll k depth ts hk
    rw [herased]
    exact hmarked.mono (infix_collectionText n hs)
  | nested a b rest, hl => by
    rw [renderWithin]
    refine marked_limited hl fun k hk => marked_chain ?_
    rw [lt_max_iff, lt_max_iff] at hk
    exact hk.imp (marked_renderNominal k depth a)
      (.imp (marked_renderNominal k depth b) (marked_renderNominals k depth rest))
  | optional t, hl | implicitlyUnwrapped t, hl | unspecified t, hl | metatype t, hl => by
    rw [renderWithin]
    refine marked_limited hl fun k hk => ?_
    rw [String.toList_append]
    exact ((marked_renderWithin k depth t hk).mono (infix_parenthesized ..)).mono
      (List.infix_append_left ..)
  | void, hl => by
    rw [renderWithin]
    exact marked_limited hl fun k hk => absurd hk (Nat.not_lt_zero k)
  | tuple ts, hl => by
    rw [renderWithin]
    refine marked_limited hl fun k hk => ?_
    obtain ⟨s, hs, hmarked⟩ := marked_renderAll k depth ts hk
    exact hmarked.mono (infix_tupleText hs)
  | block r ps as, hl => by
    rw [renderWithin]
    refine marked_limited hl fun k hk => ?_
    rcases lt_max_iff.mp hk with hk | hk
    · exact (marked_renderWithin k (depth + 1) r hk).mono (infix_blockText_result ..)
    · obtain ⟨s, hs, hmarked⟩ := marked_renderAll k (depth + 1) ps hk
      exact hmarked.mono (infix_blockText_parameter _ hs _)
  | composition cs, hl => by
    rw [renderWithin]
    refine marked_limited hl fun k hk => ?_
    obtain ⟨s, hs, hmarked⟩ := marked_renderComponents k depth cs hk
    exact hmarked.mono (infix_intercalate _ hs)

theorem marked_renderAll (left : Nat) (depth : UInt64) : ∀ ts : List SwiftType,
    left < levelsAll ts → ∃ s ∈ renderAll (some left) depth ts, Marked s.toList
  | [], hl => absurd hl (Nat.not_lt_zero left)
  | t :: ts, hl => by
    rw [renderAll, List.exists_mem_cons_iff]
    rw [levelsAll, lt_max_iff] at hl
    exact hl.imp (marked_renderWithin left depth t) (marked_renderAll left depth ts)

theorem marked_renderNominal (left : Nat) (depth : UInt64) : ∀ n : Nominal, left < n.levels →
    Marked (renderNominal (some left) depth n).toList
  | .plain n, hl => absurd hl (Nat.not_lt_zero left)
  | .generic n ts, hl => by
    obtain ⟨herased, hl⟩ := lt_levels_generic hl
    obtain ⟨s, hs, hmarked⟩ := marked_renderAll left depth ts hl
    rw [renderNominal, herased]
    exact hmarked.mono (infix_genericText n hs)

theorem marked_renderNominals (left : Nat) (depth : UInt64) : ∀ ns : List Nominal,
    left < Nominal.levelsAll ns → ∃ s ∈ renderNominals (some left) depth ns, Marked s.toList
  | [], hl => absurd hl (Nat.not_lt_zero left)
  | n :: ns, hl => by
    rw [renderNominals, List.exists_mem_cons_iff]
    rw [Nominal.levelsAll, lt_max_iff] at hl
    exact hl.imp (marked_renderNominal left depth n) (marked_renderNominals left depth ns)

theorem marked_renderComponent (left : Nat) (depth : UInt64) : ∀ c : Component, left < c.levels →
    Marked (renderComponent (some left) depth c).toList
  | .nominal t, hl => marked_renderNominal left depth t hl
  | .nested a b rest, hl => by
    rw [Component.levels, lt_max_iff, lt_max_iff] at hl
    exact marked_chain (hl.imp (marked_renderNominal left depth a)
      (.imp (marked_renderNominal left depth b) (marked_renderNominals left depth rest)))

theorem marked_renderComponents (left : Nat) (depth : UInt64) : ∀ cs : List Component,
    left < Component.levelsAll cs → ∃ s ∈ renderComponents (some left) depth cs, Marked s.toList
  | [], hl => absurd hl (Nat.not_lt_zero left)
  | c :: cs, hl => by
    rw [renderComponents, List.exists_mem_cons_iff]
    rw [Component.levelsAll, lt_max_iff] at hl
    exact hl.imp (marked_renderComponent left depth c) (marked_renderComponents left depth cs)

end

/-! ### The limit -/

/-- A type of at most 64 levels reads as without a limit. If its names have no mark in them, also
not one that angle brackets around them complete, then the text of a type has the mark for what is
not shown exactly if it has more levels. -/
theorem render_transparent (t : SwiftType) :
    (t.levels ≤ 64 → t.render = t.renderFully 0) ∧
      ((∀ n ∈ t.names, Unmarkable n.toList) → (Marked t.render.toList ↔ 64 < t.levels)) := by
  refine ⟨render_eq_renderFully, fun hnames => ⟨fun hmarked => ?_, fun hlevels => ?_⟩⟩
  · by_contra hlevels
    have hproper : t.isProper (· ∈ t.names) true = true := isProper_of_names t (by simp)
    have hfull := composes_unmarkable.renderWithin (fun n hn => hnames n (by simpa using hn))
      none 0 (fun hsome => absurd rfl hsome) t hproper
    rw [render_eq_renderFully (Nat.le_of_not_lt hlevels)] at hmarked
    exact hfull.not_marked hmarked
  · rw [render_eq]
    exact marked_renderWithin maxLevels 0 t hlevels

/-- A type with 64 levels is shown to its name, and one with 65 is cut off there. -/
theorem render_transparent_optional :
    (Nat.repeat optional 63 (nominal (.plain "Int"))).render =
        (Nat.repeat optional 63 (nominal (.plain "Int"))).renderFully 0 ∧
      Marked (Nat.repeat optional 64 (nominal (.plain "Int"))).render.toList := by
  have hname : Unmarkable "Int".toList := fun h => absurd (h.mem (c := '#') (by decide)) (by decide)
  have hnames (k : Nat) : ∀ n ∈ (Nat.repeat optional k (nominal (.plain "Int"))).names,
      Unmarkable n.toList := by
    induction k with
    | zero => simpa [Nat.repeat, names, Nominal.names] using hname
    | succ k ih => exact ih
  exact ⟨(render_transparent _).1 (by decide),
    ((render_transparent _).2 (hnames 64)).mpr (by decide)⟩

/-- It is not enough that no name has the mark in it: the brackets around the argument of a generic
type can complete one. -/
theorem not_render_transparent :
    ¬ ∀ t : SwiftType, (∀ n ∈ t.names, ¬ Marked n.toList) →
      (t.levels ≤ 64 → t.render = t.renderFully 0) ∧ (Marked t.render.toList ↔ 64 < t.levels) := by
  intro h
  have hmarked : Marked (nominal (.generic "X" [nominal (.plain "#truncated#")])).render.toList :=
    ⟨['X'], [], by decide⟩
  have hlevels := (h (nominal (.generic "X" [nominal (.plain "#truncated#")])) ?_).2.mp hmarked
  · exact absurd hlevels (by decide)
  · simp only [names, Nominal.names, namesAll, List.append_nil, List.forall_mem_cons]
    exact ⟨fun h => absurd (h.mem (c := '#') (by decide)) (by decide),
      fun h => absurd (h.mem (c := '<') (by decide)) (by decide), by simp⟩

end HeaderBridge.SwiftType
