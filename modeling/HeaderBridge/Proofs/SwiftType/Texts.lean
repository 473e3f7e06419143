import HeaderBridge.Proofs.SwiftType.Rendering

/-! # How the texts of types are put together

The text of a type is made of the names in the type and of a few words of its own,
put together by separators and brackets. A property of texts that these keep holds
of every text, if it holds of the names.
-/

namespace HeaderBridge

/-! ### Names -/

mutual

def Nominal.names : Nominal → List String
  | .plain n => [n]
  | .generic n ts => n :: SwiftType.namesAll ts

def Nominal.namesAll : List Nominal → List String
  | [] => []
  | n :: ns => n.names ++ Nominal.namesAll ns

def Component.names : Component → List String
  | .nominal t => t.names
  | .nested a b rest => a.names ++ b.names ++ Nominal.namesAll rest

def Component.namesAll : List Component → List String
  | [] => []
  | c :: cs => c.names ++ Component.namesAll cs

/-- The names in a type, also those that its text leaves out. -/
def SwiftType.names : SwiftType → List String
  | .nominal t => t.names
  | .nested a b rest => a.names ++ b.names ++ Nominal.namesAll rest
  | .optional t | .implicitlyUnwrapped t | .unspecified t | .metatype t => t.names
  | .void => []
  | .tuple ts => SwiftType.namesAll ts
  | .block r ps _ => r.names ++ SwiftType.namesAll ps
  | .composition cs => Component.namesAll cs

def SwiftType.namesAll : List SwiftType → List String
  | [] => []
  | t :: ts => t.names ++ SwiftType.namesAll ts

end

/-! ### Proper types -/

mutual

def Nominal.isProper (name : String → Bool) (unwraps : Bool) : Nominal → Bool
  | .plain n => name n
  | .generic n ts => name n && SwiftType.allProper name unwraps ts

def Nominal.allProper (name : String → Bool) (unwraps : Bool) : List Nominal → Bool
  | [] => true
  | n :: ns => n.isProper name unwraps && Nominal.allProper name unwraps ns

def Component.isProper (name : String → Bool) (unwraps : Bool) : Component → Bool
  | .nominal t => t.isProper name unwraps
  | .nested a b rest =>
    a.isProper name unwraps && b.isProper name unwraps && Nominal.allProper name unwraps rest

def Component.allProper (name : String → Bool) (unwraps : Bool) : List Component → Bool
  | [] => true
  | c :: cs => c.isProper name unwraps && Component.allProper name unwraps cs

/-- Whether the names in a type are as they should be and nothing in it is unwrapped implicitly or
of open nullability, unless that is allowed. -/
def SwiftType.isProper (name : String → Bool) (unwraps : Bool) : SwiftType → Bool
  | .nominal t => t.isProper name unwraps
  | .nested a b rest =>
    a.isProper name unwraps && b.isProper name unwraps && Nominal.allProper name unwraps rest
  | .optional t | .metatype t => t.isProper name unwraps
  | .implicitlyUnwrapped t | .unspecified t => unwraps && t.isProper name unwraps
  | .void => true
  | .tuple ts => SwiftType.allProper name unwraps ts
  | .block r ps _ => r.isProper name unwraps && SwiftType.allProper name unwraps ps
  | .composition cs => Component.allProper name unwraps cs

def SwiftType.allProper (name : String → Bool) (unwraps : Bool) : List SwiftType → Bool
  | [] => true
  | t :: ts => t.isProper name unwraps && SwiftType.allProper name unwraps ts

end

section Names

variable {name : String → Bool}

mutual

theorem Nominal.isProper_of_names : ∀ t : Nominal, (∀ n ∈ t.names, name n = true) →
    t.isProper name true = true
  | .plain n, h => h n (by simp [Nominal.names])
  | .generic n ts, h => by
    rw [Nominal.names, List.forall_mem_cons] at h
    rw [Nominal.isProper, h.1, SwiftType.allProper_of_names ts h.2]
    rfl

theorem Nominal.allProper_of_names : ∀ ts : List Nominal,
    (∀ n ∈ Nominal.namesAll ts, name n = true) →
    Nominal.allProper name true ts = true
  | [], _ => rfl
  | t :: ts, h => by
    rw [Nominal.namesAll, List.forall_mem_append] at h
    rw [Nominal.allProper, t.isProper_of_names h.1, Nominal.allProper_of_names ts h.2]
    rfl

theorem Component.isProper_of_names : ∀ c : Component, (∀ n ∈ c.names, name n = true) →
    c.isProper name true = true
  | .nominal t, h => t.isProper_of_names h
  | .nested a b rest, h => by
    rw [Component.names, List.forall_mem_append, List.forall_mem_append] at h
    rw [Component.isProper, a.isProper_of_names h.1.1, b.isProper_of_names h.1.2,
      Nominal.allProper_of_names rest h.2]
    rfl

theorem Component.allProper_of_names : ∀ cs : List Component,
    (∀ n ∈ Component.namesAll cs, name n = true) → Component.allProper name true cs = true
  | [], _ => rfl
  | c :: cs, h => by
    rw [Component.namesAll, List.forall_mem_append] at h
    rw [Component.allProper, c.isProper_of_names h.1, Component.allProper_of_names cs h.2]
    rfl

theorem SwiftType.isProper_of_names : ∀ t : SwiftType, (∀ n ∈ t.names, name n = true) →
    t.isProper name true = true
  | .nominal t, h => t.isProper_of_names h
  | .nested a b rest, h => by
    rw [SwiftType.names, List.forall_mem_append, List.forall_mem_append] at h
    rw [SwiftType.isProper, a.isProper_of_names h.1.1, b.isProper_of_names h.1.2,
      Nominal.allProper_of_names rest h.2]
    rfl
  | .optional t, h | .metatype t, h | .implicitlyUnwrapped t, h | .unspecified t, h =>
    t.isProper_of_names h
  | .void, _ => rfl
  | .tuple ts, h => SwiftType.allProper_of_names ts h
  | .block r ps _, h => by
    rw [SwiftType.names, List.forall_mem_append] at h
    rw [SwiftType.isProper, r.isProper_of_names h.1, SwiftType.allProper_of_names ps h.2]
    rfl
  | .composition cs, h => Component.allProper_of_names cs h

theorem SwiftType.allProper_of_names : ∀ ts : List SwiftType,
    (∀ n ∈ SwiftType.namesAll ts, name n = true) → SwiftType.allProper name true ts = true
  | [], _ => rfl
  | t :: ts, h => by
    rw [SwiftType.namesAll, List.forall_mem_append] at h
    rw [SwiftType.allProper, t.isProper_of_names h.1, SwiftType.allProper_of_names ts h.2]
    rfl

end

end Names

namespace SwiftType

/-! ### Texts -/

def ownWords : List String :=
  ["", "Void", "Type", ">"] ++ BlockAttribute.all.map BlockAttribute.text

def separators : List Char := [' ', ',', '.', ':', '?', '!', '&', '-']

/-- A property that is kept where texts are put together; exclamation marks need not keep it where
nothing is unwrapped implicitly. -/
structure Composes (unwraps : Bool) (P : List Char → Prop) : Prop where
  word : ∀ w ∈ ownWords, P w.toList
  join {c : Char} {u v : List Char} : c ∈ separators → (c = '!' → unwraps = true) → P u → P v →
    P (u ++ c :: v)
  round {u : List Char} : P u → P ('(' :: (u ++ [')']))
  square {u : List Char} : P u → P ('[' :: (u ++ [']']))
  angle {u v : List Char} : P u → P v → P (u ++ '<' :: (v ++ ['>']))

namespace Composes

variable {unwraps : Bool} {P : List Char → Prop} (h : Composes unwraps P)
include h

theorem nil : P [] := h.word "" (by decide)

theorem joins {cs u v : List Char} (hne : cs ≠ []) (hcs : ∀ c ∈ cs, c ∈ separators ∧ c ≠ '!')
    (hu : P u) (hv : P v) : P (u ++ cs ++ v) := by
  induction cs generalizing u with
  | nil => exact absurd rfl hne
  | cons c cs ih =>
    rw [List.append_assoc, List.cons_append]
    obtain ⟨hc, hmark⟩ := hcs c List.mem_cons_self
    refine h.join hc (fun hc => absurd hc hmark) hu ?_
    by_cases hcs' : cs = []
    · rwa [hcs']
    · simpa using ih hcs' (fun d hd => hcs d (List.mem_cons_of_mem _ hd)) h.nil

theorem intercalate {separator : String} (hne : separator.toList ≠ [])
    (hseparator : ∀ c ∈ separator.toList, c ∈ separators ∧ c ≠ '!') {ss : List String}
    (hss : ∀ s ∈ ss, P s.toList) : P (separator.intercalate ss).toList := by
  rw [String.toList_intercalate]
  induction ss with
  | nil => exact h.nil
  | cons s ss ih =>
    have hs := hss s List.mem_cons_self
    have hrest := ih fun t ht => hss t (List.mem_cons_of_mem _ ht)
    cases ss with
    | nil => simpa using hs
    | cons t ss =>
      rw [List.map_cons, List.map_cons, List.intercalate_cons_cons, ← List.map_cons]
      exact h.joins hne hseparator hs hrest

theorem list {ss : List String} (hss : ∀ s ∈ ss, P s.toList) : P (", ".intercalate ss).toList :=
  h.intercalate (by decide) (by decide) hss

theorem chain {a b : String} {ss : List String} (ha : P a.toList) (hb : P b.toList)
    (hss : ∀ s ∈ ss, P s.toList) : P (".".intercalate (a :: b :: ss)).toList := by
  refine h.intercalate (by decide) (by decide) ?_
  rw [List.forall_mem_cons, List.forall_mem_cons]
  exact ⟨ha, hb, hss⟩

theorem tupleText {ss : List String} (hss : ∀ s ∈ ss, P s.toList) : P (tupleText ss).toList := by
  simpa [SwiftType.tupleText] using h.round (h.list hss)

theorem parenthesized (wrap : Bool) {s : String} (hs : P s.toList) :
    P (parenthesized wrap s).toList := by
  cases wrap with
  | false => exact hs
  | true => simpa [SwiftType.parenthesized] using h.round hs

theorem genericText {name : String} (hname : P name.toList) {ss : List String}
    (hss : ∀ s ∈ ss, P s.toList) : P (genericText name ss).toList := by
  simpa [SwiftType.genericText] using h.angle hname (h.list hss)

theorem collectionText {name : String} (hname : P name.toList) {ss : List String}
    (hss : ∀ s ∈ ss, P s.toList) : P (collectionText name ss).toList := by
  have hgeneric := h.genericText hname hss
  unfold SwiftType.collectionText
  split
  · split
    · simpa using h.square (hss _ List.mem_cons_self)
    · exact hgeneric
  · split
    · have hkey := hss _ List.mem_cons_self
      have hvalue := hss _ (List.mem_cons_of_mem _ List.mem_cons_self)
      have hpair := h.joins (show [':', ' '] ≠ [] by decide) (by decide) hkey hvalue
      simpa using h.square hpair
    · exact hgeneric
  · exact hgeneric

theorem attributeText (a : BlockAttribute) : P a.text.toList := by
  refine h.word _ (List.mem_append_right _ (List.mem_map_of_mem ?_))
  cases a with
  | convention kind => cases kind <;> decide
  | _ => decide

theorem blockText (attributes : BlockAttributes) {ss : List String} (hss : ∀ s ∈ ss, P s.toList)
    {result : String} (hresult : P result.toList) : P (blockText attributes ss result).toList := by
  -- the arrow ends in a bracket that opens nothing
  have hblank : [' '] ≠ [] ∧ ∀ c ∈ [' '], c ∈ separators ∧ c ≠ '!' := by decide
  have hend := h.joins hblank.1 hblank.2 (h.word ">" (by decide)) hresult
  have hrest := h.joins (show [' ', '-'] ≠ [] by decide) (by decide) (h.tupleText hss) hend
  rw [SwiftType.blockText, BlockAttributes.texts]
  induction BlockAttribute.alphabetical.filter attributes.contains with
  | nil => simpa using hrest
  | cons a as ih => simpa using h.joins hblank.1 hblank.2 (h.attributeText a) ih

end Composes

/-! ### Rendering -/

/-- A text has a property if what it shows one level deeper has it, and also what stands for the
levels that are not shown, if there is a limit. -/
theorem limited_of_mark {P : List Char → Prop} {left : Option Nat} {text : Option Nat → String}
    (hmark : left ≠ none → P truncationMarker.toList)
    (htext : ∀ k, (k ≠ none → P truncationMarker.toList) → P (text k).toList) :
    P (limited left text).toList := by
  match left with
  | none => exact htext none hmark
  | some 0 => exact hmark (by simp)
  | some (k + 1) => exact htext (some k) fun _ => hmark (by simp)

section Rendering

variable {name : String → Bool} {unwraps : Bool} {P : List Char → Prop}

mutual

/-- The text of a proper type has a property that texts keep, if the names have it, and also what
stands for the levels that are not shown, if there is a limit. -/
theorem Composes.renderWithin (h : Composes unwraps P) (hP : ∀ n, name n = true → P n.toList)
    (left : Option Nat) (depth : UInt64) (hmark : left ≠ none → P truncationMarker.toList) :
    ∀ t : SwiftType, t.isProper name unwraps = true → P (renderWithin left depth t).toList
  | nominal (.plain n), hn => by
    rw [SwiftType.renderWithin]
    exact limited_of_mark hmark fun _ _ => hP n hn
  | nominal (.generic n ts), hn => by
    rw [SwiftType.renderWithin]
    refine limited_of_mark hmark fun k hk => ?_
    simp only [isProper, Nominal.isProper, Bool.and_eq_true] at hn
    split
    · exact hP n hn.1
    · exact h.collectionText (hP n hn.1) (h.renderAll hP k depth hk ts hn.2)
  | nested a b rest, hn => by
    rw [SwiftType.renderWithin]
    refine limited_of_mark hmark fun k hk => ?_
    simp only [isProper, Bool.and_eq_true] at hn
    exact h.chain (h.renderNominal hP k depth hk a hn.1.1) (h.renderNominal hP k depth hk b hn.1.2)
      (h.renderNominals hP k depth hk rest hn.2)
  | optional t, hn => by
    rw [SwiftType.renderWithin]
    refine limited_of_mark hmark fun k hk => ?_
    rw [String.toList_append]
    exact h.join (by decide) (fun hc => absurd hc (by decide))
      (h.parenthesized t.needsParens (h.renderWithin hP k depth hk t hn)) h.nil
  | implicitlyUnwrapped t, hn => by
    rw [SwiftType.renderWithin]
    refine limited_of_mark hmark fun k hk => ?_
    simp only [isProper, Bool.and_eq_true] at hn
    rw [String.toList_append]
    exact h.join (by decide) (fun _ => hn.1)
      (h.parenthesized t.needsParens (h.renderWithin hP k depth hk t hn.2)) h.nil
  | unspecified t, hn => by
    rw [SwiftType.renderWithin]
    refine limited_of_mark hmark fun k hk => ?_
    simp only [isProper, Bool.and_eq_true] at hn
    have hwrapped := h.parenthesized t.needsParens (h.renderWithin hP k depth hk t hn.2)
    rw [String.toList_append]
    split <;> exact h.join (by decide) (fun _ => hn.1) hwrapped h.nil
  | metatype t, hn => by
    rw [SwiftType.renderWithin]
    refine limited_of_mark hmark fun k hk => ?_
    rw [String.toList_append]
    exact h.join (by decide) (fun hc => absurd hc (by decide))
      (h.parenthesized t.needsParens (h.renderWithin hP k depth hk t hn))
      (h.word "Type" (by decide))
  | void, _ => by
    rw [SwiftType.renderWithin]
    exact limited_of_mark hmark fun _ _ => h.word "Void" (by decide)
  | tuple ts, hn => by
    rw [SwiftType.renderWithin]
    exact limited_of_mark hmark fun k hk => h.tupleText (h.renderAll hP k depth hk ts hn)
  | block r ps as, hn => by
    rw [SwiftType.renderWithin]
    refine limited_of_mark hmark fun k hk => ?_
    simp only [isProper, Bool.and_eq_true] at hn
    exact h.blockText as (h.renderAll hP k (depth + 1) hk ps hn.2)
      (h.renderWithin hP k (depth + 1) hk r hn.1)
  | composition cs, hn => by
    rw [SwiftType.renderWithin]
    exact limited_of_mark hmark fun k hk => h.intercalate (by decide) (by decide)
      (h.renderComponents hP k depth hk cs hn)

theorem Composes.renderAll (h : Composes unwraps P) (hP : ∀ n, name n = true → P n.toList)
    (left : Option Nat) (depth : UInt64) (hmark : left ≠ none → P truncationMarker.toList) :
    ∀ ts : List SwiftType, allProper name unwraps ts = true →
      ∀ s ∈ renderAll left depth ts, P s.toList
  | [], _ => by simp [SwiftType.renderAll]
  | t :: ts, hn => by
    simp only [allProper, Bool.and_eq_true] at hn
    rw [SwiftType.renderAll, List.forall_mem_cons]
    exact ⟨h.renderWithin hP left depth hmark t hn.1, h.renderAll hP left depth hmark ts hn.2⟩

theorem Composes.renderNominal (h : Composes unwraps P) (hP : ∀ n, name n = true → P n.toList)
    (left : Option Nat) (depth : UInt64) (hmark : left ≠ none → P truncationMarker.toList) :
    ∀ n : Nominal, n.isProper name unwraps = true → P (renderNominal left depth n).toList
  | .plain n, hn => hP n hn
  | .generic n ts, hn => by
    simp only [Nominal.isProper, Bool.and_eq_true] at hn
    rw [SwiftType.renderNominal]
    split
    · exact hP n hn.1
    · exact h.genericText (hP n hn.1) (h.renderAll hP left depth hmark ts hn.2)

theorem Composes.renderNominals (h : Composes unwraps P) (hP : ∀ n, name n = true → P n.toList)
    (left : Option Nat) (depth : UInt64) (hmark : left ≠ none → P truncationMarker.toList) :
    ∀ ns : List Nominal, Nominal.allProper name unwraps ns = true →
      ∀ s ∈ renderNominals left depth ns, P s.toList
  | [], _ => by simp [SwiftType.renderNominals]
  | n :: ns, hn => by
    simp only [Nominal.allProper, Bool.and_eq_true] at hn
    rw [SwiftType.renderNominals, List.forall_mem_cons]
    exact ⟨h.renderNominal hP left depth hmark n hn.1, h.renderNominals hP left depth hmark ns hn.2⟩

theorem Composes.renderComponent (h : Composes unwraps P) (hP : ∀ n, name n = true → P n.toList)
    (left : Option Nat) (depth : UInt64) (hmark : left ≠ none → P truncationMarker.toList) :
    ∀ c : Component, c.isProper name unwraps = true → P (renderComponent left depth c).toList
  | .nominal t, hn => h.renderNominal hP left depth hmark t hn
  | .nested a b rest, hn => by
    simp only [Component.isProper, Bool.and_eq_true] at hn
    exact h.chain (h.renderNominal hP left depth hmark a hn.1.1)
      (h.renderNominal hP left depth hmark b hn.1.2)
      (h.renderNominals hP left depth hmark rest hn.2)

theorem Composes.renderComponents (h : Composes unwraps P) (hP : ∀ n, name n = true → P n.toList)
    (left : Option Nat) (depth : UInt64) (hmark : left ≠ none → P truncationMarker.toList) :
    ∀ cs : List Component, Component.allProper name unwraps cs = true →
      ∀ s ∈ renderComponents left depth cs, P s.toList
  | [], _ => by simp [SwiftType.renderComponents]
  | c :: cs, hn => by
    simp only [Component.allProper, Bool.and_eq_true] at hn
    rw [SwiftType.renderComponents, List.forall_mem_cons]
    exact ⟨h.renderComponent hP left depth hmark c hn.1,
      h.renderComponents hP left depth hmark cs hn.2⟩

end

end Rendering

end SwiftType

end HeaderBridge
