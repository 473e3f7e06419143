import HeaderBridge.Proofs.Lowering.Optionality
import HeaderBridge.Proofs.SwiftType.Texts
import HeaderBridge.Proofs.Text.Plain

/-! # Lowering to proper types

A declared type with plain names is lowered to a type with plain names. Where
references are not null unless said otherwise, and no word leaves the nullability of
a type open, nothing in the lowered type is unwrapped implicitly.
-/

namespace HeaderBridge

open Text

namespace Nullability

/-- Whether a reference is either null or not null for good, unless it may be unwrapped. -/
def isClosed (unwraps : Bool) : Nullability → Bool
  | nonnull | nullable => true
  | unspecified | resettable => unwraps

def openSpellings : List String :=
  ["null_unspecified", "_Null_unspecified", "__null_unspecified", "null_resettable"]

/-- Whether a word leaves no nullability open, unless that is allowed. -/
def settles (unwraps : Bool) (word : String) : Bool := unwraps || word ∉ openSpellings

variable {unwraps : Bool}

theorem isClosed_ofSpelling? {word : String} (h : settles unwraps word = true) :
    (ofSpelling? word).all (isClosed unwraps) = true := by
  cases unwraps with
  | true =>
    refine (Option.all_eq_true _ _).mpr fun n _ => ?_
    cases n <;> rfl
  | false =>
    have h : word ∉ openSpellings := by simpa [settles] using h
    unfold ofSpelling?
    split <;> first | rfl | exact absurd h (by decide)

theorem isClosed_findSome? {words : List String} (h : ∀ w ∈ words, settles unwraps w = true) :
    (words.findSome? ofSpelling?).all (isClosed unwraps) = true := by
  rw [Option.all_eq_true]
  intro n hn
  obtain ⟨w, hw, hspelling⟩ := List.exists_of_findSome?_eq_some hn
  simpa [hspelling] using isClosed_ofSpelling? (h w hw)

theorem isClosed_or {a b : Option Nullability} (ha : a.all (isClosed unwraps) = true)
    (hb : b.all (isClosed unwraps) = true) : (a.or b).all (isClosed unwraps) = true := by
  cases a with
  | none => exact hb
  | some n => exact ha

end Nullability

open Nullability (isClosed settles)

/-! ### Declared types -/

namespace DeclaredType

mutual

/-- Whether all names in a type are plain and no word in it leaves a nullability open, unless that
is allowed. -/
def isProper (unwraps : Bool) : DeclaredType → Bool
  | void => true
  | named n => isPlain n
  | object ps => ps.all isPlain
  | generic n ts => isPlain n && allProper unwraps ts
  | pointer t | specified _ t | array t _ => t.isProper unwraps
  | qualified t qs => t.isProper unwraps && qs.all (settles unwraps)
  | block _ r ps => r.isProper unwraps && allProper unwraps ps

def allProper (unwraps : Bool) : List DeclaredType → Bool
  | [] => true
  | t :: ts => t.isProper unwraps && allProper unwraps ts

end

variable {unwraps : Bool}

theorem allProper_iff {ts : List DeclaredType} :
    allProper unwraps ts = true ↔ ∀ t ∈ ts, t.isProper unwraps = true := by
  induction ts with
  | nil => simp [allProper]
  | cons t ts ih => simp [allProper, ih]

theorem isPlain_baseName {t : DeclaredType} (h : t.isProper unwraps = true) :
    t.baseName.all isPlain = true := by
  fun_induction baseName t with
  | case1 | case3 => decide
  | case2 n => exact h
  | case4 n ts =>
    simp only [isProper, Bool.and_eq_true] at h
    exact h.1
  | case5 t ih | case6 ss t ih | case8 t l ih => exact ih h
  | case7 t qs ih =>
    simp only [isProper, Bool.and_eq_true] at h
    exact ih h.1
  | case9 => rfl

theorem isPlain_baseNames {ts : List DeclaredType} (h : ∀ t ∈ ts, t.isProper unwraps = true) :
    ∀ p ∈ ts.filterMap baseName, isPlain p = true := by
  intro p hp
  obtain ⟨t, ht, hbase⟩ := List.mem_filterMap.mp hp
  simpa [hbase] using isPlain_baseName (h t ht)

theorem isClosed_nullability {t : DeclaredType} (h : t.isProper unwraps = true) :
    t.nullability.all (isClosed unwraps) = true := by
  refine Nullability.isClosed_findSome? ?_
  fun_induction outerQualifiers t with
  | case1 ss t ih => exact ih h
  | case2 t qs ih =>
    simp only [isProper, Bool.and_eq_true, List.all_eq_true] at h
    intro w hw
    rcases List.mem_append.mp hw with hw | hw
    · exact h.2 w hw
    · exact ih h.1 w hw
  | case3 => simp

end DeclaredType

namespace SwiftType

variable {name : String → Bool} {unwraps : Bool}

theorem allProper_iff {ts : List SwiftType} :
    allProper name unwraps ts = true ↔ ∀ t ∈ ts, t.isProper name unwraps = true := by
  induction ts with
  | nil => simp [allProper]
  | cons t ts ih => simp [allProper, ih]

theorem isProper_unwrapped {t : SwiftType} (h : t.isProper name unwraps = true) :
    t.unwrapped.isProper name unwraps = true := by
  cases t with
  | implicitlyUnwrapped t | unspecified t =>
    simp only [isProper, Bool.and_eq_true] at h
    exact h.2
  | _ => exact h

theorem isProper_addAttribute (a : BlockAttribute) {t : SwiftType}
    (h : t.isProper name unwraps = true) : (t.addAttribute a).isProper name unwraps = true := by
  cases t <;> exact h

theorem isProper_generic {n : String} {ts : List SwiftType} (hn : name n = true)
    (hts : allProper name unwraps ts = true) :
    (SwiftType.generic n ts).isProper name unwraps = true := by
  simp [SwiftType.generic, isProper, Nominal.isProper, hn, hts]

end SwiftType

namespace Lowering

variable {unwraps : Bool} {t : DeclaredType} {ts : List DeclaredType}

/-! ### Leaves -/

theorem isProper_applyNullability {t : SwiftType} {a : Bool} {n : Option Nullability}
    (ht : t.isProper isPlain unwraps = true) (hn : n.all (isClosed unwraps) = true)
    (h : (unwraps || a) = true ∨ n.isSome = true) :
    (applyNullability t a n).isProper isPlain unwraps = true := by
  cases n with
  | none =>
    have h := h.resolve_right (by simp)
    cases a with
    | true => exact ht
    | false =>
      rw [Bool.or_false] at h
      subst h
      exact ht
  | some n =>
    cases n with
    | nonnull | nullable => exact ht
    | unspecified | resettable =>
      have hn : unwraps = true := hn
      subst hn
      exact ht

theorem isPlain_protocolName {name : String} (h : isPlain name = true) :
    isPlain (protocolName name) = true := by
  rw [protocolName]
  split
  · decide
  · exact h

theorem allProper_protocols {ps : List String} (h : ∀ p ∈ ps, isPlain p = true) :
    Component.allProper isPlain unwraps (ps.map fun p => .nominal (.plain (protocolName p))) =
      true := by
  induction ps with
  | nil => rfl
  | cons p ps ih =>
    rw [List.map_cons, Component.allProper, ih fun q hq => h q (List.mem_cons_of_mem _ hq),
      Bool.and_true]
    exact isPlain_protocolName (h p List.mem_cons_self)

theorem isProper_protocolType {ps : List String} (h : ∀ p ∈ ps, isPlain p = true) :
    (protocolType ps).isProper isPlain unwraps = true := by
  unfold protocolType
  split
  · decide +revert
  · exact isPlain_protocolName (h _ List.mem_cons_self)
  · exact allProper_protocols h

/-- What holds for types where nothing is unwrapped implicitly unless that is allowed. -/
structure Setting.Proper (unwraps : Bool) (s : Setting) : Prop where
  audited : (unwraps || s.audited) = true
  instanceType : s.instanceType.all isPlain = true

variable {s : Setting} (hs : s.Proper unwraps)

include hs in
theorem isProper_namedType {name : String} (h : isPlain name = true) :
    (namedType s name).isProper isPlain unwraps = true := by
  have hscalars : ∀ x ∈ scalars, ∀ unwraps, x.2.isProper isPlain unwraps = true := by
    decide +kernel
  have hmembers : ∀ x ∈ memberTypes, isPlain x.2.1 = true ∧ isPlain x.2.2 = true := by
    decide +kernel
  have hnames : ∀ n ∈ ["Self", "Selector", "AnyClass"], isPlain n = true := by decide
  have hinstance : isPlain (s.instanceType.getD "Self") = true := by
    have hself := hs.instanceType
    cases hname : s.instanceType with
    | none => exact hnames _ (by simp)
    | some name => simpa [hname] using hself
  unfold namedType
  split
  · exact hinstance
  · split
    · exact hnames _ (by simp)
    · split
      · exact hnames _ (by simp)
      · split
        · exact hscalars _ (mem_of_lookup ‹_›) unwraps
        · obtain ⟨houter, hmember⟩ := hmembers _ (mem_of_lookup ‹_›)
          simp only [SwiftType.isProper, Nominal.isProper, Nominal.allProper, houter, hmember]
          rfl
        · exact h

theorem isPlain_className {name : String} (h : isPlain name = true) :
    isPlain (className name) = true := by
  have hbridged : ∀ x ∈ bridgedClasses, isPlain x.2 = true := by decide +kernel
  rw [className]
  cases hlookup : bridgedClasses.lookup name with
  | none => exact h
  | some name => exact hbridged _ (mem_of_lookup hlookup)

theorem isProper_objectWithProtocols (h : ∀ t ∈ ts, t.isProper unwraps = true) :
    (objectWithProtocols ts).isProper isPlain unwraps = true := by
  have hcomponents := @allProper_protocols unwraps _ (DeclaredType.isPlain_baseNames h)
  rw [List.map_filterMap] at hcomponents
  rw [objectWithProtocols, SwiftType.isProper, Component.allProper, hcomponents]
  exact show (isPlain "NSObject" && true) = true by decide

theorem isProper_objectType {name : String} {us : List SwiftType} (hname : isPlain name = true)
    (hts : ∀ t ∈ ts, t.isProper unwraps = true)
    (hus : SwiftType.allProper isPlain unwraps us = true) :
    (objectType name ts us).isProper isPlain unwraps = true := by
  have hprotocols := isProper_objectWithProtocols hts
  have hgeneric : ∀ n, isPlain n = true → (SwiftType.generic n us).isProper isPlain unwraps =
      true :=
    fun n hn => SwiftType.isProper_generic hn hus
  unfold objectType
  split
  · exact hname
  · split
    · exact isPlain_className hname
    · repeat' split
      all_goals first
        | exact hprotocols
        | exact hgeneric _ hname
        | exact hgeneric _ (by decide)
    · repeat' split
      all_goals first
        | exact hprotocols
        | exact hgeneric _ hname
        | exact hgeneric _ (by decide)
    · split
      · exact hprotocols
      · exact hgeneric _ hname

theorem isProper_arrayType {t : SwiftType} (h : t.isProper isPlain unwraps = true)
    (length : String) : (arrayType t length).isProper isPlain unwraps = true := by
  have hpointer : (SwiftType.generic "UnsafeMutablePointer" [t]).isProper isPlain unwraps = true :=
    SwiftType.isProper_generic (by decide) (by simpa [SwiftType.allProper] using h)
  unfold arrayType
  split
  · split
    · exact h
    · split
      · refine SwiftType.allProper_iff.mpr fun u hu => ?_
        rw [List.eq_of_mem_replicate hu]
        exact h
      · exact hpointer
  · exact hpointer

/-! ### References -/

include hs

theorem isProper_finish {n : Option Nullability} {c : SwiftType}
    (hn : n.all (isClosed unwraps) = true) (ht : t.isProper unwraps = true)
    (hc : c.isProper isPlain unwraps = true) :
    (finish s n t c).isProper isPlain unwraps = true := by
  rw [finish]
  split
  · exact isProper_applyNullability hc
      (Nullability.isClosed_or hn (DeclaredType.isClosed_nullability ht)) (.inl hs.audited)
  · exact hc

theorem isProper_pointerType {c : SwiftType} (ht : t.isProper unwraps = true)
    (hc : c.isProper isPlain unwraps = true) :
    (pointerType s t c).isProper isPlain unwraps = true := by
  have hnames : ∀ n ∈ ["UnsafePointer", "UnsafeMutablePointer", "UnsafeRawPointer",
      "UnsafeMutableRawPointer", "AutoreleasingUnsafeMutablePointer"], isPlain n = true := by
    decide +kernel
  have hunsafe : (pointerType.unsafePointer s t c).isProper isPlain unwraps = true := by
    have hfinish := isProper_finish hs (n := none) rfl ht hc
    rw [pointerType.unsafePointer]
    refine SwiftType.isProper_generic ?_ (by simpa [SwiftType.allProper] using hfinish)
    split <;> exact hnames _ (by simp)
  have hobject : (SwiftType.generic "AutoreleasingUnsafeMutablePointer"
      [applyNullability c false (t.nullability.or (some .nullable))]).isProper isPlain unwraps =
        true := by
    have hnullable := isProper_applyNullability (a := false) hc
      (Nullability.isClosed_or (DeclaredType.isClosed_nullability ht) (b := some .nullable) rfl)
      (.inr (by simp))
    exact SwiftType.isProper_generic (hnames _ (by simp))
      (by simpa [SwiftType.allProper] using hnullable)
  unfold pointerType
  split
  · split <;> exact hnames _ (by simp)
  · split
    · exact hobject
    · exact hunsafe
  · split
    · exact hobject
    · exact hunsafe
  · exact hunsafe

/-! ### Lowering -/

omit hs

mutual

theorem isProper_core (hs : s.Proper unwraps) : ∀ {t : DeclaredType}, t.isProper unwraps = true →
    (core s t).isProper isPlain unwraps = true
  | .void, _ => rfl
  | .named n, h => isProper_namedType hs h
  | .object ps, h => isProper_protocolType (List.all_eq_true.mp h)
  | .generic n ts, h => by
    simp only [DeclaredType.isProper, Bool.and_eq_true] at h
    have hts := DeclaredType.allProper_iff.mp h.2
    rw [core]
    split
    · exact isProper_protocolType (DeclaredType.isPlain_baseNames hts)
    · exact isProper_objectType h.1 hts (allProper_lowerArguments hs h.2)
  | .pointer p, h => by
    rw [core]
    split
    · exact isProper_classBehind hs (t := p) h ‹_›
    · exact isProper_pointerType hs h (isProper_core hs (t := p) h)
  | .specified ss t, h => isProper_core hs (t := t) h
  | .qualified t qs, h => by
    simp only [DeclaredType.isProper, Bool.and_eq_true] at h
    exact isProper_core hs (t := t) h.1
  | .block name r ps, h => by
    simp only [DeclaredType.isProper, Bool.and_eq_true] at h
    simp [core, SwiftType.function, SwiftType.isProper, allProper_lowerParameters hs h.2,
      isProper_finish hs (n := none) rfl h.1 (isProper_core hs h.1)]
  | .array t l, h =>
    isProper_arrayType
      (isProper_finish hs (n := none) (t := t) rfl h (isProper_core hs (t := t) h)) l

theorem isProper_classBehind (hs : s.Proper unwraps) : ∀ {t : DeclaredType},
    t.isProper unwraps = true → ∀ {u : SwiftType}, classBehind s t = some u →
      u.isProper isPlain unwraps = true
  | .named n, h, u, hu => by
    rw [classBehind, Option.ite_none_left_eq_some, Option.some.injEq] at hu
    rw [← hu.2]
    exact isProper_objectType h (List.forall_mem_nil _) rfl
  | .generic n ts, h, u, hu => by
    simp only [DeclaredType.isProper, Bool.and_eq_true] at h
    rw [classBehind, Option.some.injEq] at hu
    rw [← hu]
    exact isProper_objectType h.1 (DeclaredType.allProper_iff.mp h.2)
      (allProper_lowerArguments hs h.2)
  | .specified ss t, h, u, hu => isProper_classBehind hs (t := t) h hu
  | .qualified t qs, h, u, hu => by
    simp only [DeclaredType.isProper, Bool.and_eq_true] at h
    exact isProper_classBehind hs h.1 hu

theorem allProper_lowerArguments (hs : s.Proper unwraps) : ∀ {ts : List DeclaredType},
    DeclaredType.allProper unwraps ts = true →
      SwiftType.allProper isPlain unwraps (lowerArguments s ts) = true
  | [], _ => rfl
  | t :: ts, h => by
    simp only [DeclaredType.allProper, Bool.and_eq_true] at h
    have hclosed := Nullability.isClosed_or (DeclaredType.isClosed_nullability h.1)
      (b := some .nonnull) rfl
    rw [lowerArguments, SwiftType.allProper, allProper_lowerArguments hs h.2, Bool.and_true]
    exact isProper_finish hs hclosed h.1 (isProper_core hs h.1)

theorem allProper_lowerParameters (hs : s.Proper unwraps) : ∀ {ts : List DeclaredType},
    DeclaredType.allProper unwraps ts = true →
      SwiftType.allProper isPlain unwraps (lowerParameters s ts) = true
  | [], _ => rfl
  | t :: ts, h => by
    simp only [DeclaredType.allProper, Bool.and_eq_true] at h
    rw [lowerParameters, SwiftType.allProper, allProper_lowerParameters hs h.2, Bool.and_true]
    exact isProper_finish hs rfl h.1 (isProper_core hs h.1)

end

theorem isProper_swiftType {ctx : Context} (hctx : ctx.toSetting.Proper unwraps)
    (hn : ctx.nullability.all (isClosed unwraps) = true) (ht : t.isProper unwraps = true) :
    (swiftType ctx t).isProper isPlain unwraps = true :=
  isProper_finish hctx hn ht (isProper_core hctx ht)

theorem isProper_lower {ctx : Context} (hctx : ctx.toSetting.Proper unwraps)
    (hn : ctx.nullability.all (isClosed unwraps) = true) (ht : t.isProper unwraps = true) :
    (lower ctx t).type.isProper isPlain unwraps = true := by
  have htype := isProper_swiftType hctx hn ht
  rw [lower]
  dsimp only
  split
  · exact SwiftType.isProper_unwrapped htype
  · exact htype

end Lowering

end HeaderBridge
