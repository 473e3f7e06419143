import HeaderBridge.Proofs.DeclaredType.InnerWords
import HeaderBridge.Proofs.Lowering.Optionality
import HeaderBridge.Proofs.SwiftType.OpenNullability

/-! # What auditing changes

Whether references are audited decides about nothing but open nullability. Where no
word asks for nullability to be left open, a type is lowered in an audited place to
what it is lowered to elsewhere, with every wrapper of open nullability taken off.
-/

namespace HeaderBridge

namespace SwiftType

/-- Close open nullability by taking its wrapper off. -/
def takeOff (_depth : Nat) (t : SwiftType) : SwiftType := t

/-- The type with what is wrapped in the place of every wrapper of open nullability. -/
def withoutOpen (t : SwiftType) : SwiftType := t.closeWith takeOff 0

theorem isOptionalLike_closeWith {t : SwiftType} (h : t.isOptionalLike = false)
    (close : Nat → SwiftType → SwiftType) (d : Nat) :
    (t.closeWith close d).isOptionalLike = false := by
  cases t with
  | optional _ | implicitlyUnwrapped _ | unspecified _ => cases h
  | _ => rfl

end SwiftType

namespace Lowering

open SwiftType (closeWith closeAllWith takeOff)

/-! ### Leaves -/

section Leaves

variable (close : Nat → SwiftType → SwiftType) (d : Nat)

theorem closeWith_generic (name : String) (ts : List SwiftType) :
    (SwiftType.generic name ts).closeWith close d = .generic name (closeAllWith close d ts) :=
  rfl

theorem closeAllWith_components {α : Type} (f : α → String) (xs : List α) :
    Component.closeAllWith close d (xs.map fun x => .nominal (.plain (f x))) =
      xs.map fun x => .nominal (.plain (f x)) := by
  induction xs with
  | nil => rfl
  | cons x xs ih =>
    rw [List.map_cons, Component.closeAllWith, ih]
    rfl

theorem closeWith_protocolType (ps : List String) :
    (protocolType ps).closeWith close d = protocolType ps := by
  unfold protocolType
  split
  · rfl
  · rfl
  · rw [closeWith, closeAllWith_components]

theorem closeWith_namedType (s : Setting) (name : String) :
    (namedType s name).closeWith close d = namedType s name := by
  have hscalars : ∀ x ∈ scalars, x.2.closeWith close d = x.2 := by
    simp [scalars, SwiftType.named, closeWith, Nominal.closeWith, Nominal.closeAllWith]
  unfold namedType
  repeat' split
  · rfl
  · rfl
  · rfl
  · exact hscalars _ (mem_of_lookup ‹_›)
  · rfl
  · rfl

theorem closeWith_objectWithProtocols (ts : List DeclaredType) :
    (objectWithProtocols ts).closeWith close d = objectWithProtocols ts := by
  have hcomponents :=
    closeAllWith_components close d protocolName (ts.filterMap DeclaredType.baseName)
  rw [List.map_filterMap] at hcomponents
  rw [objectWithProtocols, closeWith, Component.closeAllWith, hcomponents]
  rfl

theorem closeWith_objectType (name : String) (ts : List DeclaredType) (us : List SwiftType) :
    (objectType name ts us).closeWith close d = objectType name ts (closeAllWith close d us) := by
  have hprotocols := closeWith_objectWithProtocols close d ts
  rcases us with _ | ⟨t, _ | ⟨u, _ | ⟨v, us⟩⟩⟩ <;> simp only [objectType, closeAllWith] <;>
    repeat' split
  all_goals first | exact hprotocols | rfl

theorem closeAllWith_replicate (n : Nat) (t : SwiftType) :
    closeAllWith close d (List.replicate n t) = List.replicate n (t.closeWith close d) := by
  induction n with
  | zero => rfl
  | succ n ih => rw [List.replicate_succ, closeAllWith, ih, List.replicate_succ]

theorem closeWith_arrayType (t : SwiftType) (length : String) :
    (arrayType t length).closeWith close d = arrayType (t.closeWith close d) length := by
  unfold arrayType
  split
  · split
    · rfl
    · split
      · rw [closeWith, closeAllWith_replicate]
      · rfl
  · rfl

end Leaves

/-! ### References -/

variable (s : Setting) (d : Nat)

/-- A wrapper of open nullability is taken off where nothing else says that there is one. -/
theorem applyNullability_audited {n : Option Nullability} (hn : n ≠ some .unspecified)
    (c : SwiftType) :
    applyNullability (c.closeWith takeOff d) true n =
      (applyNullability c false n).closeWith takeOff d := by
  rcases n with _ | n
  · rfl
  · cases n with
    | unspecified => exact absurd rfl hn
    | _ => rfl

theorem finish_audited {n : Option Nullability} {t : DeclaredType} (hn : n ≠ some .unspecified)
    (ht : t.nullability ≠ some .unspecified) (c : SwiftType) :
    finish { s with audited := true } n t (c.closeWith takeOff d) =
      (finish { s with audited := false } n t c).closeWith takeOff d := by
  have hor : n.or t.nullability ≠ some .unspecified := by
    cases n with
    | none => exact ht
    | some n => exact hn
  rw [finish, finish]
  split
  · exact applyNullability_audited d hor c
  · rfl

theorem pointerType_audited {p : DeclaredType} (hp : p.nullability ≠ some .unspecified)
    (c : SwiftType) :
    pointerType { s with audited := true } p (c.closeWith takeOff d) =
      (pointerType { s with audited := false } p c).closeWith takeOff d := by
  have hunsafe : pointerType.unsafePointer { s with audited := true } p (c.closeWith takeOff d) =
      (pointerType.unsafePointer { s with audited := false } p c).closeWith takeOff d := by
    rw [pointerType.unsafePointer, finish_audited s d (by simp) hp, pointerType.unsafePointer,
      closeWith_generic]
    rfl
  have hobject :
      applyNullability (c.closeWith takeOff d) false (p.nullability.or (some .nullable)) =
      (applyNullability c false (p.nullability.or (some .nullable))).closeWith takeOff d := by
    rcases hnullability : p.nullability with _ | n
    · rfl
    · cases n with
      | unspecified => exact absurd hnullability hp
      | _ => rfl
  unfold pointerType
  split
  · rfl
  · split
    · rw [hobject]
      rfl
    · exact hunsafe
  · split
    · rw [hobject]
      rfl
    · exact hunsafe
  · exact hunsafe

/-! ### Lowering -/

variable {d}

mutual

theorem core_audited : ∀ {t : DeclaredType},
    (∀ w ∈ t.qualifierWords, Nullability.ofSpelling? w ≠ some .unspecified) → ∀ d,
    core { s with audited := true } t =
      (core { s with audited := false } t).closeWith takeOff d
  | .void, _, _ => rfl
  | .named n, _, d => by
    rw [core, core, closeWith_namedType]
    rfl
  | .object ps, _, d => by rw [core, core, closeWith_protocolType]
  | .generic n ts, h, d => by
    rw [core, core]
    split
    · rw [closeWith, closeWith_protocolType]
    · rw [closeWith_objectType, lowerArguments_audited h d]
  | .pointer p, h, d => by
    have hp := DeclaredType.nullability_ne_unspecified (t := p) h
    rw [core, core, classBehind_audited (t := p) h d, core_audited (t := p) h d]
    cases classBehind { s with audited := false } p with
    | some t => rfl
    | none => exact pointerType_audited s d hp _
  | .specified ss t, h, d => by
    rw [core, core, core_audited (t := t) h d]
  | .qualified t qs, h, d => by
    rw [DeclaredType.qualifierWords, List.forall_mem_append] at h
    rw [core, core, core_audited (t := t) h.2 d]
  | .block name r ps, h, d => by
    rw [DeclaredType.qualifierWords, List.forall_mem_append] at h
    have hr := DeclaredType.nullability_ne_unspecified h.1
    rw [core, core, core_audited h.1 (d + 1), finish_audited s (d + 1) (by simp) hr,
      lowerParameters_audited h.2 (d + 1)]
    rfl
  | .array t l, h, d => by
    have ht := DeclaredType.nullability_ne_unspecified (t := t) h
    rw [core, core, core_audited (t := t) h d, finish_audited s d (by simp) ht, closeWith_arrayType]

theorem classBehind_audited : ∀ {t : DeclaredType},
    (∀ w ∈ t.qualifierWords, Nullability.ofSpelling? w ≠ some .unspecified) → ∀ d,
    classBehind { s with audited := true } t =
      (classBehind { s with audited := false } t).map (closeWith takeOff d)
  | .named n, _, d => by
    rw [classBehind, classBehind]
    split
    · rfl
    · rw [Option.map_some, closeWith_objectType]
      rfl
  | .generic n ts, h, d => by
    rw [classBehind, classBehind, lowerArguments_audited h d, Option.map_some, closeWith_objectType]
  | .specified ss t, h, d => by
    rw [classBehind, classBehind, classBehind_audited (t := t) h d]
  | .qualified t qs, h, d => by
    rw [DeclaredType.qualifierWords, List.forall_mem_append] at h
    rw [classBehind, classBehind, classBehind_audited (t := t) h.2 d]
  | .void, _, _ | .object _, _, _ | .pointer _, _, _ | .block _ _ _, _, _ | .array _ _, _, _ => rfl

theorem lowerArguments_audited : ∀ {ts : List DeclaredType},
    (∀ w ∈ DeclaredType.qualifierWordsAll ts, Nullability.ofSpelling? w ≠ some .unspecified) → ∀ d,
    lowerArguments { s with audited := true } ts =
      closeAllWith takeOff d (lowerArguments { s with audited := false } ts)
  | [], _, _ => rfl
  | t :: ts, h, d => by
    rw [DeclaredType.qualifierWordsAll, List.forall_mem_append] at h
    have ht := DeclaredType.nullability_ne_unspecified h.1
    have hor : t.nullability.or (some .nonnull) ≠ some .unspecified := by
      cases hnullability : t.nullability with
      | none => simp
      | some n => rwa [hnullability] at ht
    rw [lowerArguments, lowerArguments, core_audited h.1 d, finish_audited s d hor ht,
      lowerArguments_audited h.2 d, closeAllWith]

theorem lowerParameters_audited : ∀ {ts : List DeclaredType},
    (∀ w ∈ DeclaredType.qualifierWordsAll ts, Nullability.ofSpelling? w ≠ some .unspecified) → ∀ d,
    lowerParameters { s with audited := true } ts =
      closeAllWith takeOff d (lowerParameters { s with audited := false } ts)
  | [], _, _ => rfl
  | t :: ts, h, d => by
    rw [DeclaredType.qualifierWordsAll, List.forall_mem_append] at h
    have ht := DeclaredType.nullability_ne_unspecified h.1
    rw [lowerParameters, lowerParameters, core_audited h.1 d, finish_audited s d (by simp) ht,
      lowerParameters_audited h.2 d, closeAllWith]

end

theorem swiftType_audited (ctx : Context) {t : DeclaredType}
    (hctx : ctx.nullability ≠ some .unspecified)
    (ht : ∀ w ∈ t.qualifierWords, Nullability.ofSpelling? w ≠ some .unspecified) :
    swiftType { ctx with audited := true } t =
      (swiftType { ctx with audited := false } t).withoutOpen := by
  rw [swiftType, core_audited ctx.toSetting ht 0,
    finish_audited ctx.toSetting 0 hctx (DeclaredType.nullability_ne_unspecified ht)]
  rfl

/-- What is below the outermost wrapper has none of its own, so that it is all the same whether open
nullability is closed before or after a weak reference becomes optional. -/
theorem toOptional_withoutOpen {t : SwiftType} (h : t.unwrapped.isOptionalLike = false) :
    t.withoutOpen.toOptional = t.toOptional.withoutOpen := by
  cases t with
  | unspecified t =>
    have hclosed := SwiftType.isOptionalLike_closeWith h takeOff 0
    exact congrArg SwiftType.optional (unwrapped_of_not_isOptionalLike hclosed)
  | _ => rfl

/-- Auditing takes off the wrappers of open nullability and changes nothing else. -/
theorem lower_audited (ctx : Context) {t : DeclaredType}
    (hctx : ctx.nullability ≠ some .unspecified)
    (ht : ∀ w ∈ t.qualifierWords, Nullability.ofSpelling? w ≠ some .unspecified) :
    (lower { ctx with audited := true } t).ownership =
        (lower { ctx with audited := false } t).ownership ∧
      (lower { ctx with audited := true } t).type =
        (lower { ctx with audited := false } t).type.withoutOpen := by
  refine ⟨rfl, ?_⟩
  simp only [lower]
  rw [swiftType_audited ctx hctx ht]
  split
  · exact toOptional_withoutOpen (isOptionalLike_unwrapped_swiftType _ t)
  · rfl

/-- A weak block with open parameters, of which one points to an annotated object. -/
theorem lower_audited_block : ∃ t : DeclaredType,
    t = .specified ["__weak"] (.block none (.pointer (.named "A"))
      [.pointer (.qualified (.pointer (.named "B")) ["_Nonnull"]),
        .pointer (.generic "NSArray" [.qualified (.object []) ["nullable"]])]) ∧
    (lower { audited := false } t).type = .optional (.function (.unspecified (.named "A"))
      [.unspecified (.generic "AutoreleasingUnsafeMutablePointer" [.named "B"]),
        .unspecified (.array (.optional (.named "AnyObject")))]) ∧
    (lower { audited := true } t).type = .optional (.function (.named "A")
      [.generic "AutoreleasingUnsafeMutablePointer" [.named "B"],
        .array (.optional (.named "AnyObject"))]) :=
  ⟨_, rfl, rfl, (lower_audited {} (by simp) (by decide)).2⟩

end Lowering

end HeaderBridge
