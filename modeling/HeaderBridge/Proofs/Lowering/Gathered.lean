import HeaderBridge.Lowering.Basic
import HeaderBridge.Proofs.DeclaredType.Gathered

/-! # Lowering gathered types

Lowering asks each layer of a type for its nullability and for its constness, and
the outermost layer for its ownership. Gathering keeps the former in a faithful
type. It keeps the latter if the first ownership in front of the spelling is that
of the outermost layer.
-/

namespace HeaderBridge.Lowering

open DeclaredType

variable (s : Setting)

/-! ### References -/

theorem isReference_join (t : DeclaredType) (qs : List String) :
    isReference (t.join qs) = isReference t := by
  rw [isReference, unqualified_join, isReference]

theorem isReference_bare (t : DeclaredType) : isReference t.bare = isReference t := by
  induction t using layer_induction with
  | specified ss t ih => exact ih
  | qualified t qs ih => rw [bare, isReference_join, ih]; rfl
  | _ => rfl

theorem isObject_join (t : DeclaredType) (qs : List String) :
    isObject (t.join qs) = isObject t := by
  rw [isObject, unqualified_join, isObject]

theorem isObject_pointer_bare (p : DeclaredType) :
    isObject (.pointer p.bare) = isObject (.pointer p) := by
  induction p using layer_induction with
  | specified ss t ih => exact ih
  | qualified t qs ih =>
    have hjoin : isObject (.pointer (t.bare.join qs)) = isObject (.pointer t.bare) := by
      simp only [isObject, unqualified, unqualified_join]
    rw [bare, hjoin, ih]
    rfl
  | _ => rfl

theorem isObject_bare (t : DeclaredType) : isObject t.bare = isObject t := by
  induction t using layer_induction with
  | specified ss t ih => exact ih
  | qualified t qs ih => rw [bare, isObject_join, ih]; rfl
  | pointer p => exact isObject_pointer_bare p
  | _ => rfl

theorem finish_bare {t : DeclaredType} (h : t.isFaithful = true) (external : Option Nullability)
    (c : SwiftType) : finish s external t.bare c = finish s external t c := by
  rw [finish, isReference_bare, nullability_bare h, finish]

theorem pointerType_bare {p : DeclaredType} (h : p.isFaithful = true) (c : SwiftType) :
    pointerType s p.bare c = pointerType s p c := by
  simp only [pointerType, pointerType.unsafePointer, isConst_bare, isObject_bare,
    nullability_bare h, finish_bare s h]
  rw [unqualified_bare]
  cases hp : p.unqualified with
  | specified ss t => exact absurd hp ((unqualified_ne p).1 ss t)
  | qualified t qs => exact absurd hp ((unqualified_ne p).2 t qs)
  | _ => rfl

/-! ### Words in front -/

theorem finish_specify (external : Option Nullability) (t : DeclaredType) (ss : List String)
    (c : SwiftType) : finish s external (t.specify ss) c = finish s external t c := by
  cases ss <;> rfl

theorem core_specify (t : DeclaredType) (ss : List String) : core s (t.specify ss) = core s t := by
  cases ss
  · rfl
  · rw [specify, core]
    simp

theorem core_join (t : DeclaredType) (qs : List String) : core s (t.join qs) = core s t := by
  rcases join_cases t qs with h | ⟨p, rs, rfl, h⟩ <;> rw [h]
  · cases qs <;> simp only [qualify, core]
  · simp only [core]

theorem classBehind_join (t : DeclaredType) (qs : List String) :
    classBehind s (t.join qs) = classBehind s t := by
  rcases join_cases t qs with h | ⟨p, rs, rfl, h⟩ <;> rw [h]
  · cases qs <;> simp only [qualify, classBehind]
  · simp only [classBehind]

theorem nullability_specify (t : DeclaredType) (ss : List String) :
    (t.specify ss).nullability = t.nullability := by
  cases ss <;> rfl

theorem baseName_gather (t : DeclaredType) : t.gather.baseName = t.baseName := by
  rw [gather, ← baseName_bare t]
  cases t.frontSpecifiers <;> rfl

theorem filterMap_baseName_gatherAll {α : Type} (f : String → α) (ts : List DeclaredType) :
    (gatherAll ts).filterMap (fun t => t.baseName.map f) =
      ts.filterMap fun t => t.baseName.map f := by
  rw [gatherAll_eq_map, List.filterMap_map]
  congr 1
  funext t
  simp [baseName_gather]

theorem objectType_gatherAll (name : String) (ts : List DeclaredType) (lowered : List SwiftType) :
    objectType name (gatherAll ts) lowered = objectType name ts lowered := by
  simp only [objectType, objectWithProtocols, filterMap_baseName_gatherAll]

/-! ### Lowering -/

mutual

theorem core_bare : ∀ t : DeclaredType, t.isFaithful = true → core s t.bare = core s t
  | .void, _ => rfl
  | .named _, _ => rfl
  | .object _, _ => rfl
  | .generic n ts, h => by
    have hnames := filterMap_baseName_gatherAll id ts
    simp only [Option.map_id_fun, id_eq] at hnames
    rw [bare, core, core, hnames, objectType_gatherAll]
    rcases arguments_of_isFaithful h with hts | hts
    · rw [hts]
    · rw [lowerArguments_gatherAll ts hts]
  | .pointer p, h => by
    have h : p.isFaithful = true := h
    rw [bare, core, core, classBehind_bare p h, core_bare p h]
    simp only [pointerType_bare s h]
  | .specified _ t, h => by
    rw [bare, core_bare t h, core]
  | .qualified t qs, h => by
    rw [isFaithful, Bool.and_eq_true] at h
    rw [bare, core_join, core_bare t h.1, core]
  | .block _ r ps, h => by
    rw [isFaithful, Bool.and_eq_true] at h
    rw [bare, core, core, core_bare r h.1, finish_bare s h.1, lowerParameters_gatherAll ps h.2]
  | .array t l, h => by
    rw [isFaithful, Bool.and_eq_true] at h
    rw [bare, core, core, core_bare t h.1, finish_bare s h.1]

theorem classBehind_bare : ∀ t : DeclaredType, t.isFaithful = true →
    classBehind s t.bare = classBehind s t
  | .generic n ts, h => by
    rw [bare, classBehind, classBehind, objectType_gatherAll]
    rcases arguments_of_isFaithful h with hts | hts
    · rw [hts]
    · rw [lowerArguments_gatherAll ts hts]
  | .specified _ t, h => by
    rw [bare, classBehind_bare t h, classBehind]
  | .qualified t qs, h => by
    rw [isFaithful, Bool.and_eq_true] at h
    rw [bare, classBehind_join, classBehind_bare t h.1, classBehind]
  | .void, _ => rfl
  | .named _, _ => rfl
  | .object _, _ => rfl
  | .pointer _, _ => rfl
  | .block _ _ _, _ => rfl
  | .array _ _, _ => rfl

theorem lowerArguments_gatherAll : ∀ ts : List DeclaredType, areFaithful ts = true →
    lowerArguments s (gatherAll ts) = lowerArguments s ts
  | [], _ => rfl
  | t :: ts, h => by
    rw [areFaithful, Bool.and_eq_true] at h
    rw [gatherAll, lowerArguments, lowerArguments, nullability_specify, nullability_bare h.1,
      core_specify, core_bare t h.1, finish_specify, finish_bare s h.1,
      lowerArguments_gatherAll ts h.2]

theorem lowerParameters_gatherAll : ∀ ts : List DeclaredType, areFaithful ts = true →
    lowerParameters s (gatherAll ts) = lowerParameters s ts
  | [], _ => rfl
  | t :: ts, h => by
    rw [areFaithful, Bool.and_eq_true] at h
    rw [gatherAll, lowerParameters, lowerParameters, core_specify, core_bare t h.1, finish_specify,
      finish_bare s h.1, lowerParameters_gatherAll ts h.2]

end

/-- The ownership that words in front of a type give: the first of them that gives any. -/
def ownershipOf (ss : List String) : Option Ownership :=
  (ss.filterMap ArcQualifier.ofSpelling?).findSome? Ownership.ofArcQualifier?

theorem ownership_lower (ctx : Context) (t : DeclaredType) :
    (lower ctx t).ownership = (ownershipOf t.outerSpecifiers).or ctx.ownership :=
  rfl

theorem swiftType_gather {t : DeclaredType} (h : t.isFaithful = true) (ctx : Context) :
    swiftType ctx t.gather = swiftType ctx t := by
  rw [swiftType, gather, finish_specify, core_specify, finish_bare _ h, core_bare _ t h, swiftType]

/-- A faithful type and its gathered form are lowered to the same type, with the same ownership, if
and only if the first ownership in front of the spelling is that of the outermost layer. -/
theorem lower_gather_iff {t : DeclaredType} (h : t.isFaithful = true) :
    (∀ ctx, lower ctx t.gather = lower ctx t) ↔
      ownershipOf t.frontSpecifiers = ownershipOf t.outerSpecifiers := by
  rw [← outerSpecifiers_gather]
  constructor
  · intro hlower
    -- nothing outside the type gives an ownership
    have hownership := congrArg Lowered.ownership (hlower {})
    simpa only [ownership_lower, Option.or_none] using hownership
  · intro hownership ctx
    rw [ownershipOf, ownershipOf] at hownership
    rw [lower, lower, arcQualifiers, arcQualifiers, hownership, swiftType_gather h]

end HeaderBridge.Lowering
