import HeaderBridge.Lowering.Basic
import HeaderBridge.Proofs.DeclaredType.Gathered

/-! # Optionality is decided once

Lowering puts an optional wrapper around a type at one place only, and what it puts
it around has none: a reference is lowered to a class, a pointer, a function type or
a composition of protocols first. An array of one element stands for its element,
wrapper and all, but an array is no reference.
-/

namespace HeaderBridge.Lowering

open DeclaredType

variable (s : Setting)

/-! ### Leaves -/

theorem mem_of_lookup {α : Type} {table : List (String × α)} {name : String} {a : α}
    (h : table.lookup name = some a) : (name, a) ∈ table := by
  obtain ⟨l₁, l₂, rfl, -⟩ := List.lookup_eq_some_iff.mp h
  simp

theorem isOptionalLike_protocolType (ps : List String) :
    (protocolType ps).isOptionalLike = false := by
  unfold protocolType
  split <;> rfl

theorem objectType_cases (name : String) (ts : List DeclaredType) (us : List SwiftType) :
    (∃ n, objectType name ts us = .named n) ∨
      us ≠ [] ∧ (objectType name ts us = objectWithProtocols ts ∨
        ∃ n, objectType name ts us = .generic n us) := by
  unfold objectType
  split
  · exact .inl ⟨name, rfl⟩
  · split
    · exact .inl ⟨className name, rfl⟩
    · refine .inr ⟨List.cons_ne_nil _ _, ?_⟩
      repeat' split
      all_goals first | exact .inl rfl | exact .inr ⟨_, rfl⟩
    · refine .inr ⟨List.cons_ne_nil _ _, ?_⟩
      repeat' split
      all_goals first | exact .inl rfl | exact .inr ⟨_, rfl⟩
    · next hnil _ _ =>
      refine .inr ⟨fun h => hnil h, ?_⟩
      split
      · exact .inl rfl
      · exact .inr ⟨name, rfl⟩

theorem isOptionalLike_objectType (name : String) (ts : List DeclaredType) (us : List SwiftType) :
    (objectType name ts us).isOptionalLike = false := by
  rcases objectType_cases name ts us with ⟨n, h⟩ | ⟨-, h | ⟨n, h⟩⟩ <;> rw [h] <;> rfl

theorem isOptionalLike_pointerType (p : DeclaredType) (c : SwiftType) :
    (pointerType s p c).isOptionalLike = false := by
  unfold pointerType
  repeat' split
  all_goals rfl

theorem isOptionalLike_namedType (name : String) : (namedType s name).isOptionalLike = false := by
  have hscalars : ∀ x ∈ scalars, x.2.isOptionalLike = false := by decide
  unfold namedType
  repeat' split
  · rfl
  · rfl
  · rfl
  · exact hscalars _ (mem_of_lookup ‹_›)
  · rfl
  · rfl

theorem isOptionalLike_classBehind {p : DeclaredType} {t : SwiftType}
    (h : classBehind s p = some t) : t.isOptionalLike = false := by
  induction p using layer_induction with
  | named n =>
    rw [classBehind, Option.ite_none_left_eq_some] at h
    obtain rfl := Option.some.inj h.2
    exact isOptionalLike_objectType _ _ _
  | generic n ts =>
    rw [classBehind] at h
    obtain rfl := Option.some.inj h
    exact isOptionalLike_objectType _ _ _
  | specified ss t ih | qualified t qs ih =>
    rw [classBehind] at h
    exact ih h
  | _ => simp [classBehind] at h

/-! ### References -/

/-- Only arrays may be lowered to what has a wrapper already. -/
theorem isOptionalLike_core_of_ne_array {t : DeclaredType} (h : ∀ u l, t.unqualified ≠ .array u l) :
    (core s t).isOptionalLike = false := by
  induction t using layer_induction with
  | void => rfl
  | named n => exact isOptionalLike_namedType s n
  | object ps => exact isOptionalLike_protocolType ps
  | generic n ts =>
    rw [core]
    split
    · rfl
    · exact isOptionalLike_objectType _ _ _
  | pointer p =>
    rw [core]
    split
    · next hclass => exact isOptionalLike_classBehind s hclass
    · exact isOptionalLike_pointerType s _ _
  | specified ss t ih | qualified t qs ih =>
    rw [core]
    exact ih h
  | block name r ps =>
    rw [core]
    rfl
  | array t l => exact absurd rfl (h t l)

/-- A reference is lowered to a type without an optional wrapper before its own is decided on. -/
theorem isOptionalLike_core {t : DeclaredType} (h : isReference t = true) :
    (core s t).isOptionalLike = false := by
  refine isOptionalLike_core_of_ne_array s fun u l harray => ?_
  rw [isReference, harray] at h
  cases h

theorem unwrapped_of_not_isOptionalLike {c : SwiftType} (h : c.isOptionalLike = false) :
    c.unwrapped = c := by
  cases c with
  | optional _ | implicitlyUnwrapped _ | unspecified _ => cases h
  | _ => rfl

theorem unwrapped_applyNullability {c : SwiftType} (hc : c.isOptionalLike = false) (audited : Bool)
    (n : Option Nullability) : (applyNullability c audited n).unwrapped = c := by
  have hself := unwrapped_of_not_isOptionalLike hc
  rcases n with _ | n
  · rw [applyNullability]
    split
    · exact hself
    · rfl
  · cases n with
    | nonnull => exact hself
    | _ => rfl

theorem isOptionalLike_unwrapped_finish (n : Option Nullability) {t : DeclaredType}
    (h : (core s t).unwrapped.isOptionalLike = false) :
    (finish s n t (core s t)).unwrapped.isOptionalLike = false := by
  rw [finish]
  split
  · next hreference =>
    have hcore := isOptionalLike_core s hreference
    rw [unwrapped_applyNullability hcore, hcore]
  · exact h

theorem isOptionalLike_unwrapped_core : ∀ t : DeclaredType,
    (core s t).unwrapped.isOptionalLike = false
  | .array t l => by
    have ht := isOptionalLike_unwrapped_finish s none (isOptionalLike_unwrapped_core t)
    rw [core, arrayType]
    repeat' split
    · exact ht
    all_goals rfl
  | .specified ss t | .qualified t qs => by
    rw [core]
    exact isOptionalLike_unwrapped_core t
  | .void | .named _ | .object _ | .generic _ _ | .pointer _ | .block _ _ _ => by
    rw [unwrapped_of_not_isOptionalLike] <;>
      exact isOptionalLike_core_of_ne_array s fun _ _ h => by cases h

theorem isOptionalLike_unwrapped_swiftType (ctx : Context) (t : DeclaredType) :
    (swiftType ctx t).unwrapped.isOptionalLike = false :=
  isOptionalLike_unwrapped_finish _ _ (isOptionalLike_unwrapped_core _ t)

end HeaderBridge.Lowering
