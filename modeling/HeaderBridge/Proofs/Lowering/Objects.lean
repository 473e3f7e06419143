import HeaderBridge.Proofs.Lowering.Optionality

/-! # Objects and pointers

A pointer is lowered to an object or to one of Swift's pointer types. Which of the
two it will be can be told from the declared type, except where it points to a
typedef of a C value: that counts as an object, and it is lowered to a pointer.
-/

namespace HeaderBridge

namespace SwiftType

def typedPointers : List String :=
  ["UnsafePointer", "UnsafeMutablePointer", "AutoreleasingUnsafeMutablePointer"]

def rawPointers : List String := ["UnsafeRawPointer", "UnsafeMutableRawPointer"]

def isPointer : SwiftType → Bool
  | nominal (.plain n) => rawPointers.contains n
  | nominal (.generic n _) => typedPointers.contains n
  | _ => false

end SwiftType

namespace DeclaredType

theorem baseName_unqualified (t : DeclaredType) : t.unqualified.baseName = t.baseName := by
  induction t using layer_induction with
  | specified _ _ ih | qualified _ _ ih => exact ih
  | _ => rfl

def isValue (t : DeclaredType) : Bool :=
  match t.unqualified with
  | named n => Lowering.isValueTypedef n
  | _ => false

end DeclaredType

namespace Lowering

open DeclaredType
open SwiftType (typedPointers rawPointers)

/-! ### Names -/

theorem isScalar_of_isValueTypedef {n : String} (h : isValueTypedef n = true) :
    isScalar n = false := by
  have htable : ∀ x ∈ scalars, isValueTypedef x.1 = false := by decide +kernel
  rw [isScalar, Bool.or_eq_false_iff, Bool.or_eq_false_iff]
  refine ⟨⟨?_, ?_⟩, ?_⟩
  · cases hlookup : scalars.lookup n with
    | none => rfl
    | some t => simp [htable _ (mem_of_lookup hlookup)] at h
  · rw [decide_eq_false_iff_not]
    rintro rfl
    cases h
  · rw [decide_eq_false_iff_not]
    rintro rfl
    cases h

theorem isPointer_className {n : String} (h : n ∉ rawPointers) :
    (SwiftType.named (className n)).isPointer = false := by
  have hbridged : ∀ x ∈ bridgedClasses, rawPointers.contains x.2 = false := by decide
  rw [className]
  cases hlookup : bridgedClasses.lookup n with
  | none => simpa [SwiftType.named, SwiftType.isPointer] using h
  | some m => exact hbridged _ (mem_of_lookup hlookup)

/-! ### Objects -/

theorem isPointer_objectType {n : String} (h : n ∉ typedPointers ++ rawPointers)
    (ts : List DeclaredType) (us : List SwiftType) : (objectType n ts us).isPointer = false := by
  obtain ⟨htyped, hraw⟩ := not_or.mp fun hmem => h (List.mem_append.mpr hmem)
  have hnamed : (SwiftType.named n).isPointer = false := by
    simpa [SwiftType.named, SwiftType.isPointer] using hraw
  have hgeneric : ∀ us, (SwiftType.generic n us).isPointer = false := by
    intro us
    simpa [SwiftType.generic, SwiftType.isPointer] using htyped
  unfold objectType
  split
  · exact hnamed
  · split
    · exact isPointer_className hraw
    all_goals
      repeat' split
      all_goals first | exact hgeneric _ | rfl

/-- What is no class is lowered to a pointer, if it is behind one. -/
theorem isPointer_pointerType (s : Setting) (p : DeclaredType) (c : SwiftType) :
    (pointerType s p c).isPointer = true := by
  have hraw : ∀ b : Bool, (SwiftType.named
      (if b then "UnsafeRawPointer" else "UnsafeMutableRawPointer")).isPointer = true := by decide
  have htyped : ∀ (b : Bool) (us : List SwiftType), (SwiftType.generic
      (if b then "UnsafePointer" else "UnsafeMutablePointer") us).isPointer = true := by
    rintro (_ | _) us <;> rfl
  unfold pointerType
  split
  · exact hraw _
  · split
    · rfl
    · exact htyped _ _
  · split
    · rfl
    · exact htyped _ _
  · exact htyped _ _

/-- Nothing behind a pointer is a class but names that are no C values, and generic types. -/
theorem isSome_classBehind (s : Setting) (p : DeclaredType) :
    (classBehind s p).isSome = (isObject (.pointer p) && !p.isValue) := by
  induction p using layer_induction with
  | named n =>
    have hvalue : (DeclaredType.named n).isValue = isValueTypedef n := rfl
    have hobject : isObject (.pointer (.named n)) = !isScalar n := rfl
    rw [classBehind, hvalue, hobject]
    cases isScalar n <;> cases isValueTypedef n <;> rfl
  | specified _ _ ih | qualified _ _ ih =>
    rw [classBehind]
    exact ih
  | _ => rfl

theorem isPointer_classBehind (s : Setting) {p : DeclaredType} {t : SwiftType}
    (h : classBehind s p = some t) (hbase : ∀ n ∈ p.baseName, n ∉ typedPointers ++ rawPointers) :
    t.isPointer = false := by
  induction p using layer_induction with
  | named n =>
    rw [classBehind, Option.ite_none_left_eq_some] at h
    obtain rfl := Option.some.inj h.2
    exact isPointer_objectType (hbase n rfl) _ _
  | generic n ts =>
    rw [classBehind] at h
    cases h
    exact isPointer_objectType (hbase n rfl) _ _
  | specified _ _ ih | qualified _ _ ih =>
    rw [classBehind] at h
    exact ih h hbase
  | _ => simp [classBehind] at h

theorem isObject_of_isValue {p : DeclaredType} (h : p.isValue = true) :
    isObject (.pointer p) = true := by
  obtain ⟨n, hn⟩ : ∃ n, p.unqualified = .named n := by
    rw [isValue] at h
    split at h
    · next n hn => exact ⟨n, hn⟩
    · cases h
  rw [isValue, hn] at h
  simp [isObject, unqualified, hn, isScalar_of_isValueTypedef h]

/-! ### Lowering -/

theorem core_unqualified (s : Setting) (t : DeclaredType) : core s t.unqualified = core s t := by
  induction t using layer_induction with
  | specified _ _ ih | qualified _ _ ih =>
    rw [core]
    exact ih
  | _ => rfl

theorem isPointer_core_pointer (s : Setting) {p : DeclaredType}
    (hbase : ∀ n ∈ p.baseName, n ∉ typedPointers ++ rawPointers) :
    (core s (.pointer p)).isPointer = !(isObject (.pointer p) && !p.isValue) := by
  rw [← isSome_classBehind s, core]
  cases hclass : classBehind s p with
  | some c => exact isPointer_classBehind s hclass hbase
  | none => exact isPointer_pointerType s p _

theorem unwrapped_lower (ctx : Context) {t : DeclaredType} (h : isReference t = true) :
    (lower ctx t).type.unwrapped = core ctx.toSetting t := by
  have hswift : (swiftType ctx t).unwrapped = core ctx.toSetting t := by
    rw [swiftType, finish, if_pos h]
    exact unwrapped_applyNullability (isOptionalLike_core _ h) _ _
  simp only [lower]
  split
  · exact hswift
  · exact hswift

/-- A pointer counts as an object exactly if it is not lowered to a pointer, unless it points to a
typedef of a C value: then it counts as an object and is lowered to a pointer. -/
theorem isObject_iff_lowered (ctx : Context) {t p : DeclaredType} (ht : t.unqualified = .pointer p)
    (hbase : ∀ n ∈ t.baseName, n ∉ typedPointers ++ rawPointers) :
    (p.isValue = false →
      (isObject t = true ↔ (lower ctx t).type.unwrapped.isPointer = false)) ∧
    (p.isValue = true → isObject t = true ∧ (lower ctx t).type.unwrapped.isPointer = true) := by
  have hreference : isReference t = true := by rw [isReference, ht]
  have hobject : isObject t = isObject (.pointer p) := by rw [isObject, ht]; rfl
  rw [← baseName_unqualified, ht, baseName] at hbase
  rw [unwrapped_lower ctx hreference, ← core_unqualified, ht, isPointer_core_pointer _ hbase,
    hobject]
  constructor
  · intro hvalue
    simp [hvalue]
  · intro hvalue
    simp [hvalue, isObject_of_isValue hvalue]

/-- A weak reference to an array, and a pointer to such a reference. -/
theorem isObject_iff_lowered_array : ∃ t p : DeclaredType,
    t = .specified ["__weak"] (.qualified (.pointer p) ["_Nonnull"]) ∧
    p = .qualified (.generic "NSArray" [.named "A"]) ["const"] ∧
    (isObject t = true ↔ (lower {} t).type.unwrapped.isPointer = false) ∧
    (lower {} t).type = .optional (.array (.named "A")) ∧
    (isObject (.pointer t) = true ↔ (lower {} (.pointer t)).type.unwrapped.isPointer = false) ∧
    (lower {} (.pointer t)).type =
      .unspecified (.generic "AutoreleasingUnsafeMutablePointer" [.array (.named "A")]) := by
  refine ⟨_, _, rfl, rfl, (isObject_iff_lowered {} rfl ?_).1 rfl, rfl,
    (isObject_iff_lowered {} rfl ?_).1 rfl, rfl⟩
  · rintro n ⟨⟩
    decide
  · rintro n ⟨⟩
    decide

/-- A pointer to a Core Foundation reference counts as an object, but it is lowered to a pointer. -/
theorem value_pointer_counts_as_object : ∃ t : DeclaredType,
    t = .pointer (.named "CFStringRef") ∧ isObject t = true ∧
    (lower {} t).type = .unspecified (.generic "UnsafeMutablePointer" [.named "CFStringRef"]) :=
  ⟨_, rfl, by decide, rfl⟩

end Lowering

end HeaderBridge
