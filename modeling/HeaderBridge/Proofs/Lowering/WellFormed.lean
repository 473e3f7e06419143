import HeaderBridge.Proofs.DeclaredType.Written
import HeaderBridge.Proofs.Lowering.Optionality

/-! # Lowered types are well formed

A Swift type is well formed if no optional is wrapped in another one, tuples and
compositions have the number of parts that they may have, generic types have
arguments, and function types have no attributes. Every type that is read is lowered
to a well-formed one. That compositions have two parts hangs on what can be read: an
argument of a class is never a block, so that it has a name to go into a composition.
-/

namespace HeaderBridge

/-! ### Well-formed types -/

mutual

def Nominal.isWellFormed : Nominal → Bool
  | .plain _ => true
  | .generic _ ts => !ts.isEmpty && SwiftType.allWellFormed ts

def Nominal.allWellFormed : List Nominal → Bool
  | [] => true
  | n :: ns => n.isWellFormed && Nominal.allWellFormed ns

def Component.isWellFormed : Component → Bool
  | .nominal t => t.isWellFormed
  | .nested a b rest => a.isWellFormed && b.isWellFormed && Nominal.allWellFormed rest

def Component.allWellFormed : List Component → Bool
  | [] => true
  | c :: cs => c.isWellFormed && Component.allWellFormed cs

def SwiftType.isWellFormed : SwiftType → Bool
  | .nominal t => t.isWellFormed
  | .nested a b rest => a.isWellFormed && b.isWellFormed && Nominal.allWellFormed rest
  | .optional t | .implicitlyUnwrapped t | .unspecified t => !t.isOptionalLike && t.isWellFormed
  | .metatype t => t.isWellFormed
  | .void => true
  | .tuple ts => 2 ≤ ts.length && ts.length ≤ 64 && SwiftType.allWellFormed ts
  | .block r ps as => as = .empty && r.isWellFormed && SwiftType.allWellFormed ps
  | .composition cs => 2 ≤ cs.length && Component.allWellFormed cs

def SwiftType.allWellFormed : List SwiftType → Bool
  | [] => true
  | t :: ts => t.isWellFormed && SwiftType.allWellFormed ts

end

namespace SwiftType

theorem allWellFormed_iff {ts : List SwiftType} :
    allWellFormed ts = true ↔ ∀ t ∈ ts, t.isWellFormed = true := by
  induction ts with
  | nil => simp [allWellFormed]
  | cons t ts ih => simp [allWellFormed, ih]

theorem isWellFormed_generic {name : String} {ts : List SwiftType} (hne : ts ≠ [])
    (h : ∀ t ∈ ts, t.isWellFormed = true) : (generic name ts).isWellFormed = true := by
  simp [generic, isWellFormed, Nominal.isWellFormed, hne, allWellFormed_iff.mpr h]

theorem isWellFormed_unwrapped {t : SwiftType} (h : t.isWellFormed = true) :
    t.unwrapped.isWellFormed = true := by
  cases t with
  | optional t | implicitlyUnwrapped t | unspecified t =>
    rw [isWellFormed, Bool.and_eq_true] at h
    exact h.2
  | _ => exact h

end SwiftType

/-! ### Names at the bottom of types -/

namespace DeclaredType

theorem baseName_wrap (a : Adornment) (t : DeclaredType) : (a.wrap t).baseName = t.baseName := by
  rcases a with ⟨_ | ⟨_, _⟩, _ | ⟨_, _⟩⟩ <;> rfl

theorem qualify_eq_wrap (t : DeclaredType) (qs : List String) :
    t.qualify qs = Adornment.wrap ⟨[], qs⟩ t :=
  rfl

theorem Written.baseName_isSome {stage : Stage} {t : DeclaredType} (h : Written stage t)
    (hstage : stage ≠ .declared) : t.baseName.isSome = true := by
  induction h with
  | void | name _ | scalar _ _ | object _ | arguments _ _ _ _ => rfl
  | qualify _ _ ih =>
    rw [qualify_eq_wrap, baseName_wrap]
    exact ih (by simp)
  | star _ _ _ ih | argument _ _ ih =>
    rw [baseName_wrap]
    exact ih (by simp)
  | ofQualified _ ih | ofPointer _ ih | array _ _ _ ih => exact ih (by simp)
  | declared _ _ _ | block _ _ _ _ _ _ _ => exact absurd rfl hstage

end DeclaredType

namespace Lowering

open DeclaredType

/-! ### Leaves -/

theorem isWellFormed_composition (ps : List String) (h : 2 ≤ ps.length) :
    (SwiftType.composition (ps.map fun p => .nominal (.plain p))).isWellFormed = true := by
  have hcomponents : Component.allWellFormed (ps.map fun p => .nominal (.plain p)) = true := by
    clear h
    induction ps with
    | nil => rfl
    | cons p ps ih =>
      rw [List.map_cons, Component.allWellFormed, ih]
      rfl
  simp [SwiftType.isWellFormed, hcomponents, h]

theorem isWellFormed_protocolType (ps : List String) : (protocolType ps).isWellFormed = true := by
  rcases ps with _ | ⟨p, _ | ⟨q, ps⟩⟩
  · rfl
  · rfl
  · have h := isWellFormed_composition ((p :: q :: ps).map protocolName) (by simp)
    rwa [List.map_map] at h

theorem isWellFormed_namedType (s : Setting) (name : String) :
    (namedType s name).isWellFormed = true := by
  have hscalars : ∀ x ∈ scalars, x.2.isWellFormed = true := by decide
  unfold namedType
  repeat' split
  · rfl
  · rfl
  · rfl
  · exact hscalars _ (mem_of_lookup ‹_›)
  · rfl
  · rfl

theorem isWellFormed_objectWithProtocols {ts : List DeclaredType} {t : DeclaredType} (ht : t ∈ ts)
    (hname : t.baseName.isSome = true) : (objectWithProtocols ts).isWellFormed = true := by
  obtain ⟨p, hp⟩ := Option.isSome_iff_exists.mp hname
  have hmem : p ∈ ts.filterMap baseName := List.mem_filterMap.mpr ⟨t, ht, hp⟩
  have h := isWellFormed_composition ("NSObject" :: (ts.filterMap baseName).map protocolName)
    (Nat.succ_le_succ (List.length_pos_of_mem (List.mem_map_of_mem hmem)))
  rwa [List.map_cons, List.map_map, List.map_filterMap] at h

theorem isWellFormed_objectType {name : String} {ts : List DeclaredType} {us : List SwiftType}
    (hts : us ≠ [] → ∃ t ∈ ts, t.baseName.isSome = true) (hus : ∀ u ∈ us, u.isWellFormed = true) :
    (objectType name ts us).isWellFormed = true := by
  rcases objectType_cases name ts us with ⟨n, h⟩ | ⟨hne, h | ⟨n, h⟩⟩ <;> rw [h]
  · rfl
  · obtain ⟨t, ht, hname⟩ := hts hne
    exact isWellFormed_objectWithProtocols ht hname
  · exact SwiftType.isWellFormed_generic hne hus

theorem isWellFormed_arrayType {t : SwiftType} (h : t.isWellFormed = true) (length : String) :
    (arrayType t length).isWellFormed = true := by
  have hpointer : (SwiftType.generic "UnsafeMutablePointer" [t]).isWellFormed = true :=
    SwiftType.isWellFormed_generic (by simp) (by simpa using h)
  unfold arrayType
  split
  · split
    · exact h
    · split
      · next n _ _ hn =>
        have hall : SwiftType.allWellFormed (List.replicate n t) = true :=
          SwiftType.allWellFormed_iff.mpr fun u hu => by rw [List.eq_of_mem_replicate hu, h]
        have hn : 2 ≤ n ∧ n ≤ 64 := hn
        simp [SwiftType.isWellFormed, hall, hn]
      · exact hpointer
  · exact hpointer

/-! ### References -/

variable (s : Setting)

theorem isWellFormed_applyNullability {c : SwiftType} (hc : c.isWellFormed = true)
    (hwrapper : c.isOptionalLike = false) (audited : Bool) (n : Option Nullability) :
    (applyNullability c audited n).isWellFormed = true := by
  have hwrapped : (!c.isOptionalLike && c.isWellFormed) = true := by simp [hc, hwrapper]
  rcases n with _ | n
  · rw [applyNullability]
    split
    · exact hc
    · exact hwrapped
  · cases n with
    | nonnull => exact hc
    | _ => exact hwrapped

theorem isWellFormed_finish {t : DeclaredType} (h : (core s t).isWellFormed = true)
    (n : Option Nullability) : (finish s n t (core s t)).isWellFormed = true := by
  rw [finish]
  split
  · exact isWellFormed_applyNullability h (isOptionalLike_core s ‹_›) _ _
  · exact h

theorem isWellFormed_pointerType {p : DeclaredType} (h : (core s p).isWellFormed = true) :
    (pointerType s p (core s p)).isWellFormed = true := by
  have hunsafe : (pointerType.unsafePointer s p (core s p)).isWellFormed = true :=
    SwiftType.isWellFormed_generic (by simp) (by simpa using isWellFormed_finish s h none)
  have hobject : (core s p).isOptionalLike = false → (SwiftType.generic
      "AutoreleasingUnsafeMutablePointer"
        [applyNullability (core s p) false (p.nullability.or (some .nullable))]).isWellFormed =
          true :=
    fun hwrapper => SwiftType.isWellFormed_generic (by simp)
      (by simpa using isWellFormed_applyNullability h hwrapper _ _)
  unfold pointerType
  split
  · rfl
  · next hp =>
    split
    · exact hobject (isOptionalLike_core s (by rw [isReference, hp]))
    · exact hunsafe
  · next hp =>
    split
    · exact hobject (isOptionalLike_core s (by rw [isReference, hp]))
    · exact hunsafe
  · exact hunsafe

/-! ### Lowering -/

theorem core_wrap (a : Adornment) (t : DeclaredType) : core s (a.wrap t) = core s t := by
  rcases a with ⟨_ | ⟨_, _⟩, _ | ⟨_, _⟩⟩ <;> simp only [Adornment.wrap, qualify, specify, core]

theorem classBehind_wrap (a : Adornment) (t : DeclaredType) :
    classBehind s (a.wrap t) = classBehind s t := by
  rcases a with ⟨_ | ⟨_, _⟩, _ | ⟨_, _⟩⟩ <;> simp only [Adornment.wrap, qualify, specify,
    classBehind]

/-- Whether a type is lowered to well-formed types, also as what a pointer points to. -/
def LowersWell (t : DeclaredType) : Prop :=
  (core s t).isWellFormed = true ∧ ∀ u, classBehind s t = some u → u.isWellFormed = true

variable {s}

theorem LowersWell.wrap {t : DeclaredType} (h : LowersWell s t) (a : Adornment) :
    LowersWell s (a.wrap t) := by
  rw [LowersWell, core_wrap, classBehind_wrap]
  exact h

theorem LowersWell.pointer {t : DeclaredType} (h : LowersWell s t) : LowersWell s (.pointer t) := by
  refine ⟨?_, fun u hu => by simp [classBehind] at hu⟩
  rw [core]
  split
  · exact h.2 _ ‹_›
  · exact isWellFormed_pointerType s h.1

theorem LowersWell.array {t : DeclaredType} (h : LowersWell s t) (l : String) :
    LowersWell s (.array t l) := by
  refine ⟨?_, fun u hu => by simp [classBehind] at hu⟩
  rw [core]
  exact isWellFormed_arrayType (isWellFormed_finish s h.1 none) l

theorem lowerArguments_eq_map (s : Setting) (ts : List DeclaredType) : lowerArguments s ts =
    ts.map fun t => finish s (t.nullability.or (some .nonnull)) t (core s t) := by
  induction ts with
  | nil => rfl
  | cons t ts ih => rw [lowerArguments, ih, List.map_cons]

theorem lowerParameters_eq_map (s : Setting) (ts : List DeclaredType) :
    lowerParameters s ts = ts.map fun t => finish s none t (core s t) := by
  induction ts with
  | nil => rfl
  | cons t ts ih => rw [lowerParameters, ih, List.map_cons]

theorem LowersWell.generic {ts : List DeclaredType} (h : ∀ t ∈ ts, LowersWell s t)
    (hname : ∀ t ∈ ts, t.baseName.isSome = true) (n : String) : LowersWell s (.generic n ts) := by
  have hobject : (objectType n ts (lowerArguments s ts)).isWellFormed = true := by
    rw [lowerArguments_eq_map]
    refine isWellFormed_objectType (fun hne => ?_) fun u hu => ?_
    · obtain ⟨t, ht⟩ := List.exists_mem_of_ne_nil ts (by simpa using hne)
      exact ⟨t, ht, hname t ht⟩
    · obtain ⟨t, ht, rfl⟩ := List.mem_map.mp hu
      exact isWellFormed_finish s (h t ht).1 _
  constructor
  · rw [core]
    split
    · exact isWellFormed_protocolType _
    · exact hobject
  · intro u hu
    rw [classBehind] at hu
    rwa [← Option.some.inj hu]

theorem LowersWell.block {r : DeclaredType} {ps : List DeclaredType} (hr : LowersWell s r)
    (hps : ∀ p ∈ ps, LowersWell s p) (name : Option String) : LowersWell s (.block name r ps) := by
  have hparameters : SwiftType.allWellFormed (lowerParameters s ps) = true := by
    rw [lowerParameters_eq_map, SwiftType.allWellFormed_iff]
    intro u hu
    obtain ⟨p, hp, rfl⟩ := List.mem_map.mp hu
    exact isWellFormed_finish s (hps p hp).1 none
  refine ⟨?_, fun u hu => by simp [classBehind] at hu⟩
  rw [core, SwiftType.function, SwiftType.isWellFormed, isWellFormed_finish s hr.1, hparameters]
  rfl

theorem lowersWell_named (n : String) : LowersWell s (.named n) := by
  refine ⟨isWellFormed_namedType s n, fun u hu => ?_⟩
  rw [classBehind, Option.ite_none_left_eq_some] at hu
  obtain rfl := Option.some.inj hu.2
  exact isWellFormed_objectType (by simp) (by simp)

/-- Every type that is read is lowered to well-formed types. -/
theorem lowersWell_of_written {stage : Stage} {t : DeclaredType} (h : Written stage t) :
    LowersWell s t := by
  induction h with
  | void => exact ⟨rfl, by simp [classBehind]⟩
  | name _ | scalar _ _ => exact lowersWell_named _
  | object _ => exact ⟨isWellFormed_protocolType _, by simp [classBehind]⟩
  | arguments _ _ hts ih => exact .generic ih (fun t ht => (hts t ht).baseName_isSome (by simp)) _
  | qualify _ _ ih => exact ih.wrap ⟨[], _⟩
  | ofQualified _ ih | ofPointer _ ih => exact ih
  | star _ _ _ ih => exact ih.pointer.wrap _
  | argument _ _ ih | declared _ _ ih => exact ih.wrap _
  | array _ _ _ ih => exact ih.array _
  | block _ _ _ _ _ ihr ihps => exact ((LowersWell.block ihr ihps _).wrap ⟨[], _⟩).wrap _

/-- A type that is read from a spelling is lowered to a well-formed type, whatever the place of its
declaration, and to an optional if the reference is weak. -/
theorem isWellFormed_lower {spelling : String} {t : DeclaredType}
    (h : DeclaredType.read spelling = some t) (ctx : Context) :
    (lower ctx t).type.isWellFormed = true ∧
      ((lower ctx t).ownership = some .weak → ∃ u, (lower ctx t).type = .optional u) := by
  have hcore := (lowersWell_of_written (s := ctx.toSetting) (written_of_readWithin h)).1
  have htype : (swiftType ctx t).isWellFormed = true := isWellFormed_finish _ hcore _
  have hwrapper := isOptionalLike_unwrapped_swiftType ctx t
  have hoptional : (swiftType ctx t).toOptional.isWellFormed = true := by
    simp [SwiftType.toOptional, SwiftType.isWellFormed, hwrapper,
      SwiftType.isWellFormed_unwrapped htype]
  constructor
  · simp only [lower]
    split
    · exact hoptional
    · exact htype
  · intro hweak
    have hweak : (t.arcQualifiers.findSome? Ownership.ofArcQualifier?).or ctx.ownership =
      some .weak := hweak
    simp only [lower, if_pos hweak]
    exact ⟨_, rfl⟩

-- no spelling puts a block among the arguments of a class
example : (core {} (.generic "NSObject" [.block none .void []])).isWellFormed = false := rfl

/-- A weak array of one element takes over the wrapper of its element, and two protocols go into a
composition with their class. -/
theorem isWellFormed_lower_weak : ∃ t,
    DeclaredType.read "__weak NSObject<A, B> *[1]" = some t ∧
    (lower {} t).type = .optional
    (.composition [.nominal (.plain "NSObject"), .nominal (.plain "A"),
      .nominal (.plain "B")]) ∧
    (lower {} t).type.isWellFormed = true ∧
      ((lower {} t).ownership = some .weak → ∃ u, (lower {} t).type = .optional u) := by
  have hread : DeclaredType.read "__weak NSObject<A, B> *[1]" = some (specified ["__weak"]
      (array (pointer (generic "NSObject" [named "A", named "B"])) "1")) := by decide +kernel
  exact ⟨_, hread, rfl, isWellFormed_lower hread {}⟩

end Lowering

end HeaderBridge
