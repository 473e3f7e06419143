/-! # Declared types

A declared type is a type as an Objective-C header spells it: named types,
object references with protocols, lightweight generics, pointers, blocks and
arrays, with layers of specifiers and qualifiers at any level.
-/

namespace HeaderBridge

/-- Types as headers declare them. -/
inductive DeclaredType where
  | void
  /-- A named type without arguments: a class, a structure, a C scalar. -/
  | named (name : String)
  /-- `id`, with the protocols that it is known to adopt. -/
  | object (protocols : List String)
  | generic (name : String) (arguments : List DeclaredType)
  | pointer (pointee : DeclaredType)
  /-- Ownership words and `__kindof`, in source order. -/
  | specified (specifiers : List String) (inner : DeclaredType)
  /-- `const` and nullability words, in source order. -/
  | qualified (inner : DeclaredType) (qualifiers : List String)
  | block (name : Option String) (result : DeclaredType) (parameters : List DeclaredType)
  | array (element : DeclaredType) (length : String)
  deriving Inhabited

inductive ArcQualifier where
  | strong | weak | unsafeUnretained | autoreleasing | block
  deriving DecidableEq

def ArcQualifier.ofSpelling? : String → Option ArcQualifier
  | "__strong" => some .strong
  | "__weak" => some .weak
  | "__unsafe_unretained" => some .unsafeUnretained
  | "__autoreleasing" => some .autoreleasing
  | "__block" => some .block
  | _ => none

inductive Nullability where
  | nonnull | nullable | unspecified | resettable
  deriving DecidableEq

/-- The nullability words, each with up to three spellings. -/
def Nullability.ofSpelling? : String → Option Nullability
  | "nonnull" | "_Nonnull" | "__nonnull" => some .nonnull
  | "nullable" | "_Nullable" | "__nullable" => some .nullable
  | "null_unspecified" | "_Null_unspecified" | "__null_unspecified" => some .unspecified
  | "null_resettable" => some .resettable
  | _ => none

namespace DeclaredType

/-! ### Equality -/

mutual

def same : DeclaredType → DeclaredType → Bool
  | void, void => true
  | named a, named b => a == b
  | object ps, object qs => ps == qs
  | generic a ts, generic b us => a == b && sameAll ts us
  | pointer t, pointer u => same t u
  | specified ss t, specified rs u => ss == rs && same t u
  | qualified t qs, qualified u rs => same t u && qs == rs
  | block a t ts, block b u us => a == b && same t u && sameAll ts us
  | array t l, array u k => same t u && l == k
  | _, _ => false

def sameAll : List DeclaredType → List DeclaredType → Bool
  | [], [] => true
  | t :: ts, u :: us => same t u && sameAll ts us
  | _, _ => false

end

mutual

theorem same_iff : ∀ t u : DeclaredType, same t u = true ↔ t = u
  | void, u => by cases u <;> simp [same]
  | named _, u => by cases u <;> simp [same]
  | object _, u => by cases u <;> simp [same]
  | generic _ ts, u => by cases u <;> simp [same, sameAll_iff ts]
  | pointer t, u => by cases u <;> simp [same, same_iff t]
  | specified _ t, u => by cases u <;> simp [same, same_iff t]
  | qualified t _, u => by cases u <;> simp [same, same_iff t]
  | block _ t ts, u => by cases u <;> simp [same, same_iff t, sameAll_iff ts, and_assoc]
  | array t _, u => by cases u <;> simp [same, same_iff t]

theorem sameAll_iff : ∀ ts us : List DeclaredType, sameAll ts us = true ↔ ts = us
  | [], us => by cases us <;> simp [sameAll]
  | t :: ts, us => by cases us <;> simp [sameAll, same_iff t, sameAll_iff ts]

end

instance : DecidableEq DeclaredType := fun t u =>
  decidable_of_iff (same t u = true) (same_iff t u)

/-! ### Layers -/

/-- The type below its outer specifiers and qualifiers. -/
def unqualified : DeclaredType → DeclaredType
  | specified _ t => t.unqualified
  | qualified t _ => t.unqualified
  | t => t

/-- The specifiers of the outer layers, from the outside in. -/
def outerSpecifiers : DeclaredType → List String
  | specified ss t => ss ++ t.outerSpecifiers
  | qualified t _ => t.outerSpecifiers
  | _ => []

/-- The qualifiers of the outer layers, from the outside in. -/
def outerQualifiers : DeclaredType → List String
  | specified _ t => t.outerQualifiers
  | qualified t qs => qs ++ t.outerQualifiers
  | _ => []

/-- The ownership words that apply to the declared entity itself. -/
def arcQualifiers (t : DeclaredType) : List ArcQualifier :=
  t.outerSpecifiers.filterMap ArcQualifier.ofSpelling?

/-- The first nullability word of the outer layers. -/
def nullability (t : DeclaredType) : Option Nullability :=
  t.outerQualifiers.findSome? Nullability.ofSpelling?

/-- Whether the declared entity itself is constant. -/
def isConst (t : DeclaredType) : Bool :=
  t.outerQualifiers.contains "const"

/-! ### What a type is made of -/

def pointerDepth : DeclaredType → Nat
  | specified _ t => t.pointerDepth
  | qualified t _ => t.pointerDepth
  | pointer t => t.pointerDepth + 1
  | _ => 0

def pointee (t : DeclaredType) : Option DeclaredType :=
  match t.unqualified with
  | pointer p => some p
  | _ => none

def baseName : DeclaredType → Option String
  | void => some "void"
  | named n => some n
  | object _ => some "id"
  | generic n _ => some n
  | pointer t => t.baseName
  | specified _ t => t.baseName
  | qualified t _ => t.baseName
  | array t _ => t.baseName
  | block _ _ _ => none

/-- The arguments of the generic type below pointers and qualifiers. -/
def genericArguments : DeclaredType → List DeclaredType
  | generic _ ts => ts
  | pointer t => t.genericArguments
  | specified _ t => t.genericArguments
  | qualified t _ => t.genericArguments
  | _ => []

/-! ### Adding layers -/

def qualify (t : DeclaredType) : List String → DeclaredType
  | [] => t
  | qs => qualified t qs

def specify (t : DeclaredType) : List String → DeclaredType
  | [] => t
  | ss => specified ss t

end DeclaredType

end HeaderBridge
