import HeaderBridge.DeclaredType.Basic
import HeaderBridge.Lowering.Names

/-! # Lowering declared types

How a declared type is imported into Swift: scalars and bridged classes change
their names, lightweight generics become generics, pointers become objects or
unsafe pointers, and nullability decides about optionality. Ownership has no
place in a Swift type and is carried next to it.
-/

namespace HeaderBridge

inductive Ownership where
  | strong | weak | unownedUnsafe | autoreleasing
  deriving DecidableEq

namespace Ownership

def ofArcQualifier? : ArcQualifier → Option Ownership
  | .strong => some strong
  | .weak => some weak
  | .unsafeUnretained => some unownedUnsafe
  | .autoreleasing => some autoreleasing
  | .block => none

def ofPropertyAttribute? : String → Option Ownership
  | "weak" => some weak
  | "assign" | "unsafe_unretained" => some unownedUnsafe
  | "strong" | "retain" | "copy" => some strong
  | _ => none

/-- The modifier that is written in front of the declaration. -/
def modifier : Ownership → Option String
  | weak => some "weak"
  | unownedUnsafe => some "unowned(unsafe)"
  | strong | autoreleasing => none

end Ownership

namespace Lowering

/-- What holds for a type and for all types inside it. -/
structure Setting where
  /-- References are not null unless said otherwise. -/
  audited : Bool := false
  /-- What stands for `instancetype`. -/
  instanceType : Option String := none

/-- The place of a declaration, as far as it decides about the type. -/
structure Context extends Setting where
  /-- Nullability written outside the type; it wins over the type's own. -/
  nullability : Option Nullability := none
  /-- Ownership written outside the type; the type's own wins over it. -/
  ownership : Option Ownership := none

structure Lowered where
  type : SwiftType
  ownership : Option Ownership

/-- The largest number of elements that an array may have to become a tuple. -/
def maxTupleLength : Nat := 64

/-! ### Leaves -/

def applyNullability (t : SwiftType) (audited : Bool) : Option Nullability → SwiftType
  | some .nonnull => t
  | some .nullable => .optional t
  | some .resettable => .implicitlyUnwrapped t
  | some .unspecified => .unspecified t
  | none => if audited then t else .unspecified t

def protocolType : List String → SwiftType
  | [] => .named "AnyObject"
  | [p] => .named (protocolName p)
  | ps => .composition (ps.map fun p => .nominal (.plain (protocolName p)))

def namedType (s : Setting) (name : String) : SwiftType :=
  if name = "instancetype" then .named (s.instanceType.getD "Self")
  else if name = "SEL" then .named "Selector"
  else if name = "Class" then .named "AnyClass"
  else
    match scalars.lookup name, memberTypes.lookup name with
    | some t, _ => t
    | none, some (outer, member) => .nested (.plain outer) (.plain member) []
    | none, none => .named name

/-- `NSObject` together with the protocols that it adopts. -/
def objectWithProtocols (arguments : List DeclaredType) : SwiftType :=
  .composition (.nominal (.plain "NSObject") :: arguments.filterMap fun t =>
    t.baseName.map fun p => .nominal (.plain (protocolName p)))

/-- An object of the named class, given its arguments and their lowered types. -/
def objectType (name : String) (arguments : List DeclaredType) (lowered : List SwiftType) :
    SwiftType :=
  if bareCollections.contains name then .named name
  else
    match lowered with
    | [] => .named (className name)
    | [t] =>
      if name = "NSArray" then .array t
      else if name = "NSSet" then .generic "Set" [t]
      else if name = "NSObject" then objectWithProtocols arguments
      else .generic name [t]
    | [k, v] =>
      if name = "NSDictionary" then .dictionary k v
      else if name = "NSObject" then objectWithProtocols arguments
      else .generic name [k, v]
    | ts => if name = "NSObject" then objectWithProtocols arguments else .generic name ts

/-- The number that an array length spells: ASCII digits behind an optional plus. -/
def readLength? (length : String) : Option Nat :=
  let digits := match length.toList with
    | '+' :: ds => ds
    | ds => ds
  if digits.isEmpty || !digits.all Char.isDigit then none
  else some (digits.foldl (fun n d => n * 10 + (d.toNat - '0'.toNat)) 0)

/-- An array of known length is a tuple unless it is too long; any other is a
pointer to its elements. -/
def arrayType (element : SwiftType) (length : String) : SwiftType :=
  match readLength? length with
  | some n =>
    if n = 1 then element
    else if 1 < n ∧ n ≤ maxTupleLength then .tuple (List.replicate n element)
    else .generic "UnsafeMutablePointer" [element]
  | none => .generic "UnsafeMutablePointer" [element]

/-! ### References -/

def isObject (t : DeclaredType) : Bool :=
  match t.unqualified with
  | .object _ | .block _ _ _ => true
  | .named n => n = "instancetype" || n = "Class"
  | .generic n _ => n = "Class"
  | .pointer p =>
    match p.unqualified with
    | .named n => !isScalar n
    | .generic _ _ => true
    | _ => false
  | _ => false

def isReference (t : DeclaredType) : Bool :=
  match t.unqualified with
  | .pointer _ | .object _ | .block _ _ _ => true
  | .named n => n = "instancetype" || n = "Class" || n = "SEL"
  | .generic n _ => n = "Class"
  | _ => false

/-- Decide the optionality of a type that lowers to `core`, given the nullability
written outside it. -/
def finish (s : Setting) (external : Option Nullability) (t : DeclaredType)
    (core : SwiftType) : SwiftType :=
  if isReference t then applyNullability core s.audited (external.or t.nullability) else core

/-- A pointer to something that is no class, where the pointee lowers to `core`. -/
def pointerType (s : Setting) (pointee : DeclaredType) (core : SwiftType) : SwiftType :=
  match pointee.unqualified with
  | .void =>
    .named (if pointee.isConst then "UnsafeRawPointer" else "UnsafeMutableRawPointer")
  | .object _ | .pointer _ =>
    if isObject pointee then
      .generic "AutoreleasingUnsafeMutablePointer"
        [applyNullability core false (pointee.nullability.or (some .nullable))]
    else unsafePointer
  | _ => unsafePointer
where
  /-- The pointer that gives access to the pointee as it is. -/
  unsafePointer : SwiftType :=
    .generic (if pointee.isConst then "UnsafePointer" else "UnsafeMutablePointer")
      [finish s none pointee core]

/-! ### Lowering -/

mutual

/-- The Swift type of a declared type, before its own optionality. -/
def core (s : Setting) : DeclaredType → SwiftType
  | .void => .void
  | .named n => namedType s n
  | .object ps => protocolType ps
  | .generic n ts =>
    if n = "Class" then .metatype (protocolType (ts.filterMap DeclaredType.baseName))
    else objectType n ts (lowerArguments s ts)
  | .pointer p =>
    match classBehind s p with
    | some t => t
    | none => pointerType s p (core s p)
  | .specified _ t => core s t
  | .qualified t _ => core s t
  | .block _ r ps => .function (finish s none r (core s r)) (lowerParameters s ps)
  | .array t l => arrayType (finish s none t (core s t)) l

/-- The object behind a pointer, if the pointee names a class. -/
def classBehind (s : Setting) : DeclaredType → Option SwiftType
  | .named n => if isScalar n || isValueTypedef n then none else some (objectType n [] [])
  | .generic n ts => some (objectType n ts (lowerArguments s ts))
  | .specified _ t => classBehind s t
  | .qualified t _ => classBehind s t
  | _ => none

/-- Generic arguments; they are not null unless annotated. -/
def lowerArguments (s : Setting) : List DeclaredType → List SwiftType
  | [] => []
  | t :: ts => finish s (t.nullability.or (some .nonnull)) t (core s t) :: lowerArguments s ts

def lowerParameters (s : Setting) : List DeclaredType → List SwiftType
  | [] => []
  | t :: ts => finish s none t (core s t) :: lowerParameters s ts

end

def swiftType (ctx : Context) (t : DeclaredType) : SwiftType :=
  finish ctx.toSetting ctx.nullability t (core ctx.toSetting t)

/-- The Swift type of a declaration, with its ownership. A weak reference is
always optional. -/
def lower (ctx : Context) (t : DeclaredType) : Lowered :=
  let ownership := (t.arcQualifiers.findSome? Ownership.ofArcQualifier?).or ctx.ownership
  let type := swiftType ctx t
  { type := if ownership = some .weak then type.toOptional else type
    ownership }

end Lowering

end HeaderBridge
