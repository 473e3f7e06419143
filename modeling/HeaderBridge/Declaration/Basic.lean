import HeaderBridge.Lowering.Basic

/-! # Swift declarations

The classes, extensions and protocols to be written for a header, with their
members. Each remembers the node of the outline that it comes from.
-/

namespace HeaderBridge

inductive AccessLevel where
  | privateAccess | internalAccess | publicAccess
  deriving DecidableEq

/-- The word in front of a declaration; internal access goes without saying. -/
def AccessLevel.word? : AccessLevel → Option String
  | privateAccess => some "private"
  | internalAccess => none
  | publicAccess => some "public"

structure Member where
  owner : String
  access : AccessLevel
  isStatic : Bool := false
  source : Option Nat := none
  /-- Attributes in front of the declaration. -/
  attributes : List String := []
  /-- Comments above the declaration. -/
  annotations : List String := []

structure Ivar where
  member : Member
  name : String
  storage : Lowering.Lowered

structure Property where
  member : Member
  name : String
  storage : Lowering.Lowered
  isReadonly : Bool
  /-- A protocol does not insist on it. -/
  isOptional : Bool
  getter : Option String
  setter : Option String

/-- A parameter of a function; without a label it is passed by position. -/
structure Parameter where
  label : Option String
  name : String
  type : SwiftType

structure Signature where
  name : String
  parameters : List Parameter
  result : SwiftType
  isInitializer : Bool

structure Method where
  member : Member
  signature : Signature
  selector : String
  /-- A protocol does not insist on it. -/
  isOptional : Bool

inductive TypeKind where
  | classType
  /-- More members for a class; without a category they are its own. -/
  | extensionType (category : Option String)
  | protocolType
  deriving DecidableEq

structure TypeDeclaration where
  kind : TypeKind
  name : String
  superclass : Option String := none
  protocols : List String := []
  ivars : List Ivar := []
  properties : List Property := []
  methods : List Method := []
  source : Option Nat := none

namespace TypeDeclaration

def isProtocol (d : TypeDeclaration) : Bool := d.kind = .protocolType

def isClass (d : TypeDeclaration) : Bool := d.kind = .classType

def isExtension (d : TypeDeclaration) : Bool :=
  match d.kind with
  | .extensionType _ => true
  | _ => false

def memberCount (d : TypeDeclaration) : Nat :=
  d.ivars.length + d.properties.length + d.methods.length

def propertyNamed? (d : TypeDeclaration) (name : String) : Option Property :=
  d.properties.find? (·.name = name)

def methodWith? (d : TypeDeclaration) (selector : String) : Option Method :=
  d.methods.find? (·.selector = selector)

def classNamed? (ds : List TypeDeclaration) (name : String) : Option TypeDeclaration :=
  ds.find? fun d => d.isClass && d.name = name

def protocolNamed? (ds : List TypeDeclaration) (name : String) : Option TypeDeclaration :=
  ds.find? fun d => d.isProtocol && d.name = name

def extensionsOf (ds : List TypeDeclaration) (name : String) : List TypeDeclaration :=
  ds.filter fun d => d.isExtension && d.name = name

end TypeDeclaration

end HeaderBridge
