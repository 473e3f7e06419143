import HeaderBridge.Declaration.Basic
import HeaderBridge.Outline.Basic

/-! # The declarations of an outline

The outline of a header is read in source order. The audit markers switch the
treatment of nullability for all that follows them, `@optional` and `@required`
for the members of one protocol, and the access words for the instance variables
of one list.
-/

namespace HeaderBridge

namespace Outline

def typeIn? (o : Outline) (id : Nat) : Option DeclaredType :=
  match (o.childWith? id .typeName).bind o.kindOf? with
  | some (.typeName t) => some t
  | _ => none

def textOf? (o : Outline) (id : Nat) : Option String := (o.kindOf? id).bind Kind.text?

def identifierIn? (o : Outline) (id : Nat) : Option String :=
  (o.childWith? id .identifier).bind o.textOf?

def nullabilityIn? (o : Outline) (id : Nat) : Option Nullability :=
  ((o.childrenWith id .nullability).filterMap o.textOf?).findSome? Nullability.ofSpelling?

def modifiersIn (o : Outline) (id : Nat) : List Modifier :=
  match o.childWith? id .modifierList with
  | none => []
  | some list => (o.childrenWith list .modifier).filterMap fun m =>
    match o.kindOf? m with
    | some (.modifier entry) => some entry
    | _ => none

end Outline

namespace Outline.Modifier

def word? : Modifier → Option String
  | keyword w => some w
  | _ => none

def getter? : Modifier → Option String
  | getter n => some n
  | _ => none

def setter? : Modifier → Option String
  | setter n => some n
  | _ => none

end Outline.Modifier

namespace Declaration

open Outline (Kind Keyword Slot)

structure Policy where
  /-- Treat the whole header as audited. -/
  assumeNonnull : Bool := false
  /-- Mark members as visible to Objective-C. -/
  emitAttributes : Bool := false

/-- Where the members of a type are read: for which owner, and whether audited. -/
structure Place where
  policy : Policy
  owner : String
  audited : Bool

namespace Place

/-- How types are lowered here. -/
def context (p : Place) : Lowering.Context :=
  { audited := p.policy.assumeNonnull || p.audited, instanceType := some p.owner }

def member (p : Place) (access : AccessLevel) (id : Nat) : Member :=
  { owner := p.owner, access, source := some id,
    attributes := if p.policy.emitAttributes then ["@objc"] else [] }

end Place

def auditedAfter (audited : Bool) : Keyword → Bool
  | .auditBegin => true
  | .auditEnd => false
  | _ => audited

/-! ### Instance variables -/

def accessAfter (access : AccessLevel) : Keyword → AccessLevel
  | .atPrivate | .atProtected => .privateAccess
  | .atPackage => .internalAccess
  | .atPublic => .publicAccess
  | _ => access

def ivarOf? (o : Outline) (p : Place) (access : AccessLevel) (id : Nat) : Option Ivar := do
  let type ← o.typeIn? id
  let name ← o.identifierIn? id
  return { member := p.member access id, name, storage := Lowering.lower p.context type }

def ivarsOf (o : Outline) (p : Place) (access : AccessLevel) : List Nat → List Ivar
  | [] => []
  | id :: ids =>
    match o.kindOf? id with
    | some (.keyword k) => ivarsOf o p (accessAfter access k) ids
    | some .ivar => (ivarOf? o p access id).toList ++ ivarsOf o p access ids
    | _ => ivarsOf o p access ids

/-! ### Properties -/

/-- A property whose name and type are known. Its getter's name wins over its own;
its attributes give nullability and, for objects, ownership. -/
def propertyOf? (o : Outline) (p : Place) (isOptional : Bool) (id : Nat) : Option Property := do
  let name ← o.identifierIn? id
  let type ← o.typeIn? id
  let modifiers := o.modifiersIn id
  let words := modifiers.filterMap Outline.Modifier.word?
  let getter := modifiers.findSome? Outline.Modifier.getter?
  let setter := modifiers.findSome? Outline.Modifier.setter?
  let context := { p.context with
    nullability := words.findSome? Nullability.ofSpelling?
    ownership :=
      if Lowering.isObject type then words.findSome? Ownership.ofPropertyAttribute? else none }
  return {
    member := { p.member .internalAccess id with
      isStatic := words.contains "class"
      annotations :=
        (getter.map fun _ => "Objective-C property '" ++ name ++ "'").toList
          ++ (setter.map fun s => "Objective-C setter '" ++ s ++ ":'").toList }
    name := getter.getD name
    storage := Lowering.lower context type
    isReadonly := words.contains "readonly"
    isOptional, getter, setter }

/-! ### Methods -/

/-- The type of what is not annotated. -/
def defaultType : DeclaredType := .object []

structure Piece where
  label : Option String
  name : String
  type : Option DeclaredType
  nullability : Option Nullability

def pieceOf? (o : Outline) (id : Nat) : Option Piece :=
  let methodType := o.childWith? id .methodType
  let type := methodType.bind o.typeIn?
  let nullability := methodType.bind o.nullabilityIn?
  match (o.childrenWith id .identifier).filterMap o.textOf? with
  | [label, name] => some { label := some label, name, type, nullability }
  | [name] => some { label := none, name, type, nullability }
  | _ => none

def afterStart? (start s : String) : Option (List Char) :=
  if start.toList.isPrefixOf s.toList then some (s.toList.drop start.toList.length) else none

/-- Whether a name is `init`, alone or followed by a capital letter. -/
def isInitName (name : String) : Bool :=
  match afterStart? "init" name with
  | none => false
  | some [] => true
  | some (c :: _) => c.isUpper

/-- The label that an initializer's name gives to its first argument. -/
def initializerLabel? (name : String) : Option String :=
  match afterStart? "initWith" name with
  | some (c :: cs) => some (.ofList (c.toLower :: cs))
  | _ => none

/-- Whether a type stands for an instance of the owner. -/
def returnsInstance (owner : String) (t : DeclaredType) : Bool :=
  match t.unqualified with
  | .named n => n = "instancetype"
  | .object ps => ps.isEmpty
  | .pointer u => u.baseName = some owner
  | _ => false

/-- The parameter of a piece. A function that is passed in may be kept. -/
def parameterOf (p : Place) (piece : Piece) (label : Option String) : Parameter :=
  let type := Lowering.swiftType { p.context with nullability := piece.nullability }
    (piece.type.getD defaultType)
  { label, name := piece.name, type := type.addAttribute .escaping }

def parametersOf (p : Place) (first : Option String) : List Piece → List Parameter
  | [] => []
  | piece :: pieces =>
    parameterOf p piece first :: pieces.map fun q => parameterOf p q q.label

/-- The name of a method and its selector: a single word, or pieces of which the
first has a name. -/
def nameAndSelector? (unary : Option String) (pieces : List Piece) : Option (String × String) :=
  match unary, pieces with
  | some name, _ => some (name, name)
  | none, { label := some first, .. } :: _ =>
    some (first, String.join (pieces.map fun piece => piece.label.getD "" ++ ":"))
  | none, _ => none

def methodOf? (o : Outline) (p : Place) (isOptional isClassMethod : Bool) (id : Nat) :
    Option Method := do
  let selectorNode ← o.childWith? id .selector
  let pieces := (o.childrenWith selectorNode .keywordDeclarator).filterMap (pieceOf? o)
  let (name, selector) ← nameAndSelector? (o.identifierIn? selectorNode) pieces
  let methodType := o.childWith? id .methodType
  let result := (methodType.bind o.typeIn?).getD defaultType
  let isInitializer := !isClassMethod && isInitName name && returnsInstance p.owner result
  let signature :=
    if isInitializer then
      { name := "init", parameters := parametersOf p (initializerLabel? name) pieces,
        result := .void, isInitializer }
    else
      { name, parameters := parametersOf p none pieces,
        result := Lowering.swiftType
          { p.context with nullability := methodType.bind o.nullabilityIn? } result,
        isInitializer }
  return {
    member := { p.member .internalAccess id with isStatic := isClassMethod }
    signature, selector, isOptional }

/-! ### Types -/

def protocolsIn (o : Outline) (list : Nat) : List String :=
  ((o.childrenWith list .protocolName).filterMap o.textOf?).map Lowering.protocolName

/-- A type declaration in the making. -/
structure Gathering where
  declaration : TypeDeclaration
  audited : Bool
  /-- Members are not insisted on. -/
  optionalSection : Bool := false

/-- What one node adds to the declaration around it. -/
def addMember (o : Outline) (policy : Policy) (s : Gathering) (id : Nat) : Gathering :=
  let d := s.declaration
  let place : Place := { policy, owner := d.name, audited := s.audited }
  match o.kindOf? id with
  | some (.superclassName n) => { s with declaration := { d with superclass := some n } }
  | some .protocolList =>
    { s with declaration := { d with protocols := d.protocols ++ protocolsIn o id } }
  | some .ivarList =>
    { s with declaration :=
      { d with ivars := d.ivars ++ ivarsOf o place .privateAccess (o.childrenOf id) } }
  | some .property =>
    { s with declaration :=
      { d with properties := d.properties ++ (propertyOf? o place s.optionalSection id).toList } }
  | some (.method isClassMethod) =>
    { s with declaration :=
      { d with methods :=
        d.methods ++ (methodOf? o place s.optionalSection isClassMethod id).toList } }
  | some (.keyword .atOptional) => { s with optionalSection := d.isProtocol }
  | some (.keyword .atRequired) => { s with optionalSection := false }
  | some (.keyword k) => { s with audited := auditedAfter s.audited k }
  | _ => s

/-- The declaration of a node, if its name is known, and whether the header is
audited behind it. -/
def typeOf (o : Outline) (policy : Policy) (audited : Bool) (id : Nat) (slot : Slot)
    (kind : TypeKind) : List TypeDeclaration × Bool :=
  match slot with
  | .invalid _ => ([], audited)
  | .valid name =>
    let s := (o.childrenOf id).foldl (addMember o policy)
      { declaration := { kind, name, source := some id }, audited }
    ([s.declaration], s.audited)

/-- What one node of the header adds to the declarations before it. -/
def addType (o : Outline) (policy : Policy) (s : List TypeDeclaration × Bool) (id : Nat) :
    List TypeDeclaration × Bool :=
  let (ds, audited) := s
  let add (slot : Slot) (kind : TypeKind) :=
    let (new, audited) := typeOf o policy audited id slot kind
    (ds ++ new, audited)
  match o.kindOf? id with
  | some (.keyword k) => (ds, auditedAfter audited k)
  | some (.classInterface slot) => add slot .classType
  | some (.categoryInterface slot) =>
    add slot (.extensionType ((o.childWith? id .categoryName).bind o.textOf?))
  | some (.protocolDeclaration slot) => add slot .protocolType
  | _ => s

def ofOutline (policy : Policy) (o : Outline) : List TypeDeclaration :=
  ((o.childrenOf Outline.root).foldl (addType o policy) ([], false)).1

end Declaration

end HeaderBridge
