import HeaderBridge.Proofs.Outline.Annotations

/-! # Declarations read off the parse tree

The declarations of a header can be read off its parse tree without the outline
in between: each declaration follows the parse nodes that spell it. This reading
knows no node of an outline, so its declarations do not say where they come from.
-/

namespace HeaderBridge

/-! ### Declarations without their source -/

def Member.unsourced (m : Member) : Member := { m with source := none }

def Ivar.unsourced (v : Ivar) : Ivar := { v with member := v.member.unsourced }

def Property.unsourced (p : Property) : Property := { p with member := p.member.unsourced }

def Method.unsourced (m : Method) : Method := { m with member := m.member.unsourced }

def TypeDeclaration.unsourced (d : TypeDeclaration) : TypeDeclaration :=
  { d with
    ivars := d.ivars.map Ivar.unsourced
    properties := d.properties.map Property.unsourced
    methods := d.methods.map Method.unsourced
    source := none }

namespace Declaration

open Grammar Outline

def Gathering.unsourced (s : Gathering) : Gathering :=
  { s with declaration := s.declaration.unsourced }

def Place.plainMember (p : Place) (access : AccessLevel) : Member :=
  { owner := p.owner, access, attributes := if p.policy.emitAttributes then ["@objc"] else [] }

/-! ### Members from what is known about them -/

def ivarFrom (p : Place) (member : Member) (name : String) (type : DeclaredType) : Ivar :=
  { member, name, storage := Lowering.lower p.context type }

def propertyFrom (p : Place) (member : Member) (isOptional : Bool) (name : String)
    (type : DeclaredType) (modifiers : List Modifier) : Property :=
  let words := modifiers.filterMap Modifier.word?
  let getter := modifiers.findSome? Modifier.getter?
  let setter := modifiers.findSome? Modifier.setter?
  let context := { p.context with
    nullability := words.findSome? Nullability.ofSpelling?
    ownership :=
      if Lowering.isObject type then words.findSome? Ownership.ofPropertyAttribute? else none }
  { member := { member with
      isStatic := words.contains "class"
      annotations :=
        (getter.map fun _ => "Objective-C property '" ++ name ++ "'").toList
          ++ (setter.map fun s => "Objective-C setter '" ++ s ++ ":'").toList }
    name := getter.getD name
    storage := Lowering.lower context type
    isReadonly := words.contains "readonly"
    isOptional, getter, setter }

def methodFrom (p : Place) (member : Member) (isOptional isClassMethod : Bool)
    (unary : Option String) (pieces : List Piece) (type : Option DeclaredType)
    (nullability : Option Nullability) : Option Method :=
  (nameAndSelector? unary pieces).map fun (name, selector) =>
    let result := type.getD defaultType
    let isInitializer := !isClassMethod && isInitName name && returnsInstance p.owner result
    let signature :=
      if isInitializer then
        { name := "init", parameters := parametersOf p (initializerLabel? name) pieces,
          result := .void, isInitializer }
      else
        { name, parameters := parametersOf p none pieces,
          result := Lowering.swiftType { p.context with nullability } result, isInitializer }
    { member := { member with isStatic := isClassMethod }, signature, selector, isOptional }

theorem ivarOf?_eq (o : Outline) (p : Place) (access : AccessLevel) (id : Nat) :
    ivarOf? o p access id = (o.typeIn? id).bind fun type => (o.identifierIn? id).map fun name =>
      ivarFrom p (p.member access id) name type := by
  unfold ivarOf?
  cases o.typeIn? id with
  | none => rfl
  | some type => cases o.identifierIn? id <;> rfl

theorem propertyOf?_eq (o : Outline) (p : Place) (isOptional : Bool) (id : Nat) :
    propertyOf? o p isOptional id = (o.identifierIn? id).bind fun name =>
      (o.typeIn? id).map fun type =>
      propertyFrom p (p.member .internalAccess id) isOptional name type (o.modifiersIn id) := by
  unfold propertyOf?
  cases o.identifierIn? id with
  | none => rfl
  | some name => cases o.typeIn? id <;> rfl

theorem methodOf?_eq (o : Outline) (p : Place) (isOptional isClassMethod : Bool) (id : Nat) :
    methodOf? o p isOptional isClassMethod id = (o.childWith? id .selector).bind fun s =>
      methodFrom p (p.member .internalAccess id) isOptional isClassMethod (o.identifierIn? s)
        ((o.childrenWith s .keywordDeclarator).filterMap (pieceOf? o))
        ((o.childWith? id .methodType).bind o.typeIn?)
        ((o.childWith? id .methodType).bind o.nullabilityIn?) := by
  unfold methodOf? methodFrom
  cases o.childWith? id .selector with
  | none => rfl
  | some s =>
    simp only [Option.bind_eq_bind, Option.bind_some]
    cases nameAndSelector? (o.identifierIn? s)
      ((o.childrenWith s .keywordDeclarator).filterMap (pieceOf? o)) <;> rfl

theorem unsourced_methodFrom (p : Place) (member : Member) (isOptional isClassMethod : Bool)
    (unary : Option String) (pieces : List Piece) (type : Option DeclaredType)
    (nullability : Option Nullability) :
    (methodFrom p member isOptional isClassMethod unary pieces type nullability).map
        Method.unsourced =
      methodFrom p member.unsourced isOptional isClassMethod unary pieces type nullability := by
  unfold methodFrom
  rw [Option.map_map]
  rfl

namespace Direct

/-! ### Members -/

section Members

variable (types : TypeReader) (p : Place)

def type? (n : Node) : Option DeclaredType := (n.child? .typeName).bind types.typeName

/-- The first nullability word in the parentheses of a method, outside every list of types. -/
def nullability? (n : Node) : Option Nullability :=
  ((annotations n).map Node.text).findSome? Nullability.ofSpelling?

def piece? (n : Node) : Option Piece :=
  (n.childText? .identifier).map fun name =>
    { label := n.childText? .selector, name,
      type := (n.child? .methodType).bind (type? types)
      nullability := (n.child? .methodType).bind nullability? }

def method? (isOptional : Bool) (n : Node) : Option Method :=
  (n.child? .methodSelector).bind fun selector =>
    methodFrom p (p.plainMember .internalAccess) isOptional (n.childText? .methodKind = some "+")
      (selector.childText? .selector)
      ((selector.childrenOf .keywordDeclarator).filterMap (piece? types))
      ((n.child? .methodType).bind (type? types)) ((n.child? .methodType).bind nullability?)

def modifiers (n : Node) : List Modifier :=
  ((n.child? .propertyAttributesList).map fun list =>
    (list.childrenOf .propertyAttribute).filterMap modifierOf?).getD []

def property? (isOptional : Bool) (n : Node) : Option Property := do
  let (_, specifiers, declarator) ← propertyParts? n
  let name ← DeclaredType.declaratorName? declarator
  let type ← types.declaration specifiers declarator
  return propertyFrom p (p.plainMember .internalAccess) isOptional name type (modifiers n)

def ivar? (access : AccessLevel) (specifiers field : Node) : Option Ivar := do
  let declarator ← field.child? .declarator
  let name ← DeclaredType.declaratorName? declarator
  let type ← types.declaration specifiers declarator
  return ivarFrom p (p.plainMember access) name type

def fieldIvars (access : AccessLevel) (n : Node) : List Ivar :=
  match n.child? .specifierQualifierList, n.child? .fieldDeclaratorList with
  | some specifiers, some list =>
    (list.childrenOf .fieldDeclarator).filterMap (ivar? types p access specifiers)
  | _, _ => []

def ivars (access : AccessLevel) : List Node → List Ivar
  | [] => []
  | n :: ns =>
    match n.rule with
    | .accessModifier =>
      ivars (((Keyword.ofSpelling? n.text).map (accessAfter access)).getD access) ns
    | .fieldDeclaration => fieldIvars types p access n ++ ivars access ns
    | _ => ivars access ns

def ivarEntries (n : Node) : List Node := n.children.flatMap Node.children

end Members

/-! ### Types -/

def name? (n : Node) : Option String :=
  if n.rule = .protocolDeclaration then n.childText? .identifier
  else (n.child? .className).bind (·.childText? .identifier)

def typeKind (n : Node) : TypeKind :=
  match n.rule with
  | .categoryInterface => .extensionType (n.childText? .categoryName)
  | .protocolDeclaration => .protocolType
  | _ => .classType

/-- The parse nodes that may add something to the declaration around them. -/
def members (n : Node) : List Node :=
  n.children.flatMap fun c =>
    if c.rule = .interfaceDeclarationList ∨ c.rule = .protocolDeclarationList then c.children
    else [c]

def afterKeyword (s : Gathering) : Keyword → Gathering
  | .atOptional => { s with optionalSection := s.declaration.isProtocol }
  | .atRequired => { s with optionalSection := false }
  | k => { s with audited := auditedAfter s.audited k }

/-- What one parse node adds to the declaration around it. -/
def gather (types : TypeReader) (policy : Policy) (s : Gathering) (n : Node) : Gathering :=
  let d := s.declaration
  let place : Place := { policy, owner := d.name, audited := s.audited }
  match n.rule with
  | .protocolList =>
    let names := (n.childrenOf .protocolName).map Node.text
    { s with declaration := { d with protocols := d.protocols ++ names.map Lowering.protocolName } }
  | .instanceVariables =>
    let new := ivars types place .privateAccess (ivarEntries n)
    { s with declaration := { d with ivars := d.ivars ++ new } }
  | .propertyDeclaration =>
    let new := (property? types place s.optionalSection n).toList
    { s with declaration := { d with properties := d.properties ++ new } }
  | .methodDeclaration =>
    let new := (method? types place s.optionalSection n).toList
    { s with declaration := { d with methods := d.methods ++ new } }
  | .protocolSectionKeyword | .nonnullAuditMarker =>
    ((Keyword.ofSpelling? n.text).map (afterKeyword s)).getD s
  | _ => s

/-- The declaration of a parse node, and whether the header is audited behind it. -/
def typeOf (types : TypeReader) (policy : Policy) (audited : Bool) (n : Node) (name : String) :
    Gathering :=
  (members n).foldl (gather types policy)
    { declaration := { kind := typeKind n, name, superclass := n.childText? .superclassName },
      audited }

def addType (types : TypeReader) (policy : Policy) (s : List TypeDeclaration × Bool) (n : Node) :
    List TypeDeclaration × Bool :=
  match n.rule with
  | .nonnullAuditMarker => (s.1, ((Keyword.ofSpelling? n.text).map (auditedAfter s.2)).getD s.2)
  | .classInterface | .categoryInterface | .protocolDeclaration =>
    match name? n with
    | some name =>
      let d := typeOf types policy s.2 n name
      (s.1 ++ [d.declaration], d.audited)
    | none => s
  | _ => s

/-- The declarations of a header, in source order. -/
def ofTree (types : TypeReader) (policy : Policy) (tree : Node) : List TypeDeclaration :=
  (tree.children.foldl (addType types policy) ([], false)).1

end Direct

end Declaration

end HeaderBridge
