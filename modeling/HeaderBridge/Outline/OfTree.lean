import HeaderBridge.DeclaredType.Reading
import HeaderBridge.Grammar.Walk
import HeaderBridge.Outline.Draft

/-! # The outline of a parse tree

The parse tree of a header is walked. Some rules open nodes of the outline, and
some add leaves for what their parts say: names, keywords, modifiers, types and
nullability. What cannot be read is left out.
-/

namespace HeaderBridge.Outline

open Grammar

def spanOf (n : Node) : Span := ⟨n.start, n.stop⟩

/-! ### Spellings of declared types -/

/-- The spelling of a complete type name: its specifiers and its declarator, one
blank apart. -/
def typeNameSpelling? (n : Node) : Option String := do
  let specifiers ← n.childText? .specifierQualifierList
  let declarator := (n.childText? .abstractDeclarator).getD ""
  return Text.trimEnd (Text.trim specifiers ++ " " ++ Text.trim declarator)

def specifierWords? (specifiers : Node) : Option (List String) := do
  let _ ← specifiers.child? .typeSpecifier
  return specifiers.children.map fun part =>
    if part.rule = .typeSpecifier then Text.trim part.text else part.text

/-- What stands behind the place of the name in a declarator: the parameters of a
block, or the brackets of an array. -/
def declaratorTail (direct : Node) : String :=
  match direct.child? .blockParameters with
  | some parameters =>
    " (^" ++ (direct.childText? .nullabilitySpecifier).getD "" ++ ")" ++ Text.trim parameters.text
  | none =>
    String.join ((direct.childrenOf .declaratorSuffix).map fun s => Text.trim s.text)

/-- The spelling of a declaration's type, with the declared name left out. -/
def declarationSpelling? (specifiers declarator : Node) : Option String := do
  let words ← specifierWords? specifiers
  let pointer := ((declarator.childText? .pointer).map Text.trim).toList
  let direct ← declarator.child? .directDeclarator
  return " ".intercalate (words ++ pointer) ++ declaratorTail direct

/-- How the types of declarations are read from a parse tree. -/
structure TypeReader where
  /-- The type of a complete type name. -/
  typeName : Node → Option DeclaredType
  /-- The type of a declaration, from its specifiers and its declarator. -/
  declaration : Node → Node → Option DeclaredType

/-- Types are spelled anew, and the spellings are read. -/
def TypeReader.respelled (maxDepth : Nat) : TypeReader where
  typeName n := (typeNameSpelling? n).bind (DeclaredType.readWithin maxDepth)
  declaration specifiers declarator :=
    (declarationSpelling? specifiers declarator).bind (DeclaredType.readWithin maxDepth)

/-! ### The state of the walk -/

/-- How far the outline has come. -/
structure Progress where
  draft : Draft
  rules : RuleMap
  /-- How many lists of generic arguments, generic parameters and block parameters
  are open; nullability inside them belongs to the types there. -/
  nesting : Nat := 0

/-- The nodes that the rules of a header open. -/
def headerTargets : List (Rule × Target) :=
  [(.translationUnit, .existing root), (.classInterface, .fresh .classInterface),
    (.categoryInterface, .fresh .categoryInterface),
    (.protocolDeclaration, .fresh .protocolDeclaration),
    (.instanceVariables, .fresh .ivarList), (.protocolList, .fresh .protocolList),
    (.propertyDeclaration, .fresh .property), (.propertyAttributesList, .fresh .modifierList),
    (.methodDeclaration, .fresh .method), (.methodType, .fresh .methodType),
    (.methodSelector, .fresh .selector), (.keywordDeclarator, .fresh .keywordDeclarator)]

def headerRules : RuleMap := { targets := headerTargets }

namespace Progress

def start : Progress := { draft := .start, rules := headerRules }

def leaf (p : Progress) (kind : Kind) (n : Node) : Except Fault Progress := do
  let (_, draft) ← p.draft.addLeaf { kind, span := some (spanOf n) }
  return { p with draft }

def leaf? (p : Progress) (kind : String → Kind) : Option Node → Except Fault Progress
  | some n => p.leaf (kind n.text) n
  | none => .ok p

def modifyKind (p : Progress) (id : Nat) (f : Kind → Kind) : Progress :=
  { p with draft :=
    { p.draft with outline := p.draft.outline.modify id fun e => { e with kind := f e.kind } } }

def isIn (p : Progress) (tag : Tag) : Except Fault Bool := do
  return (← p.draft.currentWith? tag).isSome

end Progress

/-! ### What the rules add -/

def enterInterface (n : Node) (p : Progress) : Except Fault Progress := do
  match ← p.draft.currentWith? .classInterface, ← p.draft.currentWith? .categoryInterface with
  | some id, _ | none, some id =>
    let p := match (n.child? .className).bind (·.childText? .identifier) with
      | some name => p.modifyKind id (Kind.setName name)
      | none => p
    let p ← p.leaf? .superclassName (n.child? .superclassName)
    p.leaf? .categoryName (n.child? .categoryName)
  | none, none => return p

def enterProtocol (n : Node) (p : Progress) : Except Fault Progress := do
  match ← p.draft.currentWith? .protocolDeclaration, n.childText? .identifier with
  | some id, some name => return p.modifyKind id (Kind.setName name)
  | _, _ => return p

def enterProtocolName (n : Node) (p : Progress) : Except Fault Progress := do
  if ← p.isIn .protocolList then p.leaf (.protocolName n.text) n else return p

def enterKeyword (n : Node) (p : Progress) : Except Fault Progress :=
  match Keyword.ofSpelling? n.text with
  | some k => p.leaf (.keyword k) n
  | none => .ok p

def addIvar (types : TypeReader) (specifiers : Node) (p : Progress) (field : Node) :
    Except Fault Progress := do
  let declared := do
    let declarator ← field.child? .declarator
    let name ← DeclaredType.declaratorName? declarator
    return (declarator, name, ← types.declaration specifiers declarator)
  match declared with
  | none => return p
  | some (declarator, name, type) =>
    match ← p.draft.addLeaf { kind := .ivar, span := some (spanOf field) } with
    | (none, _) => return p
    | (some id, draft) =>
      let (_, o) ← draft.outline.add id { kind := .typeName type }
      let (_, o) ← o.add id { kind := .identifier name, span := some (spanOf declarator) }
      return { p with draft := { draft with outline := o } }

/-- The instance variables of a field declaration, one for each declarator. -/
def enterField (types : TypeReader) (n : Node) (p : Progress) : Except Fault Progress := do
  if ← p.isIn .ivarList then
    match n.child? .specifierQualifierList, n.child? .fieldDeclaratorList with
    | some specifiers, some list =>
      (list.childrenOf .fieldDeclarator).foldlM (addIvar types specifiers) p
    | _, _ => return p
  else return p

/-- The name and the type of a property, from its first declarator. -/
def enterProperty (types : TypeReader) (n : Node) (p : Progress) : Except Fault Progress := do
  let parts := do
    let field ← n.child? .fieldDeclaration
    let specifiers ← field.child? .specifierQualifierList
    let first ← (← field.child? .fieldDeclaratorList).child? .fieldDeclarator
    return (field, specifiers, ← first.child? .declarator)
  match parts with
  | none => return p
  | some (field, specifiers, declarator) =>
    let p ← match DeclaredType.declaratorName? declarator with
      | some name => p.leaf (.identifier name) declarator
      | none => pure p
    match types.declaration specifiers declarator with
    | some type => p.leaf (.typeName type) field
    | none => return p

def modifierOf? (n : Node) : Option Modifier :=
  let name := n.childText? .identifier
  match n.child? .getterKeyword, n.child? .setterKeyword with
  | some _, _ => name.map .getter
  | none, some _ => name.map .setter
  | none, none => (name.or (n.childText? .nullabilitySpecifier)).map .keyword

def enterAttribute (n : Node) (p : Progress) : Except Fault Progress :=
  match modifierOf? n with
  | some m => p.leaf (.modifier m) n
  | none => .ok p

/-- Whether a method belongs to the class or to its instances. -/
def enterMethod (n : Node) (p : Progress) : Except Fault Progress := do
  match ← p.draft.currentWith? .method with
  | some id => return p.modifyKind id fun _ => .method (n.childText? .methodKind = some "+")
  | none => return p

def enterSelector (n : Node) (p : Progress) : Except Fault Progress :=
  p.leaf? .identifier (n.child? .selector)

/-- One piece of a selector: its own name, if it has one, and its parameter's. -/
def enterKeywordDeclarator (n : Node) (p : Progress) : Except Fault Progress := do
  let p ← p.leaf? .identifier (n.child? .selector)
  p.leaf? .identifier (n.child? .identifier)

def enterTypeName (types : TypeReader) (n : Node) (p : Progress) : Except Fault Progress :=
  match types.typeName n with
  | some type => p.leaf (.typeName type) n
  | none => .ok p

/-- A nullability word that belongs to the declaration. -/
def enterNullability (n : Node) (p : Progress) : Except Fault Progress := do
  if p.nesting > 0 || (← p.isIn .ivarList) then return p
  else p.leaf (.nullability n.text) n

/-! ### The walk -/

/-- What entering a rule adds, after the rule has opened its node. -/
def enterParts (types : TypeReader) (n : Node) (p : Progress) : Except Fault Progress :=
  match n.rule with
  | .classInterface | .categoryInterface => enterInterface n p
  | .protocolDeclaration => enterProtocol n p
  | .protocolName => enterProtocolName n p
  | .accessModifier | .protocolSectionKeyword | .nonnullAuditMarker => enterKeyword n p
  | .fieldDeclaration => enterField types n p
  | .propertyDeclaration => enterProperty types n p
  | .propertyAttribute => enterAttribute n p
  | .methodDeclaration => enterMethod n p
  | .methodSelector => enterSelector n p
  | .keywordDeclarator => enterKeywordDeclarator n p
  | .typeName => enterTypeName types n p
  | .nullabilitySpecifier => enterNullability n p
  | .genericTypeSpecifier => .ok { p with rules := p.rules.suppress .protocolList }
  | .genericsSpecifier | .genericParameterClause | .blockParameters =>
    .ok { p with nesting := p.nesting + 1 }
  | _ => .ok p

/-- What leaving a rule takes back, before the rule closes its node. -/
def leaveParts (n : Node) (p : Progress) : Progress :=
  match n.rule with
  | .genericTypeSpecifier => { p with rules := p.rules.restore.2 }
  | .genericsSpecifier | .genericParameterClause | .blockParameters =>
    { p with nesting := p.nesting - 1 }
  | _ => p

/-- One visit of the walk. -/
def visit (types : TypeReader) (e : Event) (p : Progress) : Except Fault Progress := do
  match e with
  | .enter n =>
    let (_, draft) ← p.rules.enter n.rule (some (spanOf n)) p.draft
    enterParts types n { p with draft }
  | .leave n =>
    let p := leaveParts n p
    return { p with draft := ← p.rules.leave n.rule p.draft }

/-- The outline of the parse tree of a header, with its types read as given. -/
def ofTreeWith (types : TypeReader) (tree : Node) : Except Fault Outline := do
  let p ← walk (visit types) tree .start
  if p.draft.opened.isEmpty then return p.draft.outline
  else throw (.leftOpen p.draft.opened.length)

def ofTree (maxDepth : Nat) (tree : Node) : Except Fault Outline :=
  ofTreeWith (.respelled maxDepth) tree

end HeaderBridge.Outline
