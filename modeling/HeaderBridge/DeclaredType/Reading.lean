import HeaderBridge.DeclaredType.Basic
import HeaderBridge.Grammar.Matching
import HeaderBridge.Text.Blank

/-! # Reading declared types

A spelling is matched against the grammar and its parse tree is turned into a
declared type. Generic arguments are read again from their own text, and block
parameters from their nodes, each one level deeper than the type around them;
reading fails when the levels run out.
-/

namespace HeaderBridge

open Grammar

/-- The node of a complete type name, if the text is one. -/
def parseTypeName? (spelling : String) : Option Node :=
  match parse .typeNameEntry spelling with
  | .ok (entry :: _) => entry.child? .typeName
  | _ => none

namespace DeclaredType

/-- How many levels of nesting are read unless said otherwise. -/
def defaultMaxDepth : Nat := 32

/-- How the types inside a type are read, each from its node. -/
structure Inner where
  argument : Node → Option DeclaredType
  parameter : Node → Option DeclaredType

/-! ### Specifiers and qualifiers -/

def isSpecifier (part : Node) : Bool :=
  part.rule = .arcBehaviourSpecifier || (part.rule = .typeQualifier && part.text = "__kindof")

def isBaseQualifier (part : Node) : Bool :=
  part.rule = .typeQualifier && ["const", "volatile", "restrict"].contains part.text

def textsOf (test : Node → Bool) (parts : List Node) : List String :=
  (parts.filter test).map Node.text

/-- Words around a type that apply to the declared entity as a whole. -/
structure Adornment where
  specifiers : List String
  qualifiers : List String

/-- Put the words around a type, the specifiers outermost. -/
def Adornment.wrap (a : Adornment) (t : DeclaredType) : DeclaredType :=
  (t.qualify a.qualifiers).specify a.specifiers

def outerWords (list : Node) : Adornment where
  specifiers := textsOf isSpecifier list.children
  qualifiers := textsOf (·.rule = .nullabilitySpecifier) list.children

/-! ### Base types -/

/-- A type named by a word that is not a C scalar. -/
def ofName (name : String) : DeclaredType :=
  if name = "id" then object [] else named name

/-- A C scalar; its words are joined by single blanks. -/
def ofPrimitive (text : String) : DeclaredType :=
  let name := " ".intercalate (Text.words text)
  if name = "void" then void else named name

/-- A type with angle brackets: protocols of `id`, or arguments. -/
def readGeneric (inner : Inner) (node : Node) : Option DeclaredType := do
  let name ← node.childText? .identifier
  match node.child? .protocolList with
  | some list =>
    let protocols := (list.childrenOf .protocolName).map Node.text
    return if name = "id" then object protocols else generic name (protocols.map named)
  | none =>
    let list ← node.child? .genericsSpecifier
    return generic name (← (list.childrenOf .typeArgument).mapM inner.argument)

def readSpecifier (inner : Inner) (node : Node) : Option DeclaredType := do
  let part ← node.children.head?
  match part.rule with
  | .primitiveType => return ofPrimitive part.text
  | .taggedTypeSpecifier => (part.childText? .identifier).map named
  | .genericTypeSpecifier => readGeneric inner part
  | .identifier => return ofName part.text
  | _ => none

/-- The base type of a specifier list, with its own qualifiers. -/
def readBase (inner : Inner) (list : Node) : Option DeclaredType := do
  let base ← readSpecifier inner (← list.child? .typeSpecifier)
  return base.qualify (textsOf isBaseQualifier list.children)

/-! ### Declarators -/

/-- One star, with the words that follow it. -/
def addPointerLevel (t : DeclaredType) (level : Node) : DeclaredType :=
  Adornment.wrap
    { specifiers := textsOf isSpecifier level.children
      qualifiers := textsOf (!isSpecifier ·) level.children }
    (pointer t)

/-- All stars of a pointer, from left to right. -/
def addPointer (t : DeclaredType) (node : Node) : DeclaredType :=
  (node.childrenOf .pointerLevel).foldl addPointerLevel t

def addArray (t : DeclaredType) (suffix : Node) : DeclaredType :=
  array t (Text.trim ((suffix.childText? .arrayLength).getD ""))

/-- A block that returns the given type; the single parameter `void` is none. -/
def addBlock (inner : Inner) (t : DeclaredType) (node : Node) : Option DeclaredType := do
  let list ← node.child? .blockParameters
  let parameters ← (list.childrenOf .parameterDeclaration).mapM inner.parameter
  let parameters := if parameters = [void] then [] else parameters
  return (block (node.childText? .identifier) t parameters).qualify
    (node.childText? .nullabilitySpecifier).toList

def addAbstractPart (inner : Inner) (t : DeclaredType) (part : Node) : Option DeclaredType :=
  match part.rule with
  | .pointer => some (addPointer t part)
  | .abstractBlockDeclarator => addBlock inner t part
  | .declaratorSuffix => some (addArray t part)
  | _ => some t

def addAbstract (inner : Inner) (t : DeclaredType) (node : Node) : Option DeclaredType :=
  node.children.foldlM (addAbstractPart inner) t

def addDeclarator (inner : Inner) (t : DeclaredType) (node : Node) : Option DeclaredType := do
  let t := match node.child? .pointer with
    | some p => addPointer t p
    | none => t
  let direct ← node.child? .directDeclarator
  match direct.child? .blockParameters with
  | some _ => addBlock inner t direct
  | none => return (direct.childrenOf .declaratorSuffix).foldl addArray t

def declaratorName? (node : Node) : Option String := do
  (← node.child? .directDeclarator).childText? .identifier

/-! ### Whole types -/

def readTypeName (inner : Inner) (node : Node) : Option DeclaredType := do
  let list ← node.child? .specifierQualifierList
  let base ← readBase inner list
  let t ← match node.child? .abstractDeclarator with
    | some d => addAbstract inner base d
    | none => some base
  return (outerWords list).wrap t

/-- The type of a block parameter; its name is dropped. -/
def readParameter (inner : Inner) (node : Node) : Option DeclaredType := do
  let list ← node.child? .specifierQualifierList
  let base ← readBase inner list
  let t ← match node.child? .declarator, node.child? .abstractDeclarator with
    | some d, _ => addDeclarator inner base d
    | none, some d => addAbstract inner base d
    | none, none => some base
  return (outerWords list).wrap t

/-- How types are read for the given number of remaining levels. The text of an
argument is parsed again. -/
def Inner.ofLevels : Nat → Inner
  | 0 => ⟨fun _ => none, fun _ => none⟩
  | n + 1 =>
    { argument := fun node => (parseTypeName? node.text).bind (readTypeName (ofLevels n))
      parameter := fun node => readParameter (ofLevels n) node }

/-- Read a spelling whose types are nested at most as deep as given. -/
def readWithin (maxDepth : Nat) (spelling : String) : Option DeclaredType :=
  (parseTypeName? spelling).bind (readTypeName (Inner.ofLevels maxDepth))

def read (spelling : String) : Option DeclaredType :=
  readWithin defaultMaxDepth spelling

end DeclaredType

end HeaderBridge
