import HeaderBridge.DeclaredType.Spelling
import HeaderBridge.Text.Quoted

/-! # What the nodes of an outline stand for

A node's kind carries what was read for it; its tag is the kind without that.
Nodes that group others can be made from their tag alone, leaves cannot.
-/

namespace HeaderBridge.Outline

/-- A place for the name of a declaration. -/
inductive Slot where
  | valid (name : String)
  /-- No name, and why not. -/
  | invalid (reason : String)
  deriving DecidableEq

def Slot.name? : Slot → Option String
  | valid n => some n
  | invalid _ => none

def Slot.isValid : Slot → Bool
  | valid _ => true
  | invalid _ => false

/-- Words that change how the declarations after them are understood. -/
inductive Keyword where
  | atPrivate | atPackage | atProtected | atPublic
  | atOptional | atRequired
  | auditBegin | auditEnd
  deriving DecidableEq

namespace Keyword

def all : List Keyword :=
  [atPrivate, atPackage, atProtected, atPublic, atOptional, atRequired, auditBegin, auditEnd]

def spelling : Keyword → String
  | atPrivate => "@private"
  | atPackage => "@package"
  | atProtected => "@protected"
  | atPublic => "@public"
  | atOptional => "@optional"
  | atRequired => "@required"
  | auditBegin => "NS_ASSUME_NONNULL_BEGIN"
  | auditEnd => "NS_ASSUME_NONNULL_END"

def ofSpelling? (s : String) : Option Keyword :=
  all.find? (·.spelling = s)

end Keyword

inductive Modifier where
  | keyword (word : String)
  | getter (name : String)
  | setter (name : String)
  deriving DecidableEq

/-- What a node stands for, without what was read for it. -/
inductive Tag where
  | header | classInterface | categoryInterface | protocolDeclaration
  | ivarList | ivar | property | modifierList | modifier
  | method | methodType | selector | keywordDeclarator
  | protocolList | protocolName | superclassName | categoryName
  | identifier | keyword | typeName | nullability
  deriving DecidableEq

namespace Tag

def all : List Tag :=
  [header, classInterface, categoryInterface, protocolDeclaration, ivarList, ivar, property,
    modifierList, modifier, method, methodType, selector, keywordDeclarator, protocolList,
    protocolName, superclassName, categoryName, identifier, keyword, typeName, nullability]

def name : Tag → String
  | header => "GlobalContext"
  | classInterface => "ClassInterface"
  | categoryInterface => "CategoryInterface"
  | protocolDeclaration => "ProtocolDeclaration"
  | ivarList => "IVarsList"
  | ivar => "IVarDeclaration"
  | property => "PropertyDefinition"
  | modifierList => "PropertyModifierList"
  | modifier => "PropertyModifier"
  | method => "MethodDefinition"
  | methodType => "MethodType"
  | selector => "MethodSelector"
  | keywordDeclarator => "KeywordDeclarator"
  | protocolList => "ProtocolReferenceList"
  | protocolName => "ProtocolName"
  | superclassName => "SuperclassName"
  | categoryName => "CategoryName"
  | identifier => "Identifier"
  | keyword => "Keyword"
  | typeName => "TypeName"
  | nullability => "NullabilitySpecifier"

def ofName? (s : String) : Option Tag :=
  all.find? (·.name = s)

end Tag

/-- What a node stands for. -/
inductive Kind where
  | header
  | classInterface (name : Slot)
  | categoryInterface (name : Slot)
  | protocolDeclaration (name : Slot)
  | ivarList
  | ivar
  | property
  | modifierList
  | modifier (entry : Modifier)
  | method (isClassMethod : Bool)
  | methodType
  | selector
  | keywordDeclarator
  | protocolList
  | protocolName (text : String)
  | superclassName (text : String)
  | categoryName (text : String)
  | identifier (text : String)
  | keyword (word : Keyword)
  | typeName (type : DeclaredType)
  | nullability (text : String)
  deriving DecidableEq, Inhabited

/-- A new node of the given tag, where no text is needed to make one. -/
def Tag.fresh? : Tag → Option Kind
  | header => some .header
  | classInterface => some (.classInterface (.invalid "missing class name"))
  | categoryInterface => some (.categoryInterface (.invalid "missing class name"))
  | protocolDeclaration => some (.protocolDeclaration (.invalid "missing protocol name"))
  | ivarList => some .ivarList
  | ivar => some .ivar
  | property => some .property
  | modifierList => some .modifierList
  | method => some (.method false)
  | methodType => some .methodType
  | selector => some .selector
  | keywordDeclarator => some .keywordDeclarator
  | protocolList => some .protocolList
  | modifier | protocolName | superclassName | categoryName | identifier | keyword | typeName
  | nullability => none

namespace Kind

def tag : Kind → Tag
  | header => .header
  | classInterface _ => .classInterface
  | categoryInterface _ => .categoryInterface
  | protocolDeclaration _ => .protocolDeclaration
  | ivarList => .ivarList
  | ivar => .ivar
  | property => .property
  | modifierList => .modifierList
  | modifier _ => .modifier
  | method _ => .method
  | methodType => .methodType
  | selector => .selector
  | keywordDeclarator => .keywordDeclarator
  | protocolList => .protocolList
  | protocolName _ => .protocolName
  | superclassName _ => .superclassName
  | categoryName _ => .categoryName
  | identifier _ => .identifier
  | keyword _ => .keyword
  | typeName _ => .typeName
  | nullability _ => .nullability

def slot? : Kind → Option Slot
  | classInterface s | categoryInterface s | protocolDeclaration s => some s
  | _ => none

def setName (name : String) : Kind → Kind
  | classInterface _ => classInterface (.valid name)
  | categoryInterface _ => categoryInterface (.valid name)
  | protocolDeclaration _ => protocolDeclaration (.valid name)
  | k => k

def text? : Kind → Option String
  | protocolName s | superclassName s | categoryName s | identifier s | nullability s => some s
  | _ => none

def describe (k : Kind) : String :=
  match k with
  | classInterface s | categoryInterface s | protocolDeclaration s =>
    match s with
    | .valid n => k.tag.name ++ " " ++ Text.quote n
    | .invalid reason => k.tag.name ++ " <" ++ reason ++ ">"
  | method isClassMethod => k.tag.name ++ if isClassMethod then " +" else " -"
  | modifier (.keyword w) => k.tag.name ++ " " ++ w
  | modifier (.getter n) => k.tag.name ++ " getter=" ++ n
  | modifier (.setter n) => k.tag.name ++ " setter=" ++ n ++ ":"
  | keyword w => k.tag.name ++ " " ++ w.spelling
  | typeName t => k.tag.name ++ " " ++ Text.quote t.spelling
  | _ =>
    match k.text? with
    | some s => k.tag.name ++ " " ++ Text.quote s
    | none => k.tag.name

end Kind

end HeaderBridge.Outline
