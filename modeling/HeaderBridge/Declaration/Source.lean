import HeaderBridge.Declaration.Basic
import HeaderBridge.SwiftType.Render

/-! # Swift source

The text of declarations. A type is written as a line that ends in an opening
brace, its members indented by four blanks, and a closing brace; stored variables,
properties and methods form groups that an empty line sets apart. Methods have
empty bodies, requirements of a protocol none.
-/

namespace HeaderBridge

def memberLine (text : String) : String := "    " ++ text

namespace Member

def commentLines (m : Member) : List String :=
  m.annotations.map fun a => memberLine ("// " ++ a)

/-- Attributes and access level. An optional requirement has an attribute of its
own in place of all others. -/
def leadWords (m : Member) (isOptionalRequirement : Bool) : List String :=
  (if isOptionalRequirement then ["@objc optional"] else m.attributes) ++ m.access.word?.toList

end Member

/-- The modifier that the ownership of a stored value asks for. -/
def Lowering.Lowered.modifierWords (l : Lowering.Lowered) : List String :=
  (l.ownership.bind Ownership.modifier).toList

def variableText (modifiers : List String) (name : String) (type : SwiftType) : String :=
  " ".intercalate (modifiers ++ ["var"]) ++ " " ++ name ++ ": " ++ type.render

def Ivar.lines (v : Ivar) : List String :=
  v.member.commentLines ++
    [memberLine (variableText (v.member.leadWords false ++ v.storage.modifierWords)
      v.name v.storage.type)]

def Property.lines (inProtocol : Bool) (p : Property) : List String :=
  let modifiers :=
    p.member.leadWords (inProtocol && p.isOptional)
      ++ (if p.isReadonly && !inProtocol then ["private(set)"] else [])
      ++ (if p.member.isStatic then ["static"] else [])
      ++ p.storage.modifierWords
  let accessors :=
    if !inProtocol then ""
    else if p.isReadonly then " \x7b get \x7d"
    else " \x7b get set \x7d"
  p.member.commentLines ++ [memberLine (variableText modifiers p.name p.storage.type ++ accessors)]

/-- A parameter; a label that equals the name is written once. -/
def Parameter.text (p : Parameter) : String :=
  match p.label with
  | none => "_ " ++ p.name ++ ": " ++ p.type.render
  | some label =>
    if label = p.name then label ++ ": " ++ p.type.render
    else label ++ " " ++ p.name ++ ": " ++ p.type.render

/-- A signature; nothing is said of a result that is void or an initializer's. -/
def Signature.text (s : Signature) : String :=
  s.name ++ "(" ++ ", ".intercalate (s.parameters.map Parameter.text) ++ ")"
    ++ if s.isInitializer || s.result.isVoid then "" else " -> " ++ s.result.render

def Method.lines (inProtocol : Bool) (m : Method) : List String :=
  let modifiers :=
    m.member.leadWords (inProtocol && m.isOptional)
      ++ if m.signature.isInitializer then []
        else (if m.member.isStatic then [if inProtocol then "static" else "class"] else [])
          ++ ["func"]
  let lead := " ".intercalate modifiers
  let declaration := (if lead.isEmpty then "" else lead ++ " ") ++ m.signature.text
  m.member.commentLines ++
    if inProtocol then [memberLine declaration]
    else [memberLine (declaration ++ " \x7b"), memberLine "\x7d"]

namespace TypeDeclaration

def inheritanceText (d : TypeDeclaration) : String :=
  match d.superclass.toList ++ d.protocols with
  | [] => ""
  | names => ": " ++ ", ".intercalate names

def openingLines (d : TypeDeclaration) : List String :=
  let rest := d.name ++ d.inheritanceText ++ " \x7b"
  match d.kind with
  | .classType => ["class " ++ rest]
  | .extensionType none => ["extension " ++ rest]
  | .extensionType (some category) => ["// MARK: - " ++ category, "extension " ++ rest]
  | .protocolType => ["@objc protocol " ++ rest]

def memberLines (d : TypeDeclaration) : List String :=
  let groups :=
    [d.ivars.flatMap Ivar.lines, d.properties.flatMap (Property.lines d.isProtocol),
      d.methods.flatMap (Method.lines d.isProtocol)]
  [""].intercalate (groups.filter (!·.isEmpty))

def lines (d : TypeDeclaration) : List String :=
  d.openingLines ++ d.memberLines ++ ["\x7d"]

end TypeDeclaration

namespace Declaration

/-- The lines of a list of types, which an empty line sets apart. -/
def sourceLines (ds : List TypeDeclaration) : List String :=
  [""].intercalate (ds.map TypeDeclaration.lines)

def source (ds : List TypeDeclaration) : String :=
  String.join ((sourceLines ds).map (· ++ "\n"))

end Declaration

end HeaderBridge
