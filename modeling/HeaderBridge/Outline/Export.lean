import HeaderBridge.Outline.Basic
import HeaderBridge.Text.Json

/-! # Outlines as JSON

Every node with its kind, span, parent and children. A kind that carries
something is an object with the name of the kind as its only field.
-/

namespace HeaderBridge

mutual

def DeclaredType.toJson : DeclaredType → Json
  | .void => .str "Void"
  | .named n => .tagged "Struct" (.str n)
  | .object ps => .tagged "Id" (.obj [("protocols", .strs ps)])
  | .generic n ts =>
    .tagged "Generic" (.obj [("name", .str n), ("parameters", .arr (DeclaredType.toJsons ts))])
  | .pointer t => .tagged "Pointer" t.toJson
  | .specified ss t => .tagged "Specified" (.obj [("specifiers", .strs ss), ("inner", t.toJson)])
  | .qualified t qs => .tagged "Qualified" (.obj [("inner", t.toJson), ("qualifiers", .strs qs)])
  | .block n r ps =>
    .tagged "Block" (.obj [("name", .ofOption .str n), ("return_type", r.toJson),
      ("parameters", .arr (DeclaredType.toJsons ps))])
  | .array t l => .tagged "FixedArray" (.obj [("inner", t.toJson), ("length", .str l)])

def DeclaredType.toJsons : List DeclaredType → List Json
  | [] => []
  | t :: ts => t.toJson :: DeclaredType.toJsons ts

end

namespace Outline

def Slot.toJson : Slot → Json
  | valid n => .tagged "Valid" (.str n)
  | invalid reason => .tagged "Invalid" (.str reason)

def Keyword.label : Keyword → String
  | atPrivate => "AtPrivate"
  | atPackage => "AtPackage"
  | atProtected => "AtProtected"
  | atPublic => "AtPublic"
  | atOptional => "AtOptional"
  | atRequired => "AtRequired"
  | auditBegin => "AssumeNonnullBegin"
  | auditEnd => "AssumeNonnullEnd"

def Modifier.toJson : Modifier → Json
  | keyword w => .tagged "Keyword" (.str w)
  | getter n => .tagged "Getter" (.str n)
  | setter n => .tagged "Setter" (.str n)

def Kind.toJson (k : Kind) : Json :=
  match k with
  | classInterface s | categoryInterface s | protocolDeclaration s =>
    .tagged k.tag.name (.obj [("identifier", s.toJson)])
  | modifier m => .tagged k.tag.name m.toJson
  | method b => .tagged k.tag.name (.obj [("is_class_method", .bool b)])
  | keyword w => .tagged k.tag.name (.str w.label)
  | typeName t => .tagged k.tag.name t.toJson
  | protocolName s | superclassName s | categoryName s | identifier s | nullability s =>
    .tagged k.tag.name (.str s)
  | header | ivarList | ivar | property | modifierList | methodType | selector
  | keywordDeclarator | protocolList => .str k.tag.name

def Entry.toJson (e : Entry) : Json :=
  .obj [("kind", e.kind.toJson),
    ("span", .ofOption (fun s => .obj [("start", .num s.start), ("end", .num s.stop)]) e.span),
    ("parent", .ofOption .num e.parent), ("children", .arr (e.children.map .num))]

def toJson (o : Outline) : Json :=
  .obj [("nodes", .arr (o.entries.toList.map Entry.toJson)), ("root", .num root)]

end Outline

end HeaderBridge
