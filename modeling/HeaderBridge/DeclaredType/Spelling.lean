import HeaderBridge.DeclaredType.Basic

/-! # Canonical spellings

Every declared type has one canonical spelling: qualifiers stand behind what
they qualify, those of a block behind its caret, and a pointer's star is set off
by a blank unless it follows another star.
-/

namespace HeaderBridge.DeclaredType

def starred (s : String) : String :=
  if s.toList.getLast? = some '*' then s ++ "*" else s ++ " *"

/-- A block type, from the spellings of its parts; an empty parameter list is
written `void`. -/
def blockText (result : String) (parameters qualifiers : List String) : String :=
  let inside := if parameters.isEmpty then "void" else ", ".intercalate parameters
  result ++ " (^" ++ " ".intercalate qualifiers ++ ")(" ++ inside ++ ")"

mutual

/-- The canonical spelling of a type. -/
def spelling : DeclaredType → String
  | void => "void"
  | named n => n
  | object [] => "id"
  | object ps => "id<" ++ ", ".intercalate ps ++ ">"
  | generic n ts => n ++ "<" ++ ", ".intercalate (spellings ts) ++ ">"
  | pointer t => starred t.spelling
  | specified ss t => " ".intercalate ss ++ " " ++ t.spelling
  | qualified (block _ r ps) qs => blockText r.spelling (spellings ps) qs
  | qualified t qs => t.spelling ++ " " ++ " ".intercalate qs
  | block _ r ps => blockText r.spelling (spellings ps) []
  | array t l => t.spelling ++ "[" ++ l ++ "]"

def spellings : List DeclaredType → List String
  | [] => []
  | t :: ts => t.spelling :: spellings ts

end

end HeaderBridge.DeclaredType
