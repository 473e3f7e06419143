import HeaderBridge.SwiftType.Basic

/-! # Rendering Swift types

A renderer counts how many function types and how many levels of a type it is inside
of. It raises the counters on the way into a type and takes them back on the way out.
Open nullability reads `!` outside all function types and `?` inside them, and what
lies deeper than the last level that is shown reads as a mark.
-/

namespace HeaderBridge

/-! ### Counters -/

/-- What happens where a counter leaves its range. -/
inductive Arithmetic where
  /-- The program stops. -/
  | checked
  /-- The counter goes on at the other end. -/
  | wrapping
  deriving DecidableEq

inductive Overflow where
  | add | subtract
  deriving DecidableEq

namespace Overflow

def message : Overflow → String
  | add => "attempt to add with overflow"
  | subtract => "attempt to subtract with overflow"

end Overflow

namespace Arithmetic

def increment (a : Arithmetic) (n : UInt64) : Except Overflow UInt64 :=
  if a = checked ∧ n + 1 = 0 then .error .add else .ok (n + 1)

def decrement (a : Arithmetic) (n : UInt64) : Except Overflow UInt64 :=
  if a = checked ∧ n = 0 then .error .subtract else .ok (n - 1)

end Arithmetic

/-! ### Parts of texts -/

namespace SwiftType

def maxLevels : Nat := 64

/-- What stands for the levels that are not shown. -/
def truncationMarker : String := "<#truncated#>"

def parenthesized (wrap : Bool) (s : String) : String :=
  if wrap then "(" ++ s ++ ")" else s

def tupleText (elements : List String) : String :=
  "(" ++ ", ".intercalate elements ++ ")"

/-- Whether the arguments of a named type are left out of its text. -/
def isErased (name : String) (count : Nat) : Bool :=
  (name = "NSArray" || name = "NSMutableArray") && count = 1

def genericText (name : String) (arguments : List String) : String :=
  name ++ "<" ++ ", ".intercalate arguments ++ ">"

/-- A named type with arguments where the brackets of arrays and dictionaries may
stand for it. -/
def collectionText (name : String) (arguments : List String) : String :=
  match arguments with
  | [a] => if name = "Array" then "[" ++ a ++ "]" else genericText name arguments
  | [k, v] =>
    if name = "Dictionary" then "[" ++ k ++ ": " ++ v ++ "]" else genericText name arguments
  | _ => genericText name arguments

def blockText (attributes : BlockAttributes) (parameters : List String) (result : String) :
    String :=
  String.join (attributes.texts.map (· ++ " ")) ++ tupleText parameters ++ " -> " ++ result

end SwiftType

/-! ### The renderer -/

/-- How deep inside a type a renderer is. -/
structure Renderer where
  /-- The function types around. -/
  blockDepth : UInt64 := 0
  /-- The levels of the type around. -/
  typeDepth : UInt64 := 0
  deriving DecidableEq

/-- What a renderer does: it changes its counters, and may stop where one overflows. -/
abbrev Rendering := StateT Renderer (Except Overflow)

namespace Renderer

open SwiftType

/-- A renderer that acts as if it were inside the given number of function types. -/
def within (depth : UInt64) : Renderer := { blockDepth := depth }

variable (a : Arithmetic)

def enterLevel (r : Renderer) : Except Overflow Renderer :=
  return { r with typeDepth := ← a.increment r.typeDepth }

def leaveLevel (r : Renderer) : Except Overflow Renderer :=
  return { r with typeDepth := ← a.decrement r.typeDepth }

def enterBlock (r : Renderer) : Except Overflow Renderer :=
  return { r with blockDepth := ← a.increment r.blockDepth }

def leaveBlock (r : Renderer) : Except Overflow Renderer :=
  return { r with blockDepth := ← a.decrement r.blockDepth }

/-- A counter is raised before the text and taken back behind it. -/
def inside (enter leave : Renderer → Except Overflow Renderer) (text : Rendering String) :
    Rendering String := do
  set (← enter (← get))
  let s ← text
  set (← leave (← get))
  return s

/-- The text one level deeper, unless that level is not shown. -/
def leveled (text : Rendering String) : Rendering String := do
  if maxLevels ≤ (← get).typeDepth.toNat then return truncationMarker
  else inside (enterLevel a) (leaveLevel a) text

mutual

def render (t : SwiftType) : Rendering String :=
  leveled a <| match t with
  | .nominal (.plain n) => return n
  | .nominal (.generic n ts) => do
    if isErased n ts.length then return n else return collectionText n (← renderAll ts)
  | .nested x y rest => do
    return ".".intercalate ((← renderNominal x) :: (← renderNominal y) :: (← renderNominals rest))
  | .optional t => return parenthesized t.needsParens (← render t) ++ "?"
  | .implicitlyUnwrapped t => return parenthesized t.needsParens (← render t) ++ "!"
  | .unspecified t => do
    let s ← render t
    return parenthesized t.needsParens s ++ if (← get).blockDepth = 0 then "!" else "?"
  | .metatype t => return parenthesized t.needsParens (← render t) ++ ".Type"
  | .void => return "Void"
  | .tuple ts => return tupleText (← renderAll ts)
  | .block r ps as => inside (enterBlock a) (leaveBlock a) do
    let ps ← renderAll ps
    return blockText as ps (← render r)
  | .composition cs => return " & ".intercalate (← renderComponents cs)

def renderAll : List SwiftType → Rendering (List String)
  | [] => return []
  | t :: ts => return (← render t) :: (← renderAll ts)

def renderNominal : Nominal → Rendering String
  | .plain n => return n
  | .generic n ts => do
    if isErased n ts.length then return n else return genericText n (← renderAll ts)

def renderNominals : List Nominal → Rendering (List String)
  | [] => return []
  | n :: ns => return (← renderNominal n) :: (← renderNominals ns)

def renderComponent : Component → Rendering String
  | .nominal t => renderNominal t
  | .nested x y rest => do
    return ".".intercalate ((← renderNominal x) :: (← renderNominal y) :: (← renderNominals rest))

def renderComponents : List Component → Rendering (List String)
  | [] => return []
  | c :: cs => return (← renderComponent c) :: (← renderComponents cs)

end

end Renderer

/-- The text of a type. A new renderer has room for all levels that are shown. -/
def SwiftType.render (t : SwiftType) : String :=
  match Renderer.render .checked t {} with
  | .ok (s, _) => s
  | .error e => e.message

end HeaderBridge
