/-! # Swift types

The types that Swift declarations are written with. Nullability that a header
leaves open is kept as a wrapper of its own; rendering decides how it reads.
-/

namespace HeaderBridge

inductive BlockConvention where
  | block | c | swift
  deriving DecidableEq

inductive BlockAttribute where
  | autoclosure
  | escaping
  | convention (convention : BlockConvention)
  deriving DecidableEq

namespace BlockAttribute

/-- Every attribute, in the order in which sets of attributes list them. -/
def all : List BlockAttribute :=
  [autoclosure, escaping, convention .block, convention .c, convention .swift]

def text : BlockAttribute → String
  | autoclosure => "@autoclosure"
  | escaping => "@escaping"
  | convention .block => "@convention(block)"
  | convention .c => "@convention(c)"
  | convention .swift => "@convention(swift)"

/-- Every attribute, in the alphabetical order of its text. -/
def alphabetical : List BlockAttribute :=
  [autoclosure, convention .block, convention .c, convention .swift, escaping]

end BlockAttribute

structure BlockAttributes where
  autoclosure : Bool := false
  escaping : Bool := false
  conventionBlock : Bool := false
  conventionC : Bool := false
  conventionSwift : Bool := false
  deriving DecidableEq

namespace BlockAttributes

def empty : BlockAttributes := {}

def contains (s : BlockAttributes) : BlockAttribute → Bool
  | .autoclosure => s.autoclosure
  | .escaping => s.escaping
  | .convention .block => s.conventionBlock
  | .convention .c => s.conventionC
  | .convention .swift => s.conventionSwift

def insert (s : BlockAttributes) : BlockAttribute → BlockAttributes
  | .autoclosure => { s with autoclosure := true }
  | .escaping => { s with escaping := true }
  | .convention .block => { s with conventionBlock := true }
  | .convention .c => { s with conventionC := true }
  | .convention .swift => { s with conventionSwift := true }

def toList (s : BlockAttributes) : List BlockAttribute :=
  BlockAttribute.all.filter s.contains

def ofList (as : List BlockAttribute) : BlockAttributes :=
  as.foldl insert empty

def texts (s : BlockAttributes) : List String :=
  (BlockAttribute.alphabetical.filter s.contains).map BlockAttribute.text

@[simp] theorem contains_insert (s : BlockAttributes) (a b : BlockAttribute) :
    (s.insert a).contains b = (decide (a = b) || s.contains b) := by
  cases a with
  | convention x => cases x <;> cases b <;> (try rename_i y; cases y) <;> simp [insert, contains]
  | _ => cases b <;> (try rename_i y; cases y) <;> simp [insert, contains]

end BlockAttributes

mutual

inductive Nominal where
  | plain (name : String)
  | generic (name : String) (arguments : List SwiftType)

/-- One member of a composition of protocols. -/
inductive Component where
  | nominal (type : Nominal)
  | nested (first second : Nominal) (rest : List Nominal)

inductive SwiftType where
  | nominal (type : Nominal)
  /-- A type inside other types, `First.Second.Rest`. -/
  | nested (first second : Nominal) (rest : List Nominal)
  | optional (wrapped : SwiftType)
  | implicitlyUnwrapped (wrapped : SwiftType)
  /-- Nullability that the header leaves open. -/
  | unspecified (wrapped : SwiftType)
  | metatype (base : SwiftType)
  | void
  | tuple (elements : List SwiftType)
  | block (result : SwiftType) (parameters : List SwiftType) (attributes : BlockAttributes)
  | composition (components : List Component)

end

instance : Inhabited Nominal := ⟨.plain ""⟩

instance : Inhabited SwiftType := ⟨.void⟩

def Nominal.name : Nominal → String
  | plain n => n
  | generic n _ => n

namespace SwiftType

/-! ### Common types -/

def named (name : String) : SwiftType := nominal (.plain name)

def generic (name : String) (arguments : List SwiftType) : SwiftType :=
  nominal (.generic name arguments)

def array (element : SwiftType) : SwiftType := generic "Array" [element]

def dictionary (key value : SwiftType) : SwiftType := generic "Dictionary" [key, value]

/-- A function type without attributes. -/
def function (result : SwiftType) (parameters : List SwiftType) : SwiftType :=
  block result parameters .empty

def ofPath? : List String → Option SwiftType
  | a :: b :: rest => some (nested (.plain a) (.plain b) (rest.map .plain))
  | _ => none

def path : SwiftType → List Nominal
  | nested a b rest => a :: b :: rest
  | _ => []

/-! ### Optionality -/

/-- Whether a type is wrapped as optional in one of the three ways. -/
def isOptionalLike : SwiftType → Bool
  | optional _ | implicitlyUnwrapped _ | unspecified _ => true
  | _ => false

def unwrapped : SwiftType → SwiftType
  | optional t | implicitlyUnwrapped t | unspecified t => t
  | t => t

def toOptional (t : SwiftType) : SwiftType := optional t.unwrapped

/-! ### Shapes -/

def isVoid : SwiftType → Bool
  | void => true
  | _ => false

def isBlock : SwiftType → Bool
  | block _ _ _ => true
  | _ => false

/-- Whether a type stands in parentheses before a postfix. A tuple brings its own. -/
def needsParens : SwiftType → Bool
  | block _ _ _ | composition _ => true
  | _ => false

def addAttribute (a : BlockAttribute) : SwiftType → SwiftType
  | block r ps as => block r ps (as.insert a)
  | t => t

end SwiftType

end HeaderBridge
