import HeaderBridge.Outline.Fault

/-! # Outlines

An outline holds the nodes of one header in the order of their creation; a node
is known by its place in that order. Children are listed by their parent in
source order, and every node but the root has at most one parent.
-/

namespace HeaderBridge

structure Span where
  start : Nat
  stop : Nat
  deriving DecidableEq

namespace Outline

structure Entry where
  kind : Kind
  span : Option Span := none
  parent : Option Nat := none
  children : List Nat := []
  deriving DecidableEq, Inhabited

end Outline

structure Outline where
  entries : Array Outline.Entry
  deriving DecidableEq

namespace Outline

def root : Nat := 0

def empty : Outline := ⟨#[{ kind := .header }]⟩

def size (o : Outline) : Nat := o.entries.size

def get? (o : Outline) (id : Nat) : Option Entry := o.entries[id]?

def get (o : Outline) (id : Nat) : Except Fault Entry :=
  match o.get? id with
  | some e => .ok e
  | none => .error (.outOfRange o.size id)

def parentOf (o : Outline) (id : Nat) : Option Nat := (o.get? id).bind Entry.parent

def childrenOf (o : Outline) (id : Nat) : List Nat :=
  match o.get? id with
  | some e => e.children
  | none => []

def kindOf? (o : Outline) (id : Nat) : Option Kind := (o.get? id).map Entry.kind

def hasTag (o : Outline) (tag : Tag) (id : Nat) : Bool :=
  (o.kindOf? id).map Kind.tag = some tag

def childrenWith (o : Outline) (id : Nat) (tag : Tag) : List Nat :=
  (o.childrenOf id).filter (o.hasTag tag)

def childWith? (o : Outline) (id : Nat) (tag : Tag) : Option Nat :=
  (o.childrenOf id).find? (o.hasTag tag)

/-! ### Growing -/

def modify (o : Outline) (id : Nat) (f : Entry → Entry) : Outline :=
  ⟨o.entries.modify id f⟩

def alloc (o : Outline) (e : Entry) : Nat × Outline :=
  (o.size, ⟨o.entries.push e⟩)

/-- Link a node as the last child of another. -/
def append (o : Outline) (parent child : Nat) : Except Fault Outline := do
  if child = root then throw .rootAsChild
  match (← o.get child).parent with
  | some p => throw (.alreadyAttached child p)
  | none =>
    let o := o.modify child fun e => { e with parent := some parent }
    let _ ← o.get parent
    return o.modify parent fun e => { e with children := e.children ++ [child] }

def add (o : Outline) (parent : Nat) (e : Entry) : Except Fault (Nat × Outline) := do
  let (id, o) := o.alloc e
  return (id, ← o.append parent id)

/-- Whether a node is the root or has a parent. -/
def isAttached (o : Outline) (id : Nat) : Except Fault Bool := do
  if id = root then return true
  return (← o.get id).parent.isSome

/-! ### Order and depth -/

/-- The nodes met by taking the first node of a list and putting its children in
its place, for at most the given number of steps. -/
def unfold (o : Outline) : Nat → List Nat → List Nat
  | 0, _ => []
  | _ + 1, [] => []
  | n + 1, i :: is => i :: unfold o n (o.childrenOf i ++ is)

/-- The nodes below a node in pre-order. Every node is met once, so the size of
the outline bounds the number of steps. -/
def descendants (o : Outline) (id : Nat) : List Nat :=
  o.unfold o.size (o.childrenOf id)

/-- The number of links from a node up, for at most the given number of steps. -/
def linksUp (o : Outline) : Nat → Nat → Nat
  | 0, _ => 0
  | n + 1, id =>
    match o.parentOf id with
    | none => 0
    | some p => o.linksUp n p + 1

def depth (o : Outline) (id : Nat) : Nat := o.linksUp o.size id

/-! ### Printing -/

/-- The lines of the nodes of a list, each with its level, and of all below them. -/
def lines (o : Outline) : Nat → List (Nat × Nat) → List String
  | 0, _ => []
  | _ + 1, [] => []
  | n + 1, (i, level) :: rest =>
    let text := match o.kindOf? i with
      | some k => k.describe
      | none => ""
    (String.ofList (List.replicate (2 * level) ' ') ++ text)
      :: o.lines n ((o.childrenOf i).map (·, level + 1) ++ rest)

/-- The outline as indented text, one node on each line. -/
def pretty (o : Outline) : String :=
  String.join ((o.lines o.size [(root, 0)]).map (· ++ "\n"))

end Outline

end HeaderBridge
