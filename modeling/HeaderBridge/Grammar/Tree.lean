import HeaderBridge.Grammar.Rule

/-! # Parse trees

A parse node records which rule matched, where, the text it matched and the
nodes of its parts. Offsets count the bytes of the UTF-8 form of the text.
-/

namespace HeaderBridge.Grammar

/-- A match of a rule, with the matches of its parts in source order. -/
inductive Node where
  | mk (rule : Rule) (start : Nat) (text : String) (children : List Node)
  deriving Inhabited

namespace Node

def rule : Node → Rule
  | mk r _ _ _ => r

def start : Node → Nat
  | mk _ s _ _ => s

def text : Node → String
  | mk _ _ t _ => t

def children : Node → List Node
  | mk _ _ _ ns => ns

/-- The byte offset just after the match. -/
def stop (n : Node) : Nat := n.start + n.text.utf8ByteSize

def child? (n : Node) (r : Rule) : Option Node :=
  n.children.find? (·.rule = r)

def childrenOf (n : Node) (r : Rule) : List Node :=
  n.children.filter (·.rule = r)

def childText? (n : Node) (r : Rule) : Option String :=
  (n.child? r).map text

mutual

def size : Node → Nat
  | mk _ _ _ ns => sizeAll ns + 1

def sizeAll : List Node → Nat
  | [] => 0
  | n :: ns => n.size + sizeAll ns

end

end Node

end HeaderBridge.Grammar
