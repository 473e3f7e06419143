import HeaderBridge.Grammar.Tree

/-! # Walking a parse tree

A walk visits every node of a parse tree twice: before and after the nodes of
its parts. It keeps the open nodes, each with the parts still to visit, on a
list of its own, so that deep trees do not nest calls.
-/

namespace HeaderBridge.Grammar

inductive Event where
  | enter (node : Node)
  | leave (node : Node)

mutual

def Node.events : Node → List Event
  | .mk r s t ns => .enter (.mk r s t ns) :: (Node.eventsAll ns ++ [.leave (.mk r s t ns)])

def Node.eventsAll : List Node → List Event
  | [] => []
  | n :: ns => n.events ++ Node.eventsAll ns

end

namespace Walk

/-- An open node, with the parts of it that are still to be visited. -/
abbrev Frame := Node × List Node

/-- The next visit, and what is open after it. -/
def next? : List Frame → Option (Event × List Frame)
  | [] => none
  | (n, []) :: fs => some (.leave n, fs)
  | (n, c :: cs) :: fs => some (.enter c, (c, c.children) :: (n, cs) :: fs)

/-- Make the given number of visits, or all that are left. -/
def visits {σ ε : Type} (handle : Event → σ → Except ε σ) :
    Nat → List Frame → σ → Except ε σ
  | 0, _, s => .ok s
  | k + 1, fs, s =>
    match next? fs with
    | none => .ok s
    | some (e, fs) =>
      match handle e s with
      | .ok s => visits handle k fs s
      | .error err => .error err

end Walk

/-- Visit all nodes of a tree, passing on a state. There are two visits for each
node, of which entering the root is the first. -/
def walk {σ ε : Type} (handle : Event → σ → Except ε σ) (root : Node) (s : σ) :
    Except ε σ :=
  match handle (.enter root) s with
  | .ok s => Walk.visits handle (2 * root.size) [(root, root.children)] s
  | .error err => .error err

end HeaderBridge.Grammar
