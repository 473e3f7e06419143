import HeaderBridge.Proofs.Grammar.Visits
import Mathlib.Data.List.Perm.Basic

/-! # The loop and the recursive traversal

The loop that walks a parse tree holds the open nodes, each with the parts still to
visit. What these nodes leave pending is what the recursive traversal has still to
visit, so that a visit takes the first pending one and the loop ends together with
the traversal: every node is entered once and left once, properly nested, and no
visit is left when there were two for each node.
-/

namespace HeaderBridge.Grammar

/-! ### Visits in their order -/

def Event.entered? : Event → Option Node
  | enter n => some n
  | leave _ => none

def Event.left? : Event → Option Node
  | enter _ => none
  | leave n => some n

/-- Visits in which every node that is entered is left, after the nodes that are entered in
between and before anything else. -/
inductive Event.Nested : List Event → Prop where
  | nil : Nested []
  | node (n : Node) {inside behind : List Event} : Nested inside → Nested behind →
      Nested (.enter n :: (inside ++ .leave n :: behind))

theorem Event.Nested.append {es fs : List Event} (h : Event.Nested es) (h' : Event.Nested fs) :
    Event.Nested (es ++ fs) := by
  induction h with
  | nil => exact h'
  | node n hinside _ _ ih =>
    rw [List.cons_append, List.append_assoc, List.cons_append]
    exact .node n hinside ih

mutual

def Node.preOrder : Node → List Node
  | .mk r s t ns => .mk r s t ns :: Node.preOrderAll ns

def Node.preOrderAll : List Node → List Node
  | [] => []
  | n :: ns => n.preOrder ++ Node.preOrderAll ns

end

mutual

theorem Node.nested_events : ∀ n : Node, Event.Nested n.events
  | .mk r s t ns => by
    rw [Node.events]
    exact .node _ (Node.nested_eventsAll ns) .nil

theorem Node.nested_eventsAll : ∀ ns : List Node, Event.Nested (Node.eventsAll ns)
  | [] => .nil
  | n :: ns => by
    rw [Node.eventsAll]
    exact (Node.nested_events n).append (Node.nested_eventsAll ns)

end

mutual

theorem Node.entered_events : ∀ n : Node, n.events.filterMap Event.entered? = n.preOrder
  | .mk r s t ns => by
    simp [Node.events, Node.preOrder, Event.entered?, Node.entered_eventsAll ns]

theorem Node.entered_eventsAll : ∀ ns : List Node,
    (Node.eventsAll ns).filterMap Event.entered? = Node.preOrderAll ns
  | [] => rfl
  | n :: ns => by
    rw [Node.eventsAll, List.filterMap_append, Node.entered_events n, Node.entered_eventsAll ns,
      Node.preOrderAll]

end

/-- In nested visits the nodes that are left are the ones that are entered. -/
theorem Event.Nested.left_perm_entered {es : List Event} (h : Event.Nested es) :
    (es.filterMap Event.left?).Perm (es.filterMap Event.entered?) := by
  induction h with
  | nil => exact .refl _
  | @node n inside behind _ _ ih ih' =>
    simp only [List.filterMap_cons, List.filterMap_append, Event.left?, Event.entered?]
    exact List.perm_middle.trans ((ih.append ih').cons n)

/-! ### The loop -/

namespace Walk

def openAfter : Nat → List Frame → List Frame
  | 0, fs => fs
  | k + 1, fs =>
    match next? fs with
    | none => []
    | some (_, fs) => openAfter k fs

theorem pending_eq_nil {fs : List Frame} : pending fs = [] ↔ fs = [] := by
  rcases fs with _ | ⟨⟨n, cs⟩, fs⟩ <;> simp [pending]

/-- Visits take away from the front of what is pending, and nothing else. -/
theorem pending_openAfter (k : Nat) (fs : List Frame) :
    pending (openAfter k fs) = (pending fs).drop k := by
  induction k generalizing fs with
  | zero => rfl
  | succ k ih =>
    rw [openAfter]
    rcases next?_cases fs with ⟨rfl, hnone⟩ | ⟨e, fs', hnext, hpending⟩
    · rw [hnone]
      rfl
    · rw [hnext, hpending, List.drop_succ_cons]
      exact ih fs'

/-- The loop has nothing open as soon as there were two visits for each node, and not before. -/
theorem openAfter_eq_nil_iff (n : Node) (k : Nat) :
    openAfter k [(n, n.children)] = [] ↔ 2 * n.size ≤ k + 1 := by
  have hlength := Node.length_events n
  rw [pending_root, List.length_cons] at hlength
  rw [← pending_eq_nil, pending_openAfter, List.drop_eq_nil_iff]
  omega

end Walk

/-- The loop that walks a tree is the recursive traversal, whatever is done at each visit. It enters
and leaves every node of the tree once, properly nested. However far it is followed, it has made as
many of the visits in their order, and it ends after two visits for each node. -/
theorem walk_eq_traversal (root : Node) :
    (∀ {σ ε : Type} (handle : Event → σ → Except ε σ) (s : σ),
      walk handle root s = Event.handleAll handle root.events s) ∧
    root.events.filterMap Event.entered? = root.preOrder ∧
    (root.events.filterMap Event.left?).Perm root.preOrder ∧
    Event.Nested root.events ∧
    root.events.length = 2 * root.size ∧
    (∀ {σ ε : Type} (handle : Event → σ → Except ε σ) (s : σ) (k : Nat),
      Walk.visits handle k [(root, root.children)] s =
        Event.handleAll handle (root.events.tail.take k) s) ∧
    ∀ k, Walk.openAfter k [(root, root.children)] = [] ↔ 2 * root.size ≤ k + 1 := by
  have hnested := Node.nested_events root
  have hentered := Node.entered_events root
  refine ⟨fun handle s => walk_eq_handleAll handle root s, hentered, ?_, hnested,
    Node.length_events root, fun handle s k => ?_, Walk.openAfter_eq_nil_iff root⟩
  · rw [← hentered]
    exact hnested.left_perm_entered
  · rw [Walk.visits_eq_take, Walk.pending_root root, List.tail_cons]

end HeaderBridge.Grammar
