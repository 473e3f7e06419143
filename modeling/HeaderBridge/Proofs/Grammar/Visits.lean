import HeaderBridge.Grammar.Walk

/-! # The visits of a walk

The loop that walks a parse tree makes exactly the visits of the recursive
traversal, in the same order, and its bound on the number of visits is the
number of visits there are.
-/

namespace HeaderBridge.Grammar

variable {σ ε : Type}

def Event.handleAll (handle : Event → σ → Except ε σ) (es : List Event) (s : σ) : Except ε σ :=
  es.foldlM (fun s e => handle e s) s

section HandleAll

variable {handle : Event → σ → Except ε σ}

@[simp] theorem Event.handleAll_nil (s : σ) : Event.handleAll handle [] s = .ok s := rfl

theorem Event.handleAll_cons (e : Event) (es : List Event) (s : σ) :
    Event.handleAll handle (e :: es) s = (handle e s).bind (Event.handleAll handle es) := rfl

theorem Event.handleAll_append (es fs : List Event) (s : σ) :
    Event.handleAll handle (es ++ fs) s =
      (Event.handleAll handle es s).bind (Event.handleAll handle fs) := by
  simp only [Event.handleAll, List.foldlM_append]
  rfl

/-- Every visit is reached, and the property holds of it and of the state before it. -/
def Event.Along (handle : Event → σ → Except ε σ) (P : Event → σ → Prop) (es : List Event) (s : σ) :
    Prop :=
  ∀ before e after, es = before ++ e :: after →
    ∃ s', Event.handleAll handle before s = .ok s' ∧ P e s'

variable {P : Event → σ → Prop} {e : Event} {es fs : List Event} {s s' : σ}

theorem Event.Along.nil : Event.Along handle P [] s := by
  intro before e after h
  simp at h

theorem Event.Along.single (h : P e s) : Event.Along handle P [e] s := by
  intro before e' after he
  obtain ⟨rfl, rfl, -⟩ : before = [] ∧ e' = e ∧ after = [] := by
    cases before with
    | nil => simpa [eq_comm] using he
    | cons x xs => simp at he
  exact ⟨s, rfl, h⟩

theorem Event.Along.append (h : Event.Along handle P es s)
    (hs : Event.handleAll handle es s = .ok s') (h' : Event.Along handle P fs s') :
    Event.Along handle P (es ++ fs) s := by
  intro before e after he
  rcases List.append_eq_append_iff.mp he with ⟨as, rfl, hfs⟩ | ⟨bs, hes, hfs⟩
  · obtain ⟨q, hq, hp⟩ := h' as e after hfs
    refine ⟨q, ?_, hp⟩
    rw [Event.handleAll_append, hs]
    exact hq
  · cases bs with
    | nil =>
      obtain ⟨q, hq, hp⟩ := h' [] e after (by simpa using hfs.symm)
      obtain rfl : s' = q := by simpa using hq
      obtain rfl : es = before := by simpa using hes
      exact ⟨s', hs, hp⟩
    | cons b bs =>
      obtain ⟨rfl, rfl⟩ : e = b ∧ after = bs ++ fs := by simpa using hfs
      exact h before e bs hes

end HandleAll

mutual

theorem Node.length_events : ∀ n : Node, n.events.length = 2 * n.size
  | .mk _ _ _ ns => by
    simp only [Node.events, Node.size, List.length_cons, List.length_append, List.length_nil,
      Node.length_eventsAll ns]
    omega

theorem Node.length_eventsAll : ∀ ns : List Node, (Node.eventsAll ns).length = 2 * Node.sizeAll ns
  | [] => rfl
  | n :: ns => by
    simp only [Node.eventsAll, Node.sizeAll, List.length_append, Node.length_events n,
      Node.length_eventsAll ns]
    omega

end

namespace Walk

/-- The visits that are still to be made while the given nodes are open. -/
def pending : List Frame → List Event
  | [] => []
  | (n, cs) :: fs => Node.eventsAll cs ++ .leave n :: pending fs

/-- A visit takes the first of the pending ones. -/
theorem next?_cases (fs : List Frame) : (fs = [] ∧ next? fs = none) ∨
    ∃ e fs', next? fs = some (e, fs') ∧ pending fs = e :: pending fs' := by
  rcases fs with _ | ⟨⟨n, _ | ⟨⟨r, s, t, ns⟩, cs⟩⟩, fs⟩
  · exact .inl ⟨rfl, rfl⟩
  · exact .inr ⟨_, _, rfl, rfl⟩
  · refine .inr ⟨_, _, rfl, ?_⟩
    simp [pending, Node.eventsAll, Node.events, Node.children]

/-- However often the loop goes round, its visits are the first of the pending ones. -/
theorem visits_eq_take (handle : Event → σ → Except ε σ) (k : Nat) (fs : List Frame) (s : σ) :
    visits handle k fs s = Event.handleAll handle ((pending fs).take k) s := by
  induction k generalizing fs s with
  | zero => rfl
  | succ k ih =>
    rw [visits]
    rcases next?_cases fs with ⟨rfl, hnone⟩ | ⟨e, fs', hnext, hpending⟩
    · rw [hnone]
      rfl
    · rw [hnext, hpending, List.take_succ_cons, Event.handleAll_cons]
      cases hs : handle e s with
      | error err => simp only [hs]; rfl
      | ok s' => simp only [hs]; exact ih fs' s'

theorem pending_root (n : Node) : n.events = .enter n :: pending [(n, n.children)] := by
  obtain ⟨r, s, t, ns⟩ := n
  rfl

end Walk

/-- A walk makes the visits of the tree, in their order. -/
theorem walk_eq_handleAll (handle : Event → σ → Except ε σ) (root : Node) (s : σ) :
    walk handle root s = Event.handleAll handle root.events s := by
  have hlength := Node.length_events root
  rw [Walk.pending_root, List.length_cons] at hlength
  rw [walk, Walk.pending_root, Event.handleAll_cons]
  cases handle (.enter root) s with
  | error err => rfl
  | ok s' =>
    -- the bound of the loop takes all that is pending
    have htake := Walk.visits_eq_take handle (2 * root.size) [(root, root.children)] s'
    rw [List.take_of_length_le (by omega)] at htake
    exact htake

end HeaderBridge.Grammar
