import HeaderBridge.Header
import HeaderBridge.Proofs.Grammar.Consumption

/-! # Where the nodes of a parse tree lie

A node lies in the text at its offset, and its parts lie in its own text, one
behind the other. This holds of every match, since a match lays its nodes between
its start and its end.
-/

namespace HeaderBridge

namespace Grammar

open Matcher

/-! ### Nodes in a text -/

theorem utf8ByteSize_eq_bytes (s : String) : s.utf8ByteSize = bytes s.toList := by
  rw [← utf8ByteSize_ofList, String.ofList_toList]

theorem Node.stop_eq (n : Node) : n.stop = n.start + bytes n.text.toList := by
  rw [stop, utf8ByteSize_eq_bytes]

theorem Node.add_bytes_eq {n : Node} {p : Nat} {a : List Char} (h : n.start = p + bytes a)
    (b : List Char) : p + bytes (a ++ (n.text.toList ++ b)) = n.stop + bytes b := by
  rw [n.stop_eq, h, bytes_append, bytes_append]
  omega

/-- The nodes stand one behind the other in a text that begins at the given offset. -/
def Strewn : Nat → List Char → List Node → Prop
  | _, _, [] => True
  | p, cs, n :: ns =>
    ∃ a b, cs = a ++ (n.text.toList ++ b) ∧ n.start = p + bytes a ∧ Strewn n.stop b ns

/-- The parts of the node, and all nodes below, stand one behind the other in the text of the node
they belong to. -/
inductive Node.Laid : Node → Prop where
  | mk {r : Rule} {s : Nat} {t : String} {ns : List Node} :
      Strewn s t.toList ns → (∀ n ∈ ns, n.Laid) → Laid (.mk r s t ns)

theorem Node.Laid.strewn {n : Node} (h : n.Laid) : Strewn n.start n.text.toList n.children := by
  cases h with
  | mk hs _ => exact hs

theorem Node.Laid.child {n x : Node} (h : n.Laid) (hx : x ∈ n.children) : x.Laid := by
  cases h with
  | mk _ hns => exact hns x hx

namespace Strewn

variable {p : Nat} {cs ds : List Char} {ns ms : List Node}

theorem prepend (h : Strewn (p + bytes cs) ds ns) : Strewn p (cs ++ ds) ns := by
  cases ns with
  | nil => trivial
  | cons n ns =>
    obtain ⟨a, b, rfl, hstart, hrest⟩ := h
    exact ⟨cs ++ a, b, by simp, by rw [hstart, bytes_append, Nat.add_assoc], hrest⟩

theorem append (h : Strewn p cs ns) (h' : Strewn (p + bytes cs) ds ms) :
    Strewn p (cs ++ ds) (ns ++ ms) := by
  induction ns generalizing p cs with
  | nil => exact h'.prepend
  | cons n ns ih =>
    obtain ⟨a, b, rfl, hstart, hrest⟩ := h
    rw [n.add_bytes_eq hstart] at h'
    exact ⟨a, b ++ ds, by simp, hstart, ih hrest h'⟩

theorem of_mem (h : Strewn p cs ns) {n : Node} (hn : n ∈ ns) :
    ∃ a b, cs = a ++ (n.text.toList ++ b) ∧ n.start = p + bytes a := by
  induction ns generalizing p cs with
  | nil => cases hn
  | cons m ns ih =>
    obtain ⟨a, b, rfl, hstart, hrest⟩ := h
    rcases List.mem_cons.mp hn with rfl | hn
    · exact ⟨a, b, rfl, hstart⟩
    · obtain ⟨a', b', rfl, hstart'⟩ := ih hrest hn
      refine ⟨a ++ (m.text.toList ++ a'), b', by simp, ?_⟩
      rw [hstart', m.add_bytes_eq hstart]

theorem split (h : Strewn p cs (ns ++ ms)) :
    ∃ a b, cs = a ++ b ∧ Strewn p a ns ∧ Strewn (p + bytes a) b ms := by
  induction ns generalizing p cs with
  | nil => exact ⟨[], cs, rfl, trivial, h⟩
  | cons n ns ih =>
    obtain ⟨a, b, rfl, hstart, hrest⟩ := h
    obtain ⟨x, y, rfl, hns, hms⟩ := ih hrest
    refine ⟨a ++ (n.text.toList ++ x), y, by simp, ⟨a, x, rfl, hstart, hns⟩, ?_⟩
    rw [n.add_bytes_eq hstart]
    exact hms

end Strewn

structure Node.LiesIn (cs : List Char) (n : Node) : Prop where
  laid : n.Laid
  split : ∃ a b, cs = a ++ (n.text.toList ++ b) ∧ n.start = bytes a

theorem Node.LiesIn.child {cs : List Char} {n x : Node} (h : n.LiesIn cs) (hx : x ∈ n.children) :
    x.LiesIn cs ∧ n.start ≤ x.start ∧ x.stop ≤ n.stop := by
  obtain ⟨a, b, rfl, hstart⟩ := h.split
  obtain ⟨a', b', htext, hstart'⟩ := h.laid.strewn.of_mem hx
  refine ⟨⟨h.laid.child hx, a ++ a', b' ++ b, ?_, ?_⟩, by omega, ?_⟩
  · rw [htext]
    simp
  · rw [hstart', hstart, bytes_append]
  · rw [n.stop_eq, htext, x.add_bytes_eq hstart']
    exact Nat.le_add_right _ _

/-! ### Nodes of matches -/

/-- A match lays its nodes into the text that it passes over. -/
def Lays (c c' : Cursor) (ns : List Node) : Prop :=
  ∃ x, c.rest = x ++ c'.rest ∧ c'.offset = c.offset + bytes x ∧ Strewn c.offset x ns ∧
    ∀ n ∈ ns, n.Laid

theorem Lays.composable : Composable Lays where
  refl c := ⟨[], rfl, rfl, trivial, by simp⟩
  trans := by
    rintro c₁ c₂ c₃ ns ms ⟨x, hrest, hoffset, hns, hlaid⟩ ⟨y, hrest', hoffset', hms, hlaid'⟩
    refine ⟨x ++ y, ?_, ?_, hns.append (hoffset ▸ hms), fun n hn => ?_⟩
    · rw [hrest, hrest', List.append_assoc]
    · rw [hoffset', hoffset, bytes_append, Nat.add_assoc]
    · exact (List.mem_append.mp hn).elim (hlaid n) (hlaid' n)

theorem Lays.of_ahead {c c' : Cursor} (h : c.Ahead c') : Lays c c' [] := by
  obtain ⟨x, hrest, hoffset⟩ := h
  exact ⟨x, hrest, hoffset, trivial, by simp⟩

theorem Lays.named {a : Matcher} (r : Rule) (ha : Results Lays a) : Results Lays (named r a) := by
  intro c f c' ns f' h
  obtain ⟨ms, hms, rfl⟩ := named_matched.mp h
  obtain ⟨x, hrest, hoffset, hstrewn, hlaid⟩ := ha hms
  have htext : (c.textTo c').toList = x := by
    rw [Cursor.textTo, hoffset, Nat.add_sub_cancel_left, hrest, takeBytes_append,
      String.toList_ofList]
  refine ⟨x, hrest, hoffset, ⟨[], [], ?_, rfl, trivial⟩, ?_⟩
  · simp [Node.text, htext]
  · intro n hn
    obtain rfl := List.mem_singleton.mp hn
    exact .mk (by rwa [htext]) hlaid

theorem Rule.run_lays (n : Nat) (mode : Mode) (r : Rule) : Results Lays (r.run n mode) := by
  induction n generalizing mode r with
  | zero =>
    intro c f c' ns f' h
    cases h
  | succ n ih =>
    have hbody : ∀ mode, Results Lays (r.body.eval (Rule.run n) n mode) := fun mode =>
      Expr.eval_results Lays.composable (fun _ _ _ h => .of_ahead (.of_skip? h))
        (fun _ _ _ h => .of_ahead (.of_step? h)) (ih _ _) (ih _ _) r.body fun r' _ => ih mode r'
    cases hk : r.kind <;> cases mode <;> simp only [Rule.run, hk]
    case branch.spaced => exact Lays.named r (hbody _)
    case token.spaced => exact Lays.named r (hbody _)
    all_goals exact hbody _

end Grammar

open Grammar

/-- The parse tree of a header lies in its text. -/
theorem Header.liesIn_of_parse {text : String} {tree : Node} (h : Header.parse text = .ok tree) :
    tree.LiesIn text.toList := by
  unfold Header.parse Grammar.parse Rule.matchText at h
  cases hm : Rule.translationUnit.run (callBound text.length) .spaced (.ofText text) .start with
  | matched c ns f =>
    obtain ⟨x, hrest, -, hstrewn, hlaid⟩ := Rule.run_lays _ _ _ hm
    cases ns with
    | nil => simp [hm] at h
    | cons n ns =>
      obtain rfl : n = tree := by simpa [hm] using h
      obtain ⟨a, b, rfl, hstart⟩ := hstrewn.of_mem List.mem_cons_self
      refine ⟨hlaid n List.mem_cons_self, a, b ++ c.rest, ?_, ?_⟩
      · rw [show text.toList = _ from hrest]
        simp
      · rw [hstart]
        exact Nat.zero_add _
  | failed f => simp [hm] at h
  | exhausted => simp [hm] at h

end HeaderBridge
