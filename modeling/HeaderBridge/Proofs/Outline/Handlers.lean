import HeaderBridge.Header
import HeaderBridge.Outline.OfTree
import HeaderBridge.Proofs.Grammar.Provenance
import HeaderBridge.Proofs.Outline.Growth

/-! # Entering and leaving rules

A rule opens at most one node, under the innermost open one, and closes the node
that it has opened. Inside some rules others are switched off, or nullability is
not the declaration's; leaving such a rule takes this back.
-/

namespace HeaderBridge.Outline

open Grammar

namespace Progress

/-- The given node is the innermost open one. -/
structure Ready (p : Progress) (top : Nat) : Prop where
  opened : ∃ rest, p.draft.opened = top :: rest
  top_lt : top < p.draft.outline.size

variable {p : Progress} {top : Nat}

theorem Ready.entry (h : p.Ready top) : ∃ t, p.draft.outline.get? top = some t ∧
    ∀ tag, p.draft.currentWith? tag = .ok (if t.kind.tag = tag then some top else none) := by
  obtain ⟨rest, ho⟩ := h.opened
  obtain ⟨t, ht⟩ := exists_get? h.top_lt
  exact ⟨t, ht, Draft.currentWith?_eq ho ht⟩

end Progress

open Progress

theorem Kind.tag_setName (name : String) (k : Kind) : (k.setName name).tag = k.tag := by
  cases k <;> rfl

/-! ### Entering and leaving -/

/-- The rules that list types, inside which nullability does not belong to the
declaration. -/
def ListsTypes (r : Rule) : Prop :=
  r = .genericsSpecifier ∨ r = .genericParameterClause ∨ r = .blockParameters

instance (r : Rule) : Decidable (ListsTypes r) := by unfold ListsTypes; infer_instance

def rulesInside (r : Rule) (m : RuleMap) : RuleMap :=
  if r = .genericTypeSpecifier then m.suppress .protocolList else m

def nestingInside (r : Rule) (k : Nat) : Nat := if ListsTypes r then k + 1 else k

theorem targets_rulesInside (r : Rule) (m : RuleMap) : (rulesInside r m).targets = m.targets := by
  unfold rulesInside
  split <;> rfl

theorem leaveParts_inside (n : Node) (q : Progress) (m : RuleMap) (k : Nat)
    (hm : q.rules = rulesInside n.rule m) (hk : q.nesting = nestingInside n.rule k) :
    leaveParts n q = { q with rules := m, nesting := k } := by
  obtain ⟨d, m', k'⟩ := q
  subst hm hk
  by_cases hg : n.rule = .genericTypeSpecifier
  · simp [leaveParts, hg, rulesInside, nestingInside, ListsTypes, RuleMap.suppress, RuleMap.restore]
  · by_cases hl : ListsTypes n.rule
    · rcases hl with h | h | h <;>
        simp [leaveParts, h, rulesInside, nestingInside, ListsTypes]
    · have hl' := hl
      simp only [ListsTypes, not_or] at hl
      unfold leaveParts
      split <;> simp_all [rulesInside, nestingInside]

/-! ### The nodes that rules open -/

theorem lookup_headerTargets (r : Rule) (hr : r ≠ .translationUnit) (t : Target)
    (h : headerTargets.lookup r = some t) :
    ∃ tag kind, t = .fresh tag ∧ tag.fresh? = some kind ∧ kind.tag = tag := by
  have hall : ∀ r ∈ Rule.all, r ≠ .translationUnit → ∀ t ∈ headerTargets.lookup r,
      ∃ tag ∈ Tag.all, ∃ kind ∈ tag.fresh?, t = .fresh tag ∧ kind.tag = tag := by
    decide
  obtain ⟨tag, -, kind, hk, ht, hkt⟩ := Rule.forall_of_all hall r hr t h
  exact ⟨tag, kind, ht, hk, hkt⟩

theorem enter_unmapped {m : RuleMap} {r : Rule} (h : m.target? r = none) (span : Option Span)
    (d : Draft) : m.enter r span d = .ok (none, d) ∧ m.leave r d = .ok d := by
  simp [RuleMap.enter, RuleMap.leave, h]

theorem enter_fresh {m : RuleMap} {r : Rule} {tag : Tag} {kind : Kind}
    (h : m.target? r = some (.fresh tag)) (hk : tag.fresh? = some kind) {d : Draft} {top : Nat}
    {rest : List Nat} (ho : d.opened = top :: rest) (ht : top < d.outline.size)
    (span : Option Span) :
    m.enter r span d = .ok (some d.outline.size,
      ⟨d.outline.hang top { kind, span }, d.outline.size :: d.opened⟩) := by
  simp [RuleMap.enter, h, hk, Draft.openNew_eq ho ht]

theorem leave_fresh {m : RuleMap} {r : Rule} {tag : Tag} (h : m.target? r = some (.fresh tag))
    {d : Draft} {id : Nat} {rest : List Nat} (ho : d.opened = id :: rest) {e : Entry}
    (he : d.outline.get? id = some e) (htag : e.kind.tag = tag) :
    m.leave r d = .ok { d with opened := rest } := by
  simp [RuleMap.leave, h, Draft.close, ho, get_eq_ok he, htag]

def NestingOpen (e : Event) (p : Progress) : Prop :=
  ∀ n, e = .leave n → ListsTypes n.rule → 0 < p.nesting

/-! ### Headers -/

theorem translationUnit_not_called (r : Rule) : .translationUnit ∉ r.body.calls := by
  have h : ∀ r ∈ Rule.all, .translationUnit ∉ r.body.calls := by decide
  exact Rule.forall_of_all h r

/-- The parse tree of a header has the rule for the whole header at its top and
nowhere else. -/
theorem parse_translationUnit {text : String} {tree : Node} (h : Header.parse text = .ok tree) :
    tree.rule = .translationUnit ∧
      ∀ c ∈ tree.children, ∀ m, Node.Within m c → m.rule ≠ .translationUnit := by
  unfold Header.parse Grammar.parse Rule.matchText at h
  cases hm : Rule.run (callBound text.length) .spaced .translationUnit (.ofText text) .start with
  | failed f => simp [hm] at h
  | exhausted => simp [hm] at h
  | matched c ns f =>
    have hb : callBound text.length = callBound text.length - 1 + 1 := by
      have hpos : 0 < callBound text.length := Nat.mul_pos (by omega) (by omega)
      omega
    have hrun := hm
    rw [hb] at hrun
    obtain ⟨ms, hms, rfl⟩ := Matcher.named_matched.mp hrun
    simp only [hm, Except.ok.injEq] at h
    subst h
    refine ⟨rfl, fun x hx m hmx => ?_⟩
    -- below the top, only rules that some body calls leave nodes
    have hgood := fun (r : Rule) (hr : r ≠ .translationUnit) mode =>
      Rule.run_allNodes (S := (· ≠ .translationUnit))
        (fun r _ r' hr' he => translationUnit_not_called r (he ▸ hr'))
        (callBound text.length - 1) mode r hr
    have hcalls : ∀ r ∈ Rule.translationUnit.body.calls, r ≠ .translationUnit := by
      rintro r hr rfl
      exact translationUnit_not_called _ hr
    exact (Expr.eval_allNodes _ _ (hgood .whitespace (by decide) .tight)
      (hgood .comment (by decide) .tight)
      _ (fun r hr => hgood r (hcalls r hr) .spaced) hms x hx m hmx).2

end HeaderBridge.Outline
