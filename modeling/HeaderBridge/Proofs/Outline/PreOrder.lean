import HeaderBridge.Proofs.Outline.Sketch

/-! # The outline of a header

The walk over the parse tree of any header succeeds. It closes every node that
it opens, takes back every exception and every level of nesting, and never takes
back a level that is not there. The outline that it leaves is numbered in
pre-order.
-/

namespace HeaderBridge.Outline

open Grammar

/-- For every header that can be parsed, the walk over its parse tree meets no
fault; at its end nothing is open, no rule is switched off and no list of types
is open, and at each step a level of nesting is taken back only if there is one.
The outline is numbered in pre-order, and each node but the root hangs in
exactly one place. -/
theorem walk_header_preOrdered (maxDepth : Nat) (text : String) (tree : Node)
    (h : Header.parse text = .ok tree) :
    ∃ p, walk (visit (.respelled maxDepth)) tree .start = .ok p ∧
      p.draft.opened = [] ∧ p.rules.exceptions = [] ∧ p.nesting = 0 ∧
      (∀ before n after, tree.events = before ++ .leave n :: after → ListsTypes n.rule →
        ∃ q, Event.handleAll (visit (.respelled maxDepth)) before .start = .ok q ∧ 0 < q.nesting) ∧
      ofTree maxDepth tree = .ok p.draft.outline ∧ p.draft.outline.PreOrdered := by
  obtain ⟨hwalk, halong⟩ := walk_eq (.respelled maxDepth) h
  obtain ⟨hparent, hsize, hlayout⟩ := layout_plantAll _ rfl
  refine ⟨_, hwalk, rfl, rfl, rfl, fun before n after he hl => ?_, ofTreeWith_eq _ h,
    Layout.preOrdered hparent hsize hlayout⟩
  obtain ⟨q, hq, hnesting⟩ := halong before _ after he
  exact ⟨q, hq, hnesting n rfl hl⟩

/-- The walk over a header whose method has a generic type, so that nested types
are entered and left on the way. -/
theorem walk_generic_method_preOrdered : ∃ tree p,
    Header.parse "@protocol A <P>\n- (B<C<D *> *> *)f;\n@end" = .ok tree ∧
      walk (visit (.respelled 32)) tree .start = .ok p ∧ p.draft.opened = [] ∧ p.nesting = 0 ∧
      p.draft.outline.PreOrdered := by
  have hok : (Header.parse "@protocol A <P>\n- (B<C<D *> *> *)f;\n@end").toOption.isSome =
      true := by
    decide +kernel
  obtain ⟨tree, htree⟩ := Option.isSome_iff_exists.mp hok
  have h : Header.parse "@protocol A <P>\n- (B<C<D *> *> *)f;\n@end" = .ok tree := by
    cases hp : Header.parse "@protocol A <P>\n- (B<C<D *> *> *)f;\n@end" with
    | error f => simp [hp, Except.toOption] at htree
    | ok t => simpa [hp, Except.toOption] using htree
  obtain ⟨p, hw, ho, -, hn, -, -, hpre⟩ := walk_header_preOrdered 32 _ tree h
  exact ⟨tree, p, h, hw, ho, hn, hpre⟩

end HeaderBridge.Outline
