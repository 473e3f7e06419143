import HeaderBridge.DeclaredType.Reading
import HeaderBridge.Proofs.Grammar.Nodes
import HeaderBridge.Proofs.Grammar.Rereading

/-! # Complete type names

A text is a complete type name exactly if the rule for type names reads all of it
but gaps around it. The text of every type argument is one, with the parts of the
argument.
-/

namespace HeaderBridge

open Grammar Grammar.Expr

theorem parseTypeName?_eq_some {s : String} {m : Node} (h : parseTypeName? s = some m) :
    ∃ c, Rule.typeName.reading .spaced (skipGap s.toList) = some (c, [m.unplaced]) ∧
      skipGap c = [] := by
  unfold parseTypeName? at h
  split at h
  · next entry rest hparse =>
    obtain ⟨cs, hread⟩ := parse_eq_ok hparse
    obtain ⟨x, ms, -, hbody, hentry⟩ := Rule.reading_branch_eq_some rfl hread
    obtain ⟨hentry, -⟩ := List.cons.inj hentry
    have htypeName : Rule.typeNameEntry.body =
        .seq (.seq .start (.call .typeName)) (.call .endOfInput) := rfl
    rw [htypeName, reading_seq, Reading.andThen_eq_some] at hbody
    obtain ⟨cs₁, ns₁, ns₂, h₁, h₂, rfl⟩ := hbody
    rw [reading_seq, reading_start, Reading.some_nil_andThen, skipBetween, reading_call] at h₁
    obtain ⟨t, ms, rfl⟩ := Rule.reading_singleton (.inl rfl) h₁
    have hend : skipGap cs₁ = [] := by
      rw [skipBetween, reading_call, Rule.reading_branch rfl, Reading.named] at h₂
      obtain ⟨y, hy, -⟩ := Option.map_eq_some_iff.mp h₂
      have hfinish : Rule.endOfInput.body = .finish := rfl
      rw [hfinish, reading_finish, Option.ite_none_right_eq_some] at hy
      simpa using hy.1
    have hchild := Node.child?_unplaced entry .typeName
    rw [h, hentry] at hchild
    have hm : Node.mk .typeName 0 t ms = m.unplaced := Option.some.inj hchild
    exact ⟨cs₁, by rw [h₁, hm], hend⟩
  · simp at h

theorem parseTypeName?_of_shape {s : String} {n : Node}
    (h : (Expr.call .typeName).shape (skipGap s.toList) = some ([], [n])) :
    ∃ m, parseTypeName? s = some m ∧ m.skeleton = n := by
  obtain ⟨⟨c, ns⟩, hread, hy⟩ := Option.map_eq_some_iff.mp h
  obtain ⟨hc, hns⟩ := Prod.mk.inj hy
  rw [reading_call] at hread
  obtain ⟨t, ms, rfl⟩ := Rule.reading_singleton (.inl rfl) hread
  obtain rfl := List.singleton_inj.mp hns
  have htypeName : Rule.typeNameEntry.body =
      .seq (.seq .start (.call .typeName)) (.call .endOfInput) := rfl
  have hfinish : Rule.endOfInput.body = .finish := rfl
  have hbody : Rule.typeNameEntry.body.reading .spaced s.toList =
      some ([], [.mk .typeName 0 t ms, .mk .endOfInput 0 "" []]) := by
    have hc : skipGap c = [] := hc
    rw [htypeName, reading_seq, reading_seq, reading_start, Reading.some_nil_andThen, skipBetween,
      reading_call, hread, Reading.some_andThen, skipBetween, hc, reading_call,
      Rule.reading_branch rfl, hfinish, reading_finish]
    rfl
  have hentry : Rule.typeNameEntry.reading .spaced s.toList = _ := Rule.reading_branch rfl
  rw [hbody] at hentry
  obtain ⟨ns, hparse, hns⟩ := parse_of_reading hentry
  obtain ⟨entry, rfl, hentry⟩ := List.map_eq_singleton_iff.mp hns
  have hchild := Node.child?_unplaced entry .typeName
  rw [hentry] at hchild
  obtain ⟨m, hm, hn⟩ := Option.map_eq_some_iff.mp
    (hchild.symm.trans (rfl : _ = some (Node.mk .typeName 0 t ms)))
  refine ⟨m, by rw [parseTypeName?, hparse, ← hm], ?_⟩
  rw [← Node.skeleton_unplaced, hn]

theorem read_of_parseTypeName? {s : String} {m : Node} (h : parseTypeName? s = some m) :
    m.Read ∧ m.rule = .typeName := by
  obtain ⟨c, hread, -⟩ := parseTypeName?_eq_some h
  obtain ⟨t, ms, hm⟩ := Rule.reading_singleton (.inl rfl) hread
  have hrule : m.rule = .typeName := by
    rw [← Node.rule_unplaced, List.singleton_inj.mp hm]
    rfl
  exact ⟨⟨_, c, solid_skipGap _, by rw [hrule, hread]⟩, hrule⟩

/-- The text of a type argument is a complete type name with the same parts. -/
theorem parseTypeName?_argument {a : Node} (ha : a.Read) (hr : a.rule = .typeArgument) :
    ∃ base declarator m, a.skeleton = .branch .typeArgument (base ++ declarator) ∧
      (declarator = [] ∨ ∃ ms, declarator = [.branch .pointer ms]) ∧
      parseTypeName? a.text = some m ∧ m.skeleton = .typeName base declarator := by
  obtain ⟨cs, c, hsolid, hread⟩ := ha
  rw [hr, ← reading_call] at hread
  obtain ⟨x, r, rfl, hreach, hx⟩ := argument_reading (specifiersReread _) hsolid hread
  obtain ⟨t, ms, ht, -, ha⟩ := Rule.reading_branch_eq_some rfl hread
  obtain ⟨g, rfl, hg⟩ := hreach.exists_gap
  obtain ⟨base, declarator, hns, hpointer, hwhole⟩ := hx.whole
  obtain rfl : t = x ++ g := by
    rw [← List.append_assoc] at ht
    exact (List.append_cancel_right ht).symm
  have htext : a.text.toList = x ++ g := by
    rw [← Node.text_unplaced, List.singleton_inj.mp ha]
    simp [Node.text]
  have hskip : skipGap a.text.toList = x ++ g := by rw [htext, (hx.firm.append g).solid.skipGap]
  obtain ⟨m, hparse, hm⟩ := parseTypeName?_of_shape (by rw [hskip, hwhole g hg, hg])
  refine ⟨base, declarator, m, ?_, hpointer, hparse, hm⟩
  rw [← Node.skeleton_unplaced]
  exact List.singleton_inj.mp hns

end HeaderBridge
