import HeaderBridge.Header
import HeaderBridge.Proofs.Grammar.Nodes

/-! # Whole headers

A header can be parsed exactly if its declarations reach the end of its text, and
the parts of its parse tree are these declarations and the end.
-/

namespace HeaderBridge

open Grammar Grammar.Expr

def Grammar.Node.atEnd : Node := .mk .endOfInput 0 "" []

/-- The declarations at the beginning of a text, and what is left behind them. -/
def Header.units (cs : List Char) : List Char × List Node :=
  ((many (call .externalDeclaration)).reading .spaced (skipGap cs)).getD (skipGap cs, [])

theorem Header.reading_units (cs : List Char) :
    (many (call .externalDeclaration)).reading .spaced (skipGap cs) =
      some (Header.units cs) := by
  rw [units, reading_many]
  cases (call .externalDeclaration).reading .spaced (skipGap cs) <;> rfl

theorem Grammar.Rule.reading_endOfInput (cs : List Char) :
    Rule.endOfInput.reading .spaced cs = if cs = [] then some ([], [.atEnd]) else none := by
  have hbody : Rule.endOfInput.body = finish := rfl
  rw [Rule.reading_branch rfl, hbody, reading_finish]
  cases cs <;> rfl

theorem Grammar.Rule.reading_translationUnit (cs : List Char) :
    Rule.translationUnit.reading .spaced cs =
      if skipGap (Header.units cs).1 = [] then
        some ([], [.mk .translationUnit 0 (.ofList cs) ((Header.units cs).2 ++ [.atEnd])])
      else none := by
  have hbody : Rule.translationUnit.body =
      seq (seq start (many (call .externalDeclaration))) (call .endOfInput) := rfl
  rw [Rule.reading_branch rfl, hbody, reading_seq, reading_seq, reading_start]
  simp only [Reading.andThen, Option.bind_some, skipBetween, Header.reading_units,
    reading_call, Rule.reading_endOfInput]
  by_cases hend : skipGap (Header.units cs).1 = []
  · simp [hend, Reading.named]
  · simp [hend, Reading.named]

theorem Header.parse_eq_ok {text : String} {tree : Node} (h : Header.parse text = .ok tree) :
    skipGap (Header.units text.toList).1 = [] ∧
      tree.unplaced = .mk .translationUnit 0 text
        ((Header.units text.toList).2 ++ [.atEnd]) := by
  unfold Header.parse at h
  cases hp : Grammar.parse .translationUnit text with
  | error f => simp [hp] at h
  | ok ns =>
    obtain ⟨cs, hread⟩ := Grammar.parse_eq_ok hp
    rw [Rule.reading_translationUnit, Option.ite_none_right_eq_some, Option.some.injEq,
      Prod.mk.injEq, String.ofList_toList] at hread
    obtain ⟨hend, -, hns⟩ := hread
    cases ns with
    | nil => simp at hns
    | cons m ns =>
      obtain rfl : m = tree := by simpa [hp] using h
      exact ⟨hend, (List.cons.inj hns).1.symm⟩

theorem Header.parse_of_units {text : String}
    (h : skipGap (Header.units text.toList).1 = []) :
    ∃ tree, Header.parse text = .ok tree := by
  have hread := Rule.reading_translationUnit text.toList
  rw [if_pos h] at hread
  obtain ⟨ns, hparse, hns⟩ := Grammar.parse_of_reading hread
  cases ns with
  | nil => simp at hns
  | cons m ns => exact ⟨m, by rw [Header.parse, hparse]⟩

theorem Header.parse_of_not_units {text : String}
    (h : skipGap (Header.units text.toList).1 ≠ []) :
    ∃ f help, Header.parse text = .error (.malformed f help) := by
  have hread := Rule.reading_translationUnit text.toList
  rw [if_neg h] at hread
  obtain ⟨f, hparse⟩ := Grammar.parse_of_reading_eq_none hread
  exact ⟨f, _, by rw [Header.parse, hparse]⟩

theorem Header.exists_parse {text : String} (h : (Header.parse text).isOk = true) :
    ∃ tree, Header.parse text = .ok tree := by
  cases hp : Header.parse text with
  | ok tree => exact ⟨tree, rfl⟩
  | error f =>
    rw [hp] at h
    cases h

/-- The parts of a header are read from its text, each by a rule for a whole declaration. -/
theorem Header.read_of_parse {text : String} {tree : Node} (h : Header.parse text = .ok tree) :
    ∀ x ∈ tree.children, x.Read ∧ x.rule ∈ Rule.translationUnit.body.seen.flatMap Rule.leaves := by
  obtain ⟨-, htree⟩ := Header.parse_eq_ok h
  have hchildren : tree.children.map Node.unplaced =
      (Header.units text.toList).2 ++ [.atEnd] := by
    rw [← Node.children_unplaced, htree]
    rfl
  intro x hx
  have hmem : x.unplaced ∈ (Header.units text.toList).2 ++ [.atEnd] :=
    hchildren ▸ List.mem_map_of_mem hx
  rcases List.mem_append.mp hmem with hmem | hmem
  · obtain ⟨hread, hrule⟩ := Expr.reading_nodes (solid_skipGap _)
      (Header.reading_units text.toList) _ hmem
    rw [Node.rule_unplaced] at hrule
    exact ⟨hread.read, List.mem_append_left _ hrule⟩
  · have hend := List.mem_singleton.mp hmem
    have hrule : x.rule = .endOfInput := by rw [← Node.rule_unplaced, hend]; rfl
    refine ⟨⟨[], [], solid_nil, ?_⟩, ?_⟩
    · rw [hrule, Rule.reading_endOfInput, if_pos rfl, hend]
    · rw [hrule]
      decide

end HeaderBridge
