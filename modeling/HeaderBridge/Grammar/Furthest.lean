import HeaderBridge.Grammar.Rule

/-! # The furthest failure

While a text is matched, the rules that failed furthest into it are kept. They
give the place and the wording of the error when the whole match fails, and are
kept across backtracking.
-/

namespace HeaderBridge.Grammar

/-- The furthest offset at which a rule was attempted in vain, and the rules
that were expected there. -/
structure Furthest where
  offset : Nat
  expected : List Rule
  deriving DecidableEq

namespace Furthest

def start : Furthest := ⟨0, []⟩

/-- How many rules are expected at the given offset. -/
def countAt (f : Furthest) (p : Nat) : Nat :=
  if f.offset = p then f.expected.length else 0

/-- Note that rule `r` failed at offset `p`, where `before` was known when the
attempt began and `f` when it ended. A rule stands for whatever failed inside it
at its own start, unless exactly one part did, which is then kept in its place. -/
def note (before f : Furthest) (r : Rule) (p : Nat) : Furthest :=
  if f.countAt p = before.countAt p + 1 then f
  else if f.offset < p then ⟨p, [r]⟩
  else if f.offset = p then ⟨p, f.expected.take (before.countAt p) ++ [r]⟩
  else f

/-- The expected rules without repetition, in the order of declaration. -/
def rules (f : Furthest) : List Rule :=
  Rule.all.filter (· ∈ f.expected)

def alternatives : List String → String
  | [] => ""
  | [a] => a
  | [a, b] => a ++ " or " ++ b
  | names => ", ".intercalate names.dropLast ++ ", or " ++ names.getLastD ""

def message (f : Furthest) : String :=
  match f.rules with
  | [] => "unknown parsing error"
  | rs => "expected " ++ alternatives (rs.map Rule.name)

end Furthest

end HeaderBridge.Grammar
