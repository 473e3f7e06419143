import HeaderBridge.Proofs.Grammar.Headers
import HeaderBridge.Proofs.Grammar.SteadyRules

/-! # Headers between audit markers

A header is parsed between two audit markers as it is parsed without them: the
first marker is a declaration of its own, and the second one is behind all
declarations or part of one that is skipped.
-/

namespace HeaderBridge

open Grammar Grammar.Expr

variable {cs c : List Char} {ns : List Node} {x y : Reading}

/-! ### One declaration after the other -/

namespace Header

/-- Read the next declaration, behind blanks and comments. -/
def nextUnit (cs : List Char) : Reading := (call .externalDeclaration).reading .spaced (skipGap cs)

theorem nextUnit_skipGap (cs : List Char) : nextUnit (skipGap cs) = nextUnit cs := by
  rw [nextUnit, nextUnit, skipGap_skipGap]

theorem length_of_nextUnit (h : nextUnit cs = some (c, ns)) : c.length < (skipGap cs).length :=
  reading_length_lt _ rfl h

theorem units_eq (cs : List Char) : units cs = readRounds nextUnit (skipGap cs) [] := by
  have hsolid : skipBetween .spaced (skipGap cs) = skipGap cs := skipGap_skipGap cs
  rw [units, reading_many_eq_rounds rfl hsolid]
  rfl

theorem units_congr {cs cs' : List Char} (h : skipGap cs = skipGap cs') : units cs = units cs' := by
  rw [units_eq, units_eq, h]

theorem units_of_nextUnit_eq_none (h : nextUnit cs = none) : units cs = (skipGap cs, []) := by
  rw [units_eq, readRounds_of_none (by rw [nextUnit_skipGap, h])]

theorem units_of_nextUnit (h : nextUnit cs = some (c, ns)) :
    skipGap (units cs).1 = skipGap (units c).1 ∧ (units cs).2 = ns ++ (units c).2 := by
  have hrest : skipGap (readRounds nextUnit c []).1 = skipGap (units c).1 ∧
      (readRounds nextUnit c []).2 = (units c).2 := by
    -- the rounds may begin with the gap or behind it
    rw [units_eq]
    cases hc : nextUnit c with
    | none =>
      rw [readRounds_of_none hc, readRounds_of_none (by rw [nextUnit_skipGap, hc])]
      exact ⟨(skipGap_skipGap c).symm, rfl⟩
    | some z =>
      have hlt := length_of_nextUnit hc
      have hle := (skipGap_suffix c).length_le
      rw [readRounds_of_some hc (by omega), readRounds_of_some (by rw [nextUnit_skipGap, hc]) hlt]
      exact ⟨rfl, rfl⟩
  have hrounds : units cs = readRounds nextUnit c ns := by
    rw [units_eq, readRounds_of_some (by rw [nextUnit_skipGap, h]) (length_of_nextUnit h)]
    rfl
  have hnodes := @readRounds_nodes_append nextUnit c ns []
  rw [List.append_nil] at hnodes
  rw [hrounds, hnodes, hrest.1, hrest.2]
  exact ⟨rfl, rfl⟩

theorem units_of_skipGap_eq_nil (h : skipGap cs = []) : units cs = ([], []) := by
  have hnone : nextUnit cs = none := by
    cases hc : nextUnit cs with
    | none => rfl
    | some z =>
      have hlt := length_of_nextUnit hc
      rw [h] at hlt
      exact absurd hlt (Nat.not_lt_zero _)
  rw [units_of_nextUnit_eq_none hnone, h]

end Header

/-! ### A declaration with the line behind it -/

/-- The rules of a header whose nodes declare nothing. -/
def Grammar.Rule.idle : List Rule :=
  [.preprocessorDirective, .nonnullAuditMarker, .skippedDeclaration]

/-- How a declaration is read without the line and with it. -/
inductive ExtendsUnit : Reading → Reading → Prop where
  | same (x : Reading) : ExtendsUnit x x.withLine
  | idle {c c' : List Char} {n n' : Node} (hc : skipGap c = []) (hc' : c' <:+ closingLine)
      (hn : n.rule ∈ Rule.idle) (hn' : n'.rule ∈ Rule.idle) :
      ExtendsUnit (some (c, [n])) (some (c', [n']))

theorem ExtendsUnit.or {x' y' : Reading} (h : ExtendsUnit x y) (h' : ExtendsUnit x' y') :
    ExtendsUnit (x.or x') (y.or y') := by
  cases h with
  | same =>
    cases x with
    | none => exact h'
    | some z => exact .same (some z)
  | idle hc hc' hn hn' => exact .idle hc hc' hn hn'

/-- A rule for a declaration is read alike, or comes to the end of the text and declares nothing. -/
theorem Grammar.Rule.extendsUnit {r : Rule} (hr : r.isCalled .spaced = true)
    (hk : r.kind = .branch ∨ r.kind = .token)
    (he : r.exposure.le {} = true ∨ r ∈ idle ∧ r.exposure.le { reaches := true } = true)
    (hcs : Begins .spaced cs) :
    ExtendsUnit ((call r).reading .spaced cs) ((call r).reading .spaced (cs ++ closingLine)) := by
  have hsteady := Rule.steady hr hcs
  rcases he with he | ⟨hidle, he⟩
  · rw [(hsteady.mono he).eq_withLine]
    exact .same _
  · have hextends := hsteady.mono he
    rw [Steady] at hextends
    generalize hx : (call r).reading .spaced cs = x at hextends
    generalize hy : (call r).reading .spaced (cs ++ closingLine) = y at hextends
    cases hextends with
    | same => exact .same x
    | reaches _ hc hc' =>
      rw [reading_call] at hx hy
      obtain ⟨t, ms, rfl⟩ := Rule.reading_singleton hk hx
      obtain ⟨t', ms', rfl⟩ := Rule.reading_singleton hk hy
      exact .idle hc hc' hidle hidle
    | gains hs => cases hs
    | stops hs => cases hs

theorem Grammar.Rule.externalDeclaration_body : Rule.externalDeclaration.body =
    .choice (call .preprocessorDirective) (.choice (call .nonnullAuditMarker)
      (.choice (call .classForwardDeclaration) (.choice (call .protocolForwardDeclaration)
        (.choice (call .categoryInterface) (.choice (call .classInterface)
          (.choice (call .protocolDeclaration) (.choice (call .implementationBlock)
            (call .skippedDeclaration)))))))) := rfl

theorem Header.extendsUnit (hcs : Begins .spaced cs) (hcolon : hasDanglingColon cs = false) :
    ExtendsUnit ((call .externalDeclaration).reading .spaced cs)
      ((call .externalDeclaration).reading .spaced (cs ++ closingLine)) := by
  simp only [reading_call, Rule.reading_group (r := .externalDeclaration) rfl,
    Rule.externalDeclaration_body, reading_choice]
  simp only [← reading_call]
  have hclass : ExtendsUnit ((call .classInterface).reading .spaced cs)
      ((call .classInterface).reading .spaced (cs ++ closingLine)) := by
    rw [(Rule.classInterface_steady hcs hcolon).eq_withLine]
    exact .same _
  refine .or ?_ (.or ?_ (.or ?_ (.or ?_ (.or ?_ (.or hclass (.or ?_ (.or ?_ ?_)))))))
  all_goals exact Rule.extendsUnit (by decide) (by decide) (by decide) hcs

/-! ### The lines around a header -/

def openingLine : List Char := "NS_ASSUME_NONNULL_BEGIN\n".toList

def openingMarker : Node := .token .nonnullAuditMarker "NS_ASSUME_NONNULL_BEGIN".toList

/-- The first lists of nodes have a common beginning, and what follows declares nothing. -/
def SameButIdle (ns ns' : List Node) : Prop :=
  ∃ common tail tail', ns = common ++ tail ∧ ns' = common ++ tail' ∧
    (∀ n ∈ tail, n.rule ∈ Rule.idle) ∧ ∀ n ∈ tail', n.rule ∈ Rule.idle

namespace Header

/-- A declaration of the text begins here, or would begin if there were one. -/
inductive UnitAt (text : List Char) : List Char → Prop where
  | first : UnitAt text (skipGap text)
  | next {cs c : List Char} {ns : List Node} (h : UnitAt text cs)
      (hread : (call .externalDeclaration).reading .spaced cs = some (c, ns)) :
      UnitAt text (skipGap c)

theorem UnitAt.of_nextUnit {d : List Char} (h : nextUnit cs = some (c, ns)) (hd : UnitAt c d) :
    UnitAt cs d := by
  induction hd with
  | first => exact .next .first h
  | next _ hread ih => exact .next ih hread

theorem UnitAt.suffix {text : List Char} (h : UnitAt text cs) : cs <:+ text := by
  induction h with
  | first => exact skipGap_suffix text
  | next _ hread ih => exact (skipGap_suffix _).trans ((reading_suffix _ hread).trans ih)

theorem units_of_suffix_line (h : c <:+ closingLine) :
    skipGap (units c).1 = [] ∧ ∀ n ∈ (units c).2, n.rule ∈ Rule.idle := by
  have hall : ∀ c ∈ closingLine.tails, ∃ tree ∈ (parse (.ofList c)).toOption,
      ∀ n ∈ tree.children, n.rule ∈ Rule.endOfInput :: Rule.idle := by decide +kernel
  obtain ⟨tree, hparse, hrules⟩ := hall c ((List.mem_tails _ _).mpr h)
  have hparse : parse (.ofList c) = .ok tree := by
    cases hp : parse (.ofList c) with
    | error f =>
      rw [hp] at hparse
      cases hparse
    | ok tree' =>
      rw [hp] at hparse
      exact congrArg Except.ok (Option.some.inj hparse)
  obtain ⟨hend, htree⟩ := parse_eq_ok hparse
  rw [String.toList_ofList] at hend htree
  have hchildren : tree.children.map Node.unplaced = (units c).2 ++ [.atEnd] := by
    rw [← Node.children_unplaced, htree]
    rfl
  refine ⟨hend, fun n hn => ?_⟩
  obtain ⟨m, hm, rfl⟩ := List.mem_map.mp (hchildren ▸ List.mem_append_left [Node.atEnd] hn)
  rw [Node.rule_unplaced]
  have hne : m.unplaced.rule ≠ .endOfInput := by
    have hrule := (Expr.reading_nodes (solid_skipGap _) (reading_units c) _ hn).2
    have hnot : Rule.endOfInput ∉ (many (call .externalDeclaration)).seen.flatMap Rule.leaves := by
      decide
    exact fun heq => hnot (heq ▸ hrule)
  rw [Node.rule_unplaced] at hne
  exact (List.mem_cons.mp (hrules m hm)).resolve_left hne

/-- With the line behind it, a header can be parsed exactly if it can be parsed without it, and
then it declares the same. -/
theorem units_append_line (hcolons : ∀ d, UnitAt cs d → hasDanglingColon d = false) :
    skipGap (units cs).1 ≠ [] ∧ skipGap (units (cs ++ closingLine)).1 ≠ [] ∨
    (skipGap (units cs).1 = [] ∧ skipGap (units (cs ++ closingLine)).1 = []) ∧
      SameButIdle (units cs).2 (units (cs ++ closingLine)).2 := by
  induction hn : cs.length using Nat.strongRecOn generalizing cs with | ind n ih => ?_
  subst hn
  by_cases hend : skipGap cs = []
  · have hline : units (cs ++ closingLine) = units closingLine :=
      units_congr (by rw [skipGap_append_line, if_pos hend])
    obtain ⟨hrest, hidle⟩ := units_of_suffix_line (List.suffix_refl closingLine)
    rw [hline, units_of_skipGap_eq_nil hend]
    exact .inr ⟨⟨skipGap_nil, hrest⟩, [], [], _, rfl, rfl, by simp, hidle⟩
  · have happend : skipGap (cs ++ closingLine) = skipGap cs ++ closingLine := by
      rw [skipGap_append_line, if_neg hend]
    have hnext : ExtendsUnit (nextUnit cs) (nextUnit (cs ++ closingLine)) := by
      rw [nextUnit, nextUnit, happend]
      exact extendsUnit ⟨hend, skipGap_skipGap cs⟩ (hcolons _ .first)
    generalize hx : nextUnit cs = x at hnext
    generalize hy : nextUnit (cs ++ closingLine) = y at hnext
    cases hnext with
    | same =>
      cases x with
      | none =>
        -- no further declaration can be read, with the line or without it
        rw [units_of_nextUnit_eq_none hx, units_of_nextUnit_eq_none hy, skipGap_skipGap,
          skipGap_skipGap, happend]
        exact .inl ⟨hend, by simp [hend]⟩
      | some z =>
        obtain ⟨c, ns⟩ := z
        obtain ⟨hrest, hnodes⟩ := units_of_nextUnit hx
        obtain ⟨hrest', hnodes'⟩ := units_of_nextUnit hy
        have hlt := length_of_nextUnit hx
        have hle := (skipGap_suffix cs).length_le
        have hcolons' : ∀ d, UnitAt c d → hasDanglingColon d = false :=
          fun d hd => hcolons d (hd.of_nextUnit hx)
        rw [hrest, hrest', hnodes, hnodes']
        refine (ih c.length (by omega) hcolons' rfl).imp_right fun h => ⟨h.1, ?_⟩
        obtain ⟨common, tail, tail', h₁, h₂, hidle⟩ := h.2
        exact ⟨ns ++ common, tail, tail', by rw [h₁, List.append_assoc],
          by rw [h₂, List.append_assoc], hidle⟩
    | idle hc hc' hn hn' =>
      -- nothing but the line is left
      obtain ⟨hrest, hnodes⟩ := units_of_nextUnit hx
      obtain ⟨hrest', hnodes'⟩ := units_of_nextUnit hy
      obtain ⟨hline, hidle⟩ := units_of_suffix_line hc'
      rw [hrest, hrest', hnodes, hnodes', units_of_skipGap_eq_nil hc]
      refine .inr ⟨⟨skipGap_nil, hline⟩, [], _, _, rfl, rfl, ?_, ?_⟩
      · simpa using hn
      · simpa using ⟨hn', hidle⟩

/-- The opening line is a marker, and what is behind it is read as if the line were not there. -/
theorem units_openingLine (cs : List Char) :
    skipGap (units (openingLine ++ cs)).1 = skipGap (units cs).1 ∧
      (units (openingLine ++ cs)).2 = openingMarker :: (units cs).2 := by
  have hline : openingLine ++ cs = "NS_ASSUME_NONNULL_BEGIN".toList ++ '\n' :: cs := rfl
  have hsolid : skipGap (openingLine ++ cs) = openingLine ++ cs := skipGap_cons (by decide)
  have hdirective : Rule.preprocessorDirective.reading .spaced (openingLine ++ cs) = none := by
    rw [Rule.reading_eq_none, ← Option.not_isSome_iff_eq_none]
    intro hsome
    have hhead := head?_of_firstChar? (f := '#') (by decide) hsome
    cases hhead
  have hmarker : Rule.nonnullAuditMarker.reading .spaced (openingLine ++ cs) =
      some ('\n' :: cs, [openingMarker]) := by
    have hends : Ends ('\n' :: cs) := by
      intro d hd
      obtain rfl := Option.some.inj hd
      rfl
    rw [hline, Rule.word_reading rfl rfl (by decide), identRun_append (by decide) hends,
      identRest_append (by decide) hends, if_pos (by decide)]
    rfl
  have hnext : nextUnit (openingLine ++ cs) = some ('\n' :: cs, [openingMarker]) := by
    rw [nextUnit, hsolid, reading_call, Rule.reading_group rfl]
    have hbody : ∃ e, Rule.externalDeclaration.body =
      .choice (call .preprocessorDirective) (.choice (call .nonnullAuditMarker) e) := ⟨_, rfl⟩
    obtain ⟨e, hbody⟩ := hbody
    rw [hbody, reading_choice, reading_choice, reading_call, reading_call, hdirective, hmarker]
    rfl
  have hblank : units ('\n' :: cs) = units cs :=
    units_congr (skipGap_of_step (gapStep?_blank rfl))
  have hunits := units_of_nextUnit hnext
  rwa [hblank] at hunits

end Header

end HeaderBridge
