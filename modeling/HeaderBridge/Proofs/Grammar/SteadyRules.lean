import HeaderBridge.Proofs.Grammar.SteadyMethods

/-! # Steady declarations

The rules that declarations call are steady, by induction on the text that is left
and the rules that a rule calls first. Only a class interface whose colon is
followed by nothing but blanks and comments takes the line for its superclass.
-/

namespace HeaderBridge.Grammar

open HeaderBridge.Grammar.Expr

variable {mode : Mode} {s : Exposure} {cs c : List Char} {len : Nat}

/-! ### Rules -/

/-- The rules whose form alone does not tell how they are read with the line. -/
def Rule.irregular : List Rule :=
  [.preprocessorDirective, .directiveLine, .propertyAttribute, .methodDeclaration, .methodSelector,
    .typeSpecifier, .blockParameters, .parameterDeclaration]

set_option maxRecDepth 10000 in
theorem Rule.expose_le : ∀ r ∈ Rule.all, r ∉ irregular → ∀ mode ∈ [Mode.tight, .spaced],
    r.isCalled mode = true → (r.body.expose (r.within mode)).any (·.le r.exposure) = true := by
  decide +kernel

theorem Rule.within_eq_or_stops : ∀ r ∈ Rule.all, ∀ mode ∈ [Mode.tight, .spaced],
    r.within mode = mode ∨ r.exposure.stops = [] := by
  decide +kernel

theorem Mode.mem_all (mode : Mode) : mode ∈ [Mode.tight, .spaced] := by
  cases mode <;> decide

theorem Begins.within (h : Begins mode cs) (r : Rule) : Begins (r.within mode) cs := by
  refine ⟨h.ne, ?_⟩
  unfold Rule.within
  split
  · exact h.solid
  · exact h.solid
  · rfl

theorem Rule.body_steady {r : Rule} (hr : r.isCalled mode = true)
    (hknown : Known (r.within mode) len r.body.firstCalls) (hcs : Begins (r.within mode) cs)
    (hlen : cs.length ≤ len) :
    r.body.Steady (r.within mode) r.exposure cs := by
  by_cases hirregular : r ∈ irregular
  · cases mode with
    | tight =>
      have hline : r = .directiveLine := by
        have h : ∀ r ∈ irregular, r.isCalled .tight = true → r = .directiveLine := by decide
        exact h r hirregular hr
      subst hline
      exact directiveLine_steady hknown hcs.ne hlen
    | spaced =>
      simp only [irregular, List.mem_cons, List.not_mem_nil, or_false] at hirregular
      rcases hirregular with rfl | rfl | rfl | rfl | rfl | rfl | rfl | rfl
      · exact preprocessorDirective_steady cs
      · cases hr
      · exact propertyAttribute_steady hknown hcs hlen
      · exact methodDeclaration_steady hknown hcs hlen
      · exact methodSelector_steady hknown hcs hlen
      · exact typeSpecifier_steady hknown hcs hlen
      · exact blockParameters_steady hknown hlen
      · exact parameterDeclaration_steady hknown hcs hlen
  · obtain ⟨s, hs, hle⟩ := (Option.any_eq_true _ _).mp
      (expose_le r r.mem_all hirregular mode mode.mem_all hr)
    exact (steady_of_expose hs hknown hcs hlen).mono hle

/-- Every rule that a declaration calls is read with the line as without it, up to its exposure. -/
theorem Rule.steady {r : Rule} (hr : r.isCalled mode = true)
    (hcs : Begins mode cs) : (call r).Steady mode r.exposure cs := by
  induction hn : r.enough cs.length using Nat.strongRecOn generalizing r mode cs with | ind n ih =>
    ?_
  subst hn
  have hknown : Known (r.within mode) cs.length r.body.firstCalls := by
    intro r' hr' c hc hlen
    refine ih _ ?_ hr' hc rfl
    rcases hlen with hlt | ⟨hle, hfirst⟩
    · exact enough_lt hlt.le (.inl hlt)
    · exact enough_lt hle (.inr (r.level_firstCalls r' hfirst))
  exact steady_of_body (body_steady hr hknown (hcs.within r) (Nat.le_refl _))
    (within_eq_or_stops r r.mem_all mode mode.mem_all)

theorem known (mode : Mode) (len : Nat) (first : List Rule) : Known mode len first :=
  fun _ hr _ hcs _ => Rule.steady hr hcs

/-! ### Class interfaces -/

def interfaceHead : Expr := .seq (lit "@interface") (call .className)

def superclassPart : Expr := .seq (lit ":") (call .superclassName)

/-- A class interface up to the colon before its superclass. -/
def interfaceColon : Expr := .seq interfaceHead (lit ":")

/-- A class interface is read here although nothing but blanks and comments follows its colon. -/
def hasDanglingColon (cs : List Char) : Bool :=
  (Rule.classInterface.reading .spaced cs).isSome &&
    (interfaceColon.reading .spaced cs).any fun z => (skipGap z.1).isEmpty

/-- Whatever is read ends in the line. -/
def Expr.EndsInLine (mode : Mode) (e : Expr) (cs : List Char) : Prop :=
  ∀ c ns, e.reading mode cs = some (c, ns) → c <:+ closingLine

theorem Expr.EndsInLine.seq {a : Expr} (h : a.EndsInLine mode cs) (b : Expr) :
    (Expr.seq a b).EndsInLine mode cs := by
  intro c ns hread
  obtain ⟨c₁, ns₁, ns₂, ha, hb, -⟩ := Reading.andThen_eq_some.mp (reading_seq ▸ hread)
  exact (reading_suffix b hb).trans ((skipBetween_suffix mode c₁).trans (h c₁ ns₁ ha))

theorem Expr.EndsInLine.reading_seq {a b : Expr} (h : a.EndsInLine mode cs)
    (hb : b.refuses = true) : (Expr.seq a b).reading mode cs = none := by
  rw [Expr.reading_seq]
  cases ha : a.reading mode cs with
  | none => rfl
  | some z =>
    rw [Reading.some_andThen,
      reading_of_refuses hb ((skipBetween_suffix mode z.1).trans (h _ _ ha))]
    rfl

theorem skipGap_closingLine : skipGap closingLine = "NS_ASSUME_NONNULL_END\n".toList := by
  rw [closingLine, skipGap_of_step (gapStep?_blank rfl)]
  exact skipGap_cons (by decide)

/-- The line is taken for the superclass if nothing else follows the colon. -/
theorem interfaceHead_endsInLine (hhead : interfaceHead.Steady .spaced s cs) (hstops : s.stops = [])
    {ns : List Node} (h : interfaceColon.reading .spaced cs = some (c, ns)) (hc : skipGap c = []) :
    (Expr.seq interfaceHead (opt superclassPart)).EndsInLine .spaced (cs ++ closingLine) := by
  obtain ⟨c₁, ns₁, ns₂, h₁, hcolon, -⟩ := Reading.andThen_eq_some.mp (reading_seq ▸ h)
  have hne : skipBetween .spaced c₁ ≠ [] := by
    intro hnil
    rw [hnil] at hcolon
    cases hcolon
  have hwith : interfaceHead.reading .spaced (cs ++ closingLine) =
      some (c₁ ++ closingLine, ns₁) := by
    rw [Steady, h₁] at hhead
    generalize interfaceHead.reading .spaced (cs ++ closingLine) = y at hhead ⊢
    cases hhead with
    | same => rfl
    | reaches hs hc₁ => exact absurd hc₁ hne
    | stops he => simp [hstops] at he
  have hline : (lit ":").Steady .spaced {} (skipBetween .spaced c₁) := steady_literal (by decide) _
  have hcolonLine : (lit ":").reading .spaced (skipBetween .spaced c₁ ++ closingLine) =
      some (c ++ closingLine, ns₂) := by
    rw [hline.eq_withLine, hcolon]
    rfl
  have hstart : startsIdent (skipGap closingLine) = true := by
    rw [skipGap_closingLine]
    decide
  obtain ⟨ms, hname⟩ := Rule.reading_of_identifier (r := .superclassName) rfl rfl hstart
  intro d ns' hread
  rw [reading_seq, hwith, Reading.some_andThen, skipBetween_append_line hne, reading_opt,
    superclassPart, reading_seq, hcolonLine, Reading.some_andThen, skipBetween, skipGap_append_line,
    if_pos hc, hname] at hread
  obtain ⟨rfl, -⟩ := Prod.mk.inj (Option.some.inj hread)
  exact (reading_suffix _ hname).trans (skipGap_suffix closingLine)

theorem superclassPart_steady
    (hopen : ¬ ∃ c ns, interfaceColon.reading .spaced cs = some (c, ns) ∧ skipGap c = [])
    {ns : List Node} (h : interfaceHead.reading .spaced cs = some (c, ns)) :
    superclassPart.Steady .spaced {} (skipBetween .spaced c) := by
  have hline : (lit ":").Steady .spaced {} (skipBetween .spaced c) := steady_literal (by decide) _
  rw [Steady, superclassPart, reading_seq, reading_seq, hline.eq_withLine]
  cases hcolon : (lit ":").reading .spaced (skipBetween .spaced c) with
  | none => exact .same none
  | some z =>
    have hne : skipBetween .spaced z.1 ≠ [] := by
      intro hnil
      refine hopen ⟨z.1, ns ++ z.2, ?_, hnil⟩
      rw [interfaceColon, reading_seq, h, Reading.some_andThen, hcolon]
      rfl
    rw [Reading.withLine, Option.map_some, Reading.some_andThen, Reading.some_andThen,
      skipBetween_append_line hne]
    exact Extends.prepend (Rule.steady_of_identifier rfl rfl _) z.2

/-- Unless its colon dangles, a class interface is read with the line as without it. -/
theorem Rule.classInterface_steady (hcs : Begins .spaced cs)
    (hcolon : hasDanglingColon cs = false) : (call .classInterface).Steady .spaced {} cs := by
  let protocols : Expr := opt (.seq (.seq (lit "<") (call .protocolList)) (lit ">"))
  let front : Expr := .seq interfaceHead (opt superclassPart)
  let members : Expr :=
    .seq (.seq (.seq front protocols) (opt (call .instanceVariables)))
      (call .interfaceDeclarationList)
  have hbody : Rule.classInterface.body = .seq members (lit "@end") := rfl
  have hknown : Known .spaced cs.length Rule.all := known .spaced _ _
  have hlen : cs.length ≤ cs.length := Nat.le_refl _
  have hhead : interfaceHead.Steady .spaced _ cs := steady_of_expose rfl (known _ _ _) hcs hlen
  have hmode : Rule.classInterface.within .spaced = .spaced := rfl
  refine Rule.steady_of_body ?_ (.inr rfl)
  rw [hbody, hmode]
  by_cases hopen : ∃ c ns, interfaceColon.reading .spaced cs = some (c, ns) ∧ skipGap c = []
  · obtain ⟨c, ns, hread, hend⟩ := hopen
    have hwithout : (Expr.seq members (lit "@end")).reading .spaced cs = none := by
      rw [hasDanglingColon, hread, Option.any_some, hend, List.isEmpty_nil, Bool.and_true,
        Option.isSome_eq_false_iff, Option.isNone_iff_eq_none, Rule.reading_eq_none] at hcolon
      exact hcolon
    have hline : members.EndsInLine .spaced (cs ++ closingLine) :=
      (((interfaceHead_endsInLine hhead rfl hread hend).seq _).seq _).seq _
    rw [Steady, hwithout, hline.reading_seq (by decide)]
    exact .same none
  · have hfront : front.Steady .spaced _ cs :=
      hhead.seq (fun c ns hread hne =>
        Steady.opt (begins_skipBetween hne) (superclassPart_steady hopen hread)) (by decide)
        (passes_all rfl)
    have hprotocols :=
      hfront.seq_of_expose (b := protocols) rfl rfl (by decide) (passes_all (by decide))
      hknown hlen
    have hivars := hprotocols.seq_of_expose (b := opt (call .instanceVariables)) rfl rfl (by decide)
      (passes_all (by decide)) hknown hlen
    have hmembers := hivars.seq_of_expose (b := call .interfaceDeclarationList) rfl rfl (by decide)
      (passes_all (by decide)) hknown hlen
    have hend := hmembers.seq_of_expose (b := lit "@end") rfl rfl (by decide)
      (passes_all (by decide)) hknown hlen
    exact hend.mono (by decide)

end HeaderBridge.Grammar
