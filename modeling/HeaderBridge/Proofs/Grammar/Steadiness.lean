import HeaderBridge.Proofs.Grammar.Exposure

/-! # Steady rules

Every rule that a declaration calls is read with a closing line behind the text as
it is read without it, up to the exposure of the rule. For most rules the form of
the body tells this; the others are treated one by one.
-/

namespace HeaderBridge.Grammar

open HeaderBridge.Grammar.Expr

variable {mode : Mode} {r : Rule} {a b e : Expr} {s t : Exposure} {cs c : List Char} {len : Nat}
  {first : List Rule}

/-! ### From bodies to rules -/

theorem Rule.steady_of_body (h : r.body.Steady (r.within mode) s cs)
    (hs : r.within mode = mode ∨ s.stops = []) : (call r).Steady mode s cs := by
  have hwrap :
      Extends (r.within mode) s (r.reading mode cs) (r.reading mode (cs ++ closingLine)) := by
    rw [Rule.reading_eq_map, Rule.reading_eq_map]
    exact Extends.map h fun c ns => r.wrap_append_line mode cs c ns
  rw [Steady, reading_call, reading_call]
  rcases hs with hmode | hstops
  · rwa [hmode] at hwrap
  · cases mode with
    | spaced =>
      cases hmode : r.within .spaced with
      | spaced => rwa [hmode] at hwrap
      | tight =>
        rw [hmode] at hwrap
        exact hwrap.spaced hstops
    | tight =>
      have hmode : r.within .tight = .tight := by
        unfold within
        cases r.kind <;> rfl
      rwa [hmode] at hwrap

theorem Rule.reading_eq_none :
    r.reading mode cs = none ↔ r.body.reading (r.within mode) cs = none := by
  rw [Rule.reading_eq_map, Option.map_eq_none_iff]

theorem Expr.passes_all (h : s.stops.all (·.passes b) = true) : ∀ e ∈ s.stops, e.Passes mode b :=
  fun e he => passes_of (List.all_eq_true.mp h e he)

theorem Expr.after_reading (he : e.mayBeEmpty = false) {ns : List Node}
    (h : e.reading mode cs = some (c, ns)) (hlen : cs.length ≤ len) :
    (skipBetween mode c).length < len := by
  have hsub := skipBetween_suffix mode c
  have hlt := reading_length_lt e he h
  have hle := hsub.length_le
  omega

theorem Expr.Steady.seq_of_expose (ha : a.Steady mode s cs) (hempty : a.mayBeEmpty = false)
    (hb : b.expose mode = some t) (hend : b.decided = true) (hpass : ∀ e ∈ s.stops, e.Passes mode b)
    (hknown : Known mode len first) (hlen : cs.length ≤ len) :
    (Expr.seq a b).Steady mode (s.andThen b t) cs := by
  refine Steady.seq ha (fun c ns hread hne => ?_) hend hpass
  have hlt := after_reading hempty hread hlen
  exact steady_of_expose hb (hknown.shorter hlt _) (begins_skipBetween hne) (Nat.le_refl _)

/-! ### Gains -/

theorem Extends.eq_withLine {x y : Reading} (h : Extends mode {} x y) : y = x.withLine := by
  cases h with
  | same => rfl
  | reaches hs | gains hs => cases hs
  | stops hs => cases hs

theorem Expr.Steady.gained (h : e.Steady mode s cs) (hgain : e.GainsAt mode cs) :
    s.gains = true ∧
      ∃ c' ns', e.reading mode (cs ++ closingLine) = some (c', ns') ∧ c' <:+ closingLine := by
  rw [Steady, hgain.without] at h
  have hsome := hgain.withLine
  generalize e.reading mode (cs ++ closingLine) = y at h hsome
  cases h with
  | same => cases hsome
  | @gains c' ns' hs hc' => exact ⟨hs, c', ns', rfl, hc'⟩

theorem Expr.Steady.not_gainsAt (h : e.Steady mode s cs) (hs : s.gains = false) :
    ¬ e.GainsAt mode cs := fun hgain =>
  absurd (h.gained hgain).1 (by simp [hs])

theorem Expr.Steady.of_not_gainsAt (h : e.Steady mode s cs) (hne : cs ≠ [])
    (hgain : ¬ e.GainsAt mode cs) : e.Steady mode { s with gains := false } cs := by
  rw [Steady] at h ⊢
  generalize hx : e.reading mode cs = x at h
  generalize hy : e.reading mode (cs ++ closingLine) = y at h
  cases h with
  | same => exact .same x
  | reaches hs hc hc' => exact .reaches hs hc hc'
  | gains => exact absurd ⟨hne, hx, by rw [hy]; rfl⟩ hgain
  | stops hs he hc' => exact .stops hs he hc'

theorem Rule.gainsAt_body (h : (call r).GainsAt mode cs) : r.body.GainsAt (r.within mode) cs := by
  obtain ⟨hne, hwithout, hwith⟩ := h
  rw [reading_call, Rule.reading_eq_none] at hwithout
  rw [reading_call, Rule.reading_eq_map, Option.isSome_map] at hwith
  exact ⟨hne, hwithout, hwith⟩

theorem Expr.reading_seq_assoc :
    (seq (seq a b) e).reading mode cs = (seq a (seq b e)).reading mode cs := by
  simp only [reading_seq, Reading.andThen_assoc]

theorem Expr.GainsAt.assoc (h : (seq (seq a b) e).GainsAt mode cs) :
    (seq a (seq b e)).GainsAt mode cs :=
  ⟨h.ne, reading_seq_assoc ▸ h.without, reading_seq_assoc ▸ h.withLine⟩

/-- A sequence gains where its first part comes to the end of the text, or where its second part
gains. -/
theorem Expr.GainsAt.of_seq (h : (seq a b).GainsAt mode cs) (ha : a.Steady mode s cs)
    (hgains : s.gains = false) (hstops : s.stops = []) : ∃ c ns, a.reading mode cs = some (c, ns) ∧
      (skipBetween mode c = [] ∧ b.refuses = false ∨ b.GainsAt mode (skipBetween mode c)) := by
  obtain ⟨-, hwithout, hwith⟩ := h
  rw [reading_seq] at hwithout hwith
  rw [Steady] at ha
  generalize a.reading mode cs = x at ha hwithout
  generalize a.reading mode (cs ++ closingLine) = y at ha hwith
  cases ha with
  | same =>
    cases x with
    | none => cases hwith
    | some z =>
      obtain ⟨c, ns⟩ := z
      rw [Reading.some_andThen, Option.map_eq_none_iff] at hwithout
      rw [Reading.withLine, Option.map_some, Reading.some_andThen, Option.isSome_map] at hwith
      refine ⟨c, ns, rfl, ?_⟩
      by_cases hc : skipBetween mode c = []
      · exact .inl ⟨hc, refuses_eq_false (skipBetween_append_line_suffix hc) hwith⟩
      · rw [skipBetween_append_line hc] at hwith
        exact .inr ⟨hc, hwithout, hwith⟩
  | @reaches c c' ns ns' hs hc hc' =>
    rw [Reading.some_andThen, Option.isSome_map] at hwith
    exact ⟨c, ns, rfl, .inl ⟨hc, refuses_eq_false ((skipBetween_suffix mode c').trans hc') hwith⟩⟩
  | gains hg => simp [hgains] at hg
  | stops he => simp [hstops] at he

theorem Expr.GainsAt.of_seq_total (h : (seq a b).GainsAt mode cs) (hb : b.total = true) :
    a.GainsAt mode cs := by
  obtain ⟨hne, hwithout, hwith⟩ := h
  rw [reading_seq] at hwithout hwith
  refine ⟨hne, ?_, ?_⟩
  · cases ha : a.reading mode cs with
    | none => rfl
    | some z =>
      have hsome : (b.reading mode (skipBetween mode z.1)).isSome = true :=
        isSome_reading_of_total hb _
      rw [ha, Reading.some_andThen, Option.map_eq_none_iff] at hwithout
      rw [hwithout] at hsome
      cases hsome
  · cases ha : a.reading mode (cs ++ closingLine) with
    | none =>
      rw [ha] at hwith
      cases hwith
    | some z => rfl

/-- Without the line, another alternative stands in for one that gains. -/
theorem Expr.Steady.choice_of_gains (ha : a.Steady mode s cs)
    (hgain : a.GainsAt mode cs) {ns : List Node} (hb : b.reading mode cs = some (c, ns))
    (hc : t.reaches = true ∧ skipBetween mode c = [] ∨
      ∃ e ∈ t.stops, e.GainsAt mode (skipBetween mode c)) :
    (Expr.choice a b).Steady mode t cs := by
  obtain ⟨-, c', ns', hread, hc'⟩ := ha.gained hgain
  rw [Steady, reading_choice, reading_choice, hgain.without, hread, Option.none_or, hb,
    Option.some_or]
  rcases hc with ⟨ht, hc⟩ | ⟨e, he, hstop⟩
  · exact .reaches ht hc hc'
  · exact .stops he hstop hc'

theorem Rule.steady_of_settled (hr : r.body.settled = true) (hk : r.within mode = .tight)
    (cs : List Char) : (call r).Steady mode {} cs :=
  steady_of_body (by rw [hk]; exact Expr.steady_of_settled hr cs) (.inr rfl)

/-! ### Line endings -/

theorem newline_reading_cons (d : Char) (cs : List Char) : newline.reading .tight (d :: cs) =
    if d = '\n' then some (cs, [])
    else if d = '\r' then some (if cs.head? = some '\n' then cs.tail else cs, [])
    else none := by
  have hnewline : newline = .choice (.literal ['\n'])
    (.choice (.literal ['\r', '\n']) (.literal ['\r'])) := rfl
  rw [hnewline, reading_choice, reading_choice, reading_literal_singleton,
    reading_literal_singleton, reading_literal]
  by_cases hn : d = '\n'
  · simp [hn, readOne]
  · by_cases hr : d = '\r'
    · cases cs with
      | nil => simp [hr, readOne]
      | cons e cs => by_cases he : e = '\n' <;> simp [hr, he, readOne, eq_comm]
    · simp [hn, hr, readOne, Ne.symm hr]

theorem newline_steady (hne : cs ≠ []) : newline.Steady .tight { reaches := true } cs := by
  obtain ⟨d, cs, rfl⟩ := List.exists_cons_of_ne_nil hne
  rw [Steady, List.cons_append, newline_reading_cons, newline_reading_cons]
  by_cases hn : d = '\n'
  · rw [if_pos hn, if_pos hn]
    exact .same (some (cs, []))
  · rw [if_neg hn, if_neg hn]
    by_cases hr : d = '\r'
    · rw [if_pos hr, if_pos hr]
      cases cs with
      | nil =>
        -- a carriage return at the end takes the first character of the line with it
        exact .reaches rfl rfl (List.suffix_cons '\n' _)
      | cons e cs =>
        rw [List.cons_append, List.head?_cons, List.tail_cons, List.head?_cons, List.tail_cons]
        by_cases he : some e = some '\n'
        · rw [if_pos he, if_pos he]
          exact .same (some (cs, []))
        · rw [if_neg he, if_neg he]
          exact .same (some (e :: cs, []))
    · rw [if_neg hr, if_neg hr]
      exact .same none

theorem Rule.directiveLine_steady (hknown : Known .tight len first) (hne : cs ≠ [])
    (hlen : cs.length ≤ len) :
    Rule.directiveLine.body.Steady .tight Rule.directiveLine.exposure cs := by
  have hblanks := (newline_steady hne).seq_of_expose (b := many spaceOrTab) rfl rfl (by decide)
    (passes_all rfl) hknown hlen
  have hhash := hblanks.seq_of_expose (b := lit "#") rfl rfl (by decide) (passes_all rfl) hknown
    hlen
  exact hhash.mono (by decide)

/-! ### Directives -/

/-- One round of a directive: a continued line, or a character of the line. -/
def directiveRound : Expr := lit "\\" ++ newline <|> notAhead newline ++ char .any

theorem directiveRound_steady (hne : cs ≠ []) :
    directiveRound.Steady .tight { reaches := true } cs := by
  have hchar : (Expr.seq (notAhead newline) (char .any)).Steady .tight {} cs :=
    Steady.seq_lookahead ⟨hne, rfl⟩ ((newline_steady hne).notAhead rfl) (steady_char .any hne)
  obtain ⟨d, cs, rfl⟩ := List.exists_cons_of_ne_nil hne
  by_cases hd : d = '\\'
  · subst hd
    cases cs with
    | nil =>
      -- a backslash at the end continues the line only if a line follows
      have hwithout : directiveRound.reading .tight ['\\'] = some ([], []) := rfl
      have hwith : directiveRound.reading .tight ('\\' :: closingLine) =
          some (closingLine.tail, []) := rfl
      rw [Steady, List.singleton_append, hwithout, hwith]
      exact .reaches rfl rfl (List.suffix_cons '\n' _)
    | cons e cs =>
      have hread : ∀ zs, (Expr.seq (lit "\\") newline).reading .tight ('\\' :: zs) =
          newline.reading .tight zs := by
        intro zs
        rw [reading_seq, lit, reading_literal, if_pos (by simp)]
        exact Reading.some_nil_andThen _ _
      have hnewline : (Expr.seq (lit "\\") newline).Steady .tight { reaches := true }
          ('\\' :: e :: cs) := by
        rw [Steady, List.cons_append, hread, hread]
        exact newline_steady (List.cons_ne_nil e cs)
      exact (hnewline.choice rfl hchar).mono (by decide)
  · have hnone : ∀ zs, (Expr.seq (lit "\\") newline).reading .tight (d :: zs) = none := by
      intro zs
      rw [reading_seq, lit, reading_literal, if_neg (by simp [Ne.symm hd])]
      rfl
    have hskip : (Expr.seq (lit "\\") newline).Steady .tight {} (d :: cs) := by
      rw [Steady, List.cons_append, hnone, hnone]
      exact .same none
    exact (hskip.choice rfl hchar).mono (by decide)

theorem Rule.preprocessorDirective_steady (cs : List Char) :
    Rule.preprocessorDirective.body.Steady .tight Rule.preprocessorDirective.exposure cs := by
  have hhash : (lit "#").Steady .tight {} cs := steady_literal (by decide) cs
  have hbody : (Expr.seq (lit "#") (many directiveRound)).Steady .tight _ cs :=
    hhash.seq (fun c ns _ hc => Steady.many rfl ⟨hc, rfl⟩
      (fun c' _ hc' => directiveRound_steady hc'.ne) (passes_all rfl)) (by decide) (passes_all rfl)
  exact hbody.mono (by decide)

/-! ### Type specifiers -/

theorem startsIdent_of_identRun {ws : List String} (hws : ∀ w ∈ ws, startsIdent w.toList = true)
    (h : String.ofList (identRun cs) ∈ ws) : startsIdent cs = true := by
  have hstart := hws _ h
  rw [String.toList_ofList] at hstart
  rw [← identRun_append_identRest cs]
  exact startsIdent_append hstart _

theorem taggedTypeSpecifier_gains (h : (call .taggedTypeSpecifier).GainsAt .spaced cs) :
    startsIdent cs = true ∧ skipGap (identRest cs) = [] := by
  have hbody : (Expr.seq (call .tagKeyword) (call .identifier)).GainsAt .spaced cs :=
    Rule.gainsAt_body h
  obtain ⟨c, ns, hread, hc⟩ := hbody.of_seq
    (Rule.steady_of_settled (by decide) rfl cs) rfl rfl
  rw [reading_call, Rule.keyword_reading rfl, Option.ite_none_right_eq_some, Option.some.injEq,
    Prod.mk.injEq] at hread
  obtain ⟨hmem, rfl, -⟩ := hread
  refine ⟨startsIdent_of_identRun (by decide) hmem, ?_⟩
  exact (hc.resolve_right (Steady.not_gainsAt (Rule.steady_of_settled (by decide) rfl _) rfl)).1

theorem identifier_reading_of_startsIdent (h : startsIdent cs = true) :
    (call .identifier).reading .spaced cs =
      some (identRest cs, [.token .identifier (identRun cs)]) := by
  rw [reading_call, Rule.identifier_reading, if_pos h]

theorem Rule.reading_of_identifier (hbody : r.body = call .identifier)
    (hk : r.within .spaced = .spaced) (h : startsIdent cs = true) :
    ∃ ns, (call r).reading .spaced cs = some (identRest cs, ns) := by
  rw [reading_call, Rule.reading_eq_map, hbody, hk, identifier_reading_of_startsIdent h]
  exact ⟨_, rfl⟩

theorem Rule.steady_of_identifier (hbody : r.body = call .identifier)
    (hk : r.within .spaced = .spaced) (cs : List Char) : (call r).Steady .spaced {} cs := by
  refine Rule.steady_of_body ?_ (.inl hk)
  rw [hbody, hk]
  exact Rule.steady_of_settled (by decide) rfl cs

theorem Rule.typeSpecifier_steady
    (hknown : Known .spaced len Rule.typeSpecifier.body.firstCalls) (hcs : Begins .spaced cs)
    (hlen : cs.length ≤ len) :
    Rule.typeSpecifier.body.Steady .spaced Rule.typeSpecifier.exposure cs := by
  let others : Expr := .choice (call .genericTypeSpecifier) (call .identifier)
  have hbody : Rule.typeSpecifier.body =
    .choice (call .primitiveType) (.choice (call .taggedTypeSpecifier) others) := rfl
  have hothers : others.Steady .spaced {} cs :=
    steady_of_expose rfl (hknown.mono (by decide)) hcs hlen
  have hprimitive : (call .primitiveType).Steady .spaced {} cs :=
    Rule.steady_of_settled (by decide) rfl cs
  have htagged : (call .taggedTypeSpecifier).Steady .spaced { gains := true } cs :=
    steady_of_expose (e := call .taggedTypeSpecifier) rfl (hknown.mono (by decide)) hcs hlen
  have hrest :
      (Expr.choice (call .taggedTypeSpecifier) others).Steady .spaced { reaches := true } cs := by
    by_cases hgain : (call .taggedTypeSpecifier).GainsAt .spaced cs
    · -- the keyword alone is read as the name of a type
      obtain ⟨hstart, hend⟩ := taggedTypeSpecifier_gains hgain
      have hgeneric : (call .genericTypeSpecifier).reading .spaced cs = none := by
        rw [reading_call, Rule.reading_eq_none]
        change (Expr.seq (call .identifier) _).reading .spaced cs = none
        rw [reading_seq, identifier_reading_of_startsIdent hstart, Reading.some_andThen,
          skipBetween, hend, reading_nil (by decide) (by decide)]
        rfl
      have hident : others.reading .spaced cs =
          some (identRest cs, [.token .identifier (identRun cs)]) := by
        rw [reading_choice, hgeneric, identifier_reading_of_startsIdent hstart]
        rfl
      exact htagged.choice_of_gains hgain hident (.inl ⟨rfl, hend⟩)
    · exact ((htagged.of_not_gainsAt hcs.ne hgain).choice rfl hothers).mono (by decide)
  rw [hbody]
  exact (hprimitive.choice rfl hrest).mono (by decide)

/-! ### Attributes of properties -/

theorem Rule.word_reading_singleton {w : String} (hr : r.kind = .token)
    (hbody : r.body = word (lit w)) (hw : Spellings [w]) : (call r).reading .spaced cs =
      if String.ofList (identRun cs) = w then some (identRest cs, [.token r (identRun cs)])
      else none := by
  have hread : r.reading .spaced cs = if String.ofList (identRun cs) ∈ [w] then
      some (identRest cs, [.token r (identRun cs)]) else none := Rule.word_reading hr hbody hw
  simp only [List.mem_singleton] at hread
  rw [reading_call, hread]

theorem Rule.propertyAttribute_steady
    (hknown : Known .spaced len Rule.propertyAttribute.body.firstCalls) (hcs : Begins .spaced cs)
    (hlen : cs.length ≤ len) :
    Rule.propertyAttribute.body.Steady .spaced Rule.propertyAttribute.exposure cs := by
  let getter : Expr := .seq (.seq (call .getterKeyword) (lit "=")) (call .identifier)
  let setter : Expr :=
    .seq (.seq (.seq (call .setterKeyword) (lit "=")) (call .identifier)) (lit ":")
  let others : Expr := .choice setter (.choice (call .nullabilitySpecifier) (call .identifier))
  have hbody : Rule.propertyAttribute.body = .choice getter others := rfl
  have hothers : others.Steady .spaced {} cs :=
    steady_of_expose rfl (hknown.mono (by decide)) hcs hlen
  have hgetter : getter.Steady .spaced { gains := true } cs :=
    steady_of_expose rfl (hknown.mono (by decide)) hcs hlen
  rw [hbody]
  by_cases hgain : getter.GainsAt .spaced cs
  · -- the keyword alone is read as an attribute, and the equals sign stops the list
    obtain ⟨c, ns, hread, hc⟩ :=
      hgain.assoc.of_seq (Rule.steady_of_settled (by decide) rfl cs) rfl rfl
    have hstop := hc.resolve_left fun h => absurd h.2 (by decide)
    rw [Rule.word_reading_singleton rfl rfl (by decide), Option.ite_none_right_eq_some,
      Option.some.injEq, Prod.mk.injEq] at hread
    obtain ⟨hrun, rfl, -⟩ := hread
    have hstart : startsIdent cs = true :=
      startsIdent_of_identRun (fun w hw => by rw [List.mem_singleton.mp hw]; decide)
        (List.mem_singleton.mpr hrun)
    have hident : others.reading .spaced cs =
        some (identRest cs, [.token .identifier (identRun cs)]) := by
      have hsetter : setter.reading .spaced cs = none := by
        simp only [setter, reading_seq, Rule.word_reading_singleton (r := .setterKeyword) rfl rfl
          (by decide), hrun]
        rfl
      have hnull : (call .nullabilitySpecifier).reading .spaced cs = none := by
        rw [reading_call, Rule.keyword_reading rfl, hrun, if_neg (by decide)]
      rw [reading_choice, hsetter, reading_choice, hnull, identifier_reading_of_startsIdent hstart]
      rfl
    exact hgetter.choice_of_gains hgain hident (.inr ⟨_, List.mem_singleton_self _, hstop⟩)
  · exact ((hgetter.of_not_gainsAt hcs.ne hgain).choice rfl hothers).mono (by decide)

/-! ### Parameters of blocks -/

/-- A declarator gains only where a pointer comes to the end of the text. -/
theorem declarator_gains (hknown : Known .spaced len first) (hcs : Begins .spaced cs)
    (hlen : cs.length < len) (h : (call .declarator).GainsAt .spaced cs) :
    ∃ c ns, (call .pointer).reading .spaced cs = some (c, ns) ∧ skipGap c = [] := by
  have hsteady : ∀ e : Expr, ∀ t, e.expose .spaced = some t → ∀ c, Begins .spaced c → c <:+ cs →
      e.Steady .spaced t c := fun e t he c hc hsub =>
    steady_of_expose he (hknown.shorter hlen _) hc hsub.length_le
  have hbody : (Expr.seq (opt (call .pointer)) (call .directDeclarator)).GainsAt .spaced cs :=
    Rule.gainsAt_body h
  obtain ⟨c, ns, hread, hc⟩ := hbody.of_seq (hsteady _ _ rfl cs hcs (List.suffix_refl cs)) rfl rfl
  have hend : skipGap c = [] := by
    refine (hc.resolve_right fun hgain => ?_).1
    refine Steady.not_gainsAt (hsteady _ _ rfl _ (begins_skipBetween hgain.ne) ?_) rfl hgain
    exact (skipBetween_suffix _ c).trans (reading_suffix _ hread)
  rw [reading_opt] at hread
  cases hpointer : (call .pointer).reading .spaced cs with
  | none =>
    -- nothing would have been read
    rw [hpointer] at hread
    obtain ⟨rfl, -⟩ := Prod.mk.inj (Option.some.inj hread)
    exact absurd (hcs.solid.symm.trans hend) hcs.ne
  | some z =>
    rw [hpointer] at hread
    obtain rfl := Option.some.inj hread
    exact ⟨c, ns, rfl, hend⟩

theorem abstractDeclarator_of_pointer {ns : List Node}
    (h : (call .pointer).reading .spaced cs = some (c, ns)) (hc : skipGap c = []) :
    ∃ ms, (call .abstractDeclarator).reading .spaced cs = some ([], ms) := by
  have hmany : (Expr.choice (call .abstractBlockDeclarator) (many (call .declaratorSuffix))).reading
      .spaced [] = some ([], []) := by
    rw [reading_choice, reading_nil (by decide) (by decide), reading_many,
      reading_nil (by decide) (by decide)]
    rfl
  have hbody : ∃ others, Rule.abstractDeclarator.body = .choice (.seq (call .pointer)
    (.choice (call .abstractBlockDeclarator) (many (call .declaratorSuffix)))) others := ⟨_, rfl⟩
  obtain ⟨others, hbody⟩ := hbody
  have hwithin : Rule.abstractDeclarator.within .spaced = .spaced := rfl
  rw [reading_call, Rule.reading_eq_map, hbody, hwithin, reading_choice, reading_seq, h,
    Reading.some_andThen, skipBetween, hc, hmany]
  exact ⟨_, rfl⟩

theorem Rule.parameterDeclaration_steady
    (hknown : Known .spaced len Rule.parameterDeclaration.body.firstCalls)
    (hcs : Begins .spaced cs) (hlen : cs.length ≤ len) :
    Rule.parameterDeclaration.body.Steady .spaced Rule.parameterDeclaration.exposure cs := by
  let declarators : Expr := .choice (call .declarator) (call .abstractDeclarator)
  have hbody : Rule.parameterDeclaration.body =
    .seq (call .specifierQualifierList) (opt declarators) := rfl
  have hspecifiers : (call .specifierQualifierList).Steady .spaced _ cs :=
    steady_of_expose rfl (hknown.mono (by decide)) hcs hlen
  rw [hbody]
  refine (Steady.seq (t := { reaches := true }) hspecifiers (fun c ns hread hne => ?_) (by decide)
    (passes_all rfl)).mono (by decide)
  have hlt := after_reading rfl hread hlen
  have hbegins : Begins .spaced (skipBetween .spaced c) := begins_skipBetween hne
  have hdeclarator : (call .declarator).Steady .spaced _ (skipBetween .spaced c) :=
    steady_of_expose rfl (hknown.shorter hlt _) hbegins (Nat.le_refl _)
  have habstract : (call .abstractDeclarator).Steady .spaced _ (skipBetween .spaced c) :=
    steady_of_expose rfl (hknown.shorter hlt _) hbegins (Nat.le_refl _)
  have hchoice : declarators.Steady .spaced { reaches := true } (skipBetween .spaced c) := by
    by_cases hgain : (call .declarator).GainsAt .spaced (skipBetween .spaced c)
    · -- the pointer is read as a declarator without a name
      obtain ⟨d, ms, hpointer, hd⟩ := declarator_gains hknown hbegins hlt hgain
      obtain ⟨ms', hread'⟩ := abstractDeclarator_of_pointer hpointer hd
      exact hdeclarator.choice_of_gains hgain hread' (.inl ⟨rfl, skipGap_nil⟩)
    · exact ((hdeclarator.of_not_gainsAt hne hgain).choice rfl habstract).mono (by decide)
  exact (Steady.opt hbegins hchoice).mono (by decide)

/-- No ellipsis stands where a parameter can only be read with the line. -/
theorem passes_ellipsis : (Expr.seq (lit ",") (call .parameterDeclaration)).Passes mode
    (opt (Expr.seq (lit ",") (lit "..."))) := by
  intro cs c ns hcs hgain hread
  obtain ⟨c₁, ns₁, hcomma, hc₁⟩ := hgain.of_seq (steady_literal (by decide) cs) rfl rfl
  have hdots : (lit "...").reading mode (skipBetween mode c₁) = none := by
    rcases hc₁ with ⟨hnil, -⟩ | hparameter
    · rw [hnil]
      exact reading_nil (by decide) (by decide)
    · cases hdots : (lit "...").reading mode (skipBetween mode c₁) with
      | none => rfl
      | some z =>
        have hhead := head?_of_firstChar? (f := '.') rfl (Option.isSome_iff_exists.mpr ⟨z, hdots⟩)
        exact absurd hparameter (not_gainsAt_of_misses (by decide) (by decide) rfl hhead)
  have hellipsis : (Expr.seq (lit ",") (lit "...")).reading mode cs = none := by
    rw [reading_seq, hcomma, Reading.some_andThen, hdots]
    rfl
  rw [reading_opt, hellipsis] at hread
  exact (Prod.mk.inj (Option.some.inj hread)).1.symm

theorem Rule.blockParameters_steady
    (hknown : Known .spaced len Rule.blockParameters.body.firstCalls) (hlen : cs.length ≤ len) :
    Rule.blockParameters.body.Steady .spaced Rule.blockParameters.exposure cs := by
  let more : Expr := .seq (lit ",") (call .parameterDeclaration)
  let parameters : Expr := .seq (call .parameterDeclaration) (many more)
  let list : Expr := .seq parameters (opt (.seq (lit ",") (lit "...")))
  have hbody : Rule.blockParameters.body = .seq (.seq (lit "(") (opt list)) (lit ")") := rfl
  have hlist : ∀ c, Begins .spaced c → c.length < len →
      (opt list).Steady .spaced { reaches := true, stops := [more, list] } c := by
    intro c hc hlt
    have hparameters : parameters.Steady .spaced _ c :=
      steady_of_expose rfl (hknown.shorter hlt _) hc (Nat.le_refl _)
    refine (Steady.opt hc (hparameters.seq_of_expose rfl rfl (by decide) ?_ hknown
      hlt.le)).mono (by decide)
    intro e he
    obtain rfl := List.mem_singleton.mp he
    exact passes_ellipsis
  have hopen : (Expr.seq (lit "(") (opt list)).Steady .spaced _ cs :=
    Steady.seq (steady_literal (by decide) cs) (fun c ns hread hne => by
      have hlt := after_reading rfl hread hlen
      exact hlist _ (begins_skipBetween hne) hlt) (by decide) (passes_all rfl)
  rw [hbody]
  exact (hopen.seq_of_expose rfl rfl (by decide) (passes_all (by decide)) hknown hlen).mono
    (by decide)

end HeaderBridge.Grammar
