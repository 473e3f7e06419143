import HeaderBridge.Proofs.Declaration.AssumeNonnull
import HeaderBridge.Proofs.Grammar.Noting

/-! # Headers that declare nothing

A header without an `@` declares no type. What it holds is skipped, up to the end of
the text or up to a semicolon that stands where a declaration would begin. In the
first case the source is empty; in the second the failure is at the semicolon.
-/

namespace HeaderBridge

open Grammar Grammar.Expr Grammar.Matcher

variable {cs c : List Char} {ns : List Node}

/-! ### Declarations that begin with no `@` -/

/-- The rules for declarations that begin with an `@`. -/
def Grammar.Rule.marked : List Rule :=
  [.classForwardDeclaration, .protocolForwardDeclaration, .categoryInterface, .classInterface,
    .protocolDeclaration, .implementationBlock]

theorem Grammar.Rule.firstChar?_of_marked : ∀ r ∈ marked, r.body.firstChar? = some '@' := by decide

theorem Grammar.Rule.reading_of_marked {r : Rule} (hr : r ∈ marked) (hcs : cs.head? ≠ some '@') :
    r.reading .spaced cs = none := by
  rw [Rule.reading_eq_none, ← Option.not_isSome_iff_eq_none]
  exact fun hsome => hcs (head?_of_firstChar? (firstChar?_of_marked r hr) hsome)

theorem Grammar.Rule.externalDeclaration_reading (hcs : cs.head? ≠ some '@') :
    Rule.externalDeclaration.reading .spaced cs =
      (Rule.preprocessorDirective.reading .spaced cs).or
        ((Rule.nonnullAuditMarker.reading .spaced cs).or
          (Rule.skippedDeclaration.reading .spaced cs)) := by
  have hnone : ∀ r ∈ marked, r.reading .spaced cs = none := fun r hr => reading_of_marked hr hcs
  simp only [marked, List.forall_mem_cons] at hnone
  obtain ⟨h₁, h₂, h₃, h₄, h₅, h₆, -⟩ := hnone
  rw [Rule.reading_group rfl, externalDeclaration_body]
  simp only [reading_choice, reading_call, h₁, h₂, h₃, h₄, h₅, h₆, Option.none_or]

def Grammar.skippedEnd : Expr :=
  .choice (lit ";") (.choice (call .objcDirective) (call .directiveLine))

def Grammar.skippedRound : Expr :=
  .choice (call .skippedBlock) (.seq (notAhead skippedEnd) (char .any))

theorem Grammar.Rule.skippedDeclaration_body : Rule.skippedDeclaration.body =
    .seq (.seq skippedRound (many skippedRound)) (opt (lit ";")) := rfl

theorem Grammar.skippedEnd_reading {d : Char} {ds : List Char} (hat : d ≠ '@') (hsemi : d ≠ ';')
    (hline : isNewline d = false) : skippedEnd.reading .tight (d :: ds) = none := by
  have hend : (lit ";").reading .tight (d :: ds) = none := by
    rw [← Option.not_isSome_iff_eq_none]
    exact fun h => hsemi (Option.some.inj (head?_of_firstChar? (f := ';') rfl h))
  have hdirective : Rule.objcDirective.reading .tight (d :: ds) = none := by
    rw [Rule.reading_eq_none, ← Option.not_isSome_iff_eq_none]
    exact fun h => hat (Option.some.inj (head?_of_firstChar? (f := '@') (by decide) h))
  have hdirectiveLine : Rule.directiveLine.reading .tight (d :: ds) = none := by
    have hbody : Rule.directiveLine.body = .seq (.seq newline (many spaceOrTab)) (lit "#") := rfl
    have hnewline : newline.reading .tight (d :: ds) = none := by
      rw [← Option.not_isSome_iff_eq_none, newline_isSome, readOne, hline]
      exact Bool.false_ne_true
    rw [Rule.reading_tight, hbody, reading_seq, reading_seq, hnewline]
    rfl
  rw [skippedEnd, reading_choice, reading_choice, reading_call, reading_call, hend, hdirective,
    hdirectiveLine]
  rfl

theorem Grammar.Rule.skippedDeclaration_isSome {d : Char} {ds : List Char} (hat : d ≠ '@')
    (hsemi : d ≠ ';') (hline : isNewline d = false) :
    (Rule.skippedDeclaration.reading .spaced (d :: ds)).isSome = true := by
  have hround : ∃ y, skippedRound.reading .tight (d :: ds) = some y := by
    rw [skippedRound, reading_choice, reading_seq, reading_notAhead,
      skippedEnd_reading hat hsemi hline]
    cases (call .skippedBlock).reading .tight (d :: ds) with
    | none => exact ⟨_, rfl⟩
    | some y => exact ⟨y, rfl⟩
  have hmany : ∀ bs, ∃ z, (many skippedRound).reading .tight bs = some z := by
    intro bs
    rw [reading_many]
    cases skippedRound.reading .tight bs with
    | none => exact ⟨_, rfl⟩
    | some z => exact ⟨_, rfl⟩
  obtain ⟨y, hy⟩ := hround
  obtain ⟨z, hz⟩ := hmany (skipBetween .tight y.1)
  rw [Rule.reading_token rfl, skippedDeclaration_body, reading_seq, reading_seq, hy]
  simp only [Reading.andThen, Option.bind_some, hz, reading_opt, Reading.named, Option.isSome_map,
    Option.isSome_some]

theorem Grammar.Rule.externalDeclaration_semicolon (cs : List Char) :
    Rule.externalDeclaration.reading .spaced (';' :: cs) = none := by
  have hdirective : Rule.preprocessorDirective.reading .spaced (';' :: cs) = none := by
    rw [Rule.reading_eq_none, ← Option.not_isSome_iff_eq_none]
    intro h
    cases head?_of_firstChar? (f := '#') (by decide) h
  have hmarker : Rule.nonnullAuditMarker.reading .spaced (';' :: cs) = none := by
    have hrun : identRun (';' :: cs) = [] := rfl
    rw [Rule.word_reading rfl rfl (by decide), hrun]
    exact if_neg (by decide)
  have hround : skippedRound.reading .tight (';' :: cs) = none := by
    have hend : (skippedEnd.reading .tight (';' :: cs)).isSome = true := by
      rw [skippedEnd, reading_choice]
      rfl
    have hblock : Rule.skippedBlock.reading .tight (';' :: cs) = none := by
      rw [Rule.reading_eq_none, ← Option.not_isSome_iff_eq_none]
      intro h
      cases head?_of_firstChar? (f := '\x7b') (by decide) h
    rw [skippedRound, reading_choice, reading_seq, reading_notAhead, if_pos hend, reading_call,
      hblock]
    rfl
  have hskipped : Rule.skippedDeclaration.reading .spaced (';' :: cs) = none := by
    rw [Rule.reading_token rfl, skippedDeclaration_body, reading_seq, reading_seq, hround]
    rfl
  rw [externalDeclaration_reading (by simp), hdirective, hmarker, hskipped]
  rfl

namespace Header

/-- A declaration that begins with no `@` is one of those that declare nothing. -/
theorem idle_of_nextUnit (hcs : (skipGap cs).head? ≠ some '@') (h : nextUnit cs = some (c, ns)) :
    ∀ n ∈ ns, n.rule ∈ Rule.idle := by
  have hsingle : ∀ r ∈ Rule.idle, r.reading .spaced (skipGap cs) = some (c, ns) →
      ∀ n ∈ ns, n.rule ∈ Rule.idle := by
    intro r hr hread
    have hkind : ∀ r ∈ Rule.idle, r.kind = .token := by decide
    obtain ⟨t, ms, rfl⟩ := Rule.reading_singleton (.inr (hkind r hr)) hread
    intro n hn
    obtain rfl := List.mem_singleton.mp hn
    exact hr
  rw [nextUnit, reading_call, Rule.externalDeclaration_reading hcs] at h
  rcases Option.or_eq_some_iff.mp h with h | ⟨-, h⟩
  · exact hsingle _ (by decide) h
  · rcases Option.or_eq_some_iff.mp h with h | ⟨-, h⟩
    · exact hsingle _ (by decide) h
    · exact hsingle _ (by decide) h

theorem skipGap_of_nextUnit_eq_none (hat : '@' ∉ cs) (h : nextUnit cs = none) :
    skipGap cs = [] ∨ ∃ after, skipGap cs = ';' :: after := by
  cases hds : skipGap cs with
  | nil => exact .inl rfl
  | cons d ds =>
    have hmem : '@' ∉ d :: ds := fun hmem => hat ((skipGap_suffix cs).subset (hds ▸ hmem))
    have hd : d ≠ '@' := fun heq => hmem (heq ▸ List.mem_cons_self)
    have hline : isNewline d = false := by
      have hsolid : gapStep? (d :: ds) = none := hds ▸ solid_skipGap cs
      rw [Bool.eq_false_iff]
      intro hnewline
      rw [gapStep?_blank (isGapBlank_of_isNewline hnewline)] at hsolid
      cases hsolid
    by_cases hsemi : d = ';'
    · exact .inr ⟨ds, by rw [hsemi]⟩
    · have hhead : (d :: ds).head? ≠ some '@' := fun h => hd (Option.some.inj h)
      have hskipped : (Rule.skippedDeclaration.reading .spaced (d :: ds)).isSome = true :=
        Rule.skippedDeclaration_isSome hd hsemi hline
      rw [nextUnit, hds, reading_call, Rule.externalDeclaration_reading hhead,
        Option.or_eq_none_iff, Option.or_eq_none_iff] at h
      rw [h.2.2] at hskipped
      cases hskipped

/-- Without an `@`, declarations that declare nothing reach to the end of the text or to a
semicolon in the place of a declaration. -/
theorem units_of_plain (hat : '@' ∉ cs) :
    (∀ n ∈ (units cs).2, n.rule ∈ Rule.idle) ∧
      (skipGap (units cs).1 = [] ∨
        ∃ after, skipGap (units cs).1 = ';' :: after ∧ UnitAt cs (';' :: after)) := by
  induction hn : cs.length using Nat.strongRecOn generalizing cs with | ind n ih => ?_
  subst hn
  cases hnext : nextUnit cs with
  | none =>
    rw [units_of_nextUnit_eq_none hnext, skipGap_skipGap]
    refine ⟨by simp, ?_⟩
    rcases skipGap_of_nextUnit_eq_none hat hnext with hend | ⟨after, hsemi⟩
    · exact .inl hend
    · exact .inr ⟨after, hsemi, hsemi ▸ .first⟩
  | some z =>
    obtain ⟨c, ns⟩ := z
    have hsuffix : c <:+ cs := (reading_suffix _ hnext).trans (skipGap_suffix cs)
    have hlt : c.length < cs.length :=
      Nat.lt_of_lt_of_le (length_of_nextUnit hnext) (skipGap_suffix cs).length_le
    have hhead : (skipGap cs).head? ≠ some '@' := fun h =>
      hat ((skipGap_suffix cs).subset (List.mem_of_head? h))
    obtain ⟨hidle, hrest⟩ := ih c.length hlt (fun h => hat (hsuffix.subset h)) rfl
    obtain ⟨hrest', hnodes⟩ := units_of_nextUnit hnext
    rw [hrest', hnodes]
    refine ⟨fun n hn => ?_, hrest.imp_right ?_⟩
    · rcases List.mem_append.mp hn with hn | hn
      · exact idle_of_nextUnit hhead hnext n hn
      · exact hidle n hn
    · rintro ⟨after, hsemi, hunit⟩
      exact ⟨after, hsemi, hunit.of_nextUnit hnext⟩

theorem UnitAt.skipGap_eq {text : List Char} (h : UnitAt text cs) : skipGap cs = cs := by
  cases h with
  | first => exact skipGap_skipGap _
  | next => exact skipGap_skipGap _

/-- From any place where a declaration begins, the declarations reach as far. -/
theorem UnitAt.skipGap_units {text : List Char} (h : UnitAt text cs) :
    skipGap (units text).1 = skipGap (units cs).1 := by
  induction h with
  | first => rw [units_congr (skipGap_skipGap text)]
  | next hunit hread ih =>
    have hnext := units_of_nextUnit (by rw [nextUnit, hunit.skipGap_eq]; exact hread)
    rw [ih, hnext.1, units_congr (skipGap_skipGap _)]

theorem UnitAt.semicolon {text after : List Char} (h : UnitAt text (';' :: after)) :
    skipGap (units text).1 = ';' :: after := by
  have hnone : nextUnit (';' :: after) = none := by
    rw [nextUnit, h.skipGap_eq, reading_call, Rule.externalDeclaration_semicolon]
  rw [h.skipGap_units, units_of_nextUnit_eq_none hnone, skipGap_skipGap, h.skipGap_eq]

/-! ### Where a failure is noted -/

/-- The rest of a text of the given length in bytes has no `@`, and nothing failed beyond the
place where its next declaration would begin. -/
structure OnTrack (total : Nat) (c : Cursor) (f : Furthest) : Prop where
  place : c.offset + bytes c.rest = total
  plain : '@' ∉ c.rest
  noted : f.offset + bytes (skipGap c.rest) ≤ total

variable {total n : Nat} {c c' : Cursor} {f f' : Furthest}

theorem OnTrack.ahead (h : OnTrack total c f) (hmove : c.Ahead c')
    (hnoted : f'.offset + bytes (skipGap c'.rest) ≤ total) : OnTrack total c' f' := by
  obtain ⟨ds, hrest, hoffset⟩ := hmove
  have hplace := h.place
  have hplain := h.plain
  rw [hrest] at hplace hplain
  rw [bytes_append] at hplace
  exact ⟨by omega, fun hmem => hplain (List.mem_append_right ds hmem), hnoted⟩

theorem OnTrack.gap (h : OnTrack total c f)
    (hgap : eval.between (Rule.run n) n .spaced c f = .matched c' ns f') :
    OnTrack total c' f' ∧ c'.rest = skipGap c.rest := by
  have hmove := between_results n .spaced Moves.composable (Rule.run_moves n .tight .whitespace)
    (Rule.run_moves n .tight .comment) hgap
  have hquiet := between_quiet (fun r => Rule.run_tight_quiet n r) n .spaced (c := c) (f := f)
  have hreads := between_reads n .spaced c f
  rw [hgap] at hquiet hreads
  obtain rfl := hquiet rfl
  have hrest : skipGap c.rest = c'.rest := congrArg Prod.fst (Option.some.inj hreads.eq_some)
  refine ⟨h.ahead hmove ?_, hrest.symm⟩
  rw [← hrest, skipGap_skipGap]
  exact h.noted

theorem externalDeclaration_notedBy (hc : c.rest.head? ≠ some '@') (n : Nat) (f : Furthest) :
    (Rule.externalDeclaration.run n .spaced c f).NotedBy f c.offset := by
  cases n with
  | zero =>
    intro f' hf'
    cases hf'
  | succ n =>
    have hmarked : ∀ r ∈ Rule.marked, ∀ f, (r.run n .spaced c f).NotedBy f c.offset := by
      intro r hr f
      have hkind : ∀ r ∈ Rule.marked, r.kind = .token ∨ r.kind = .branch := by decide
      exact Rule.run_notedBy ((hkind r hr).imp_right fun hk =>
        ⟨hk, '@', Rule.firstChar?_of_marked r hr, hc⟩) n f
    simp only [Rule.run, Rule.kind, Rule.externalDeclaration_body, eval]
    refine orElse_notedBy (Rule.run_notedBy (.inl rfl) n f) fun f => ?_
    refine orElse_notedBy (Rule.run_notedBy (.inl rfl) n f) fun f => ?_
    refine orElse_notedBy (hmarked _ (by decide) f) fun f => ?_
    refine orElse_notedBy (hmarked _ (by decide) f) fun f => ?_
    refine orElse_notedBy (hmarked _ (by decide) f) fun f => ?_
    refine orElse_notedBy (hmarked _ (by decide) f) fun f => ?_
    refine orElse_notedBy (hmarked _ (by decide) f) fun f => ?_
    exact orElse_notedBy (hmarked _ (by decide) f) (Rule.run_notedBy (.inl rfl) n)

theorem OnTrack.noted_unit (h : OnTrack total c f) (hsolid : skipGap c.rest = c.rest)
    (hf' : (Rule.externalDeclaration.run n .spaced c f).failure? = some f') :
    f'.offset + bytes c.rest ≤ total := by
  have hhead : c.rest.head? ≠ some '@' := fun hhead => h.plain (List.mem_of_head? hhead)
  have hle := externalDeclaration_notedBy hhead n f f' hf'
  have hplace := h.place
  have hnoted := h.noted
  rw [hsolid] at hnoted
  omega

theorem OnTrack.unit (h : OnTrack total c f) (hsolid : skipGap c.rest = c.rest)
    (hmatch : Rule.externalDeclaration.run n .spaced c f = .matched c' ns f') :
    OnTrack total c' f' := by
  have hmove : c.Ahead c' := Rule.run_moves n .spaced _ hmatch
  have hnoted := h.noted_unit hsolid (by rw [hmatch]; rfl)
  have hsuffix : skipGap c'.rest <:+ c.rest := by
    obtain ⟨ds, hrest, -⟩ := hmove
    exact (skipGap_suffix c'.rest).trans ⟨ds, hrest.symm⟩
  have hle := bytes_le_of_suffix hsuffix
  exact h.ahead hmove (by omega)

/-- The rounds of a header stay on track, and so does the attempt that ends them. -/
theorem OnTrack.rounds {m : Nat} {ms : List Node} (h : OnTrack total c f)
    (hmatch : Matcher.rounds (Matcher.andThen (eval.between (Rule.run n) n .spaced)
      (Rule.externalDeclaration.run n .spaced)) m ns c f = .matched c' ms f') :
    OnTrack total c' f' := by
  induction m generalizing ns c f with
  | zero => simp [Matcher.rounds] at hmatch
  | succ m ih =>
    rw [Matcher.rounds] at hmatch
    cases hround : Matcher.andThen (eval.between (Rule.run n) n .spaced)
        (Rule.externalDeclaration.run n .spaced) c f with
    | exhausted => simp [hround] at hmatch
    | matched c₁ ns₁ f₁ =>
      rw [hround] at hmatch
      obtain ⟨c₂, ns₂, f₂, ns₃, hgap, hunit, -⟩ := andThen_matched.mp hround
      obtain ⟨h₂, hrest⟩ := h.gap hgap
      exact ih (h₂.unit (by rw [hrest, skipGap_skipGap]) hunit) hmatch
    | failed f₁ =>
      simp only [hround, Outcome.matched.injEq] at hmatch
      obtain ⟨rfl, -, rfl⟩ := hmatch
      rcases andThen_failed.mp hround with hgap | ⟨c₂, ns₂, f₂, hgap, hunit⟩
      · have hreads := between_reads n .spaced c f
        rw [hgap] at hreads
        cases hreads.eq_none
      · obtain ⟨h₂, hrest⟩ := h.gap hgap
        have hnoted := h₂.noted_unit (by rw [hrest, skipGap_skipGap]) (by rw [hunit]; rfl)
        exact ⟨h.place, h.plain, hrest ▸ hnoted⟩

theorem OnTrack.many (h : OnTrack total c f) (hsolid : skipGap c.rest = c.rest)
    (hmatch : (Expr.many (call .externalDeclaration)).eval (Rule.run n) n .spaced c f =
      .matched c' ns f') : OnTrack total c' f' := by
  rcases many_matched.mp hmatch with ⟨hfail, rfl, -⟩ | ⟨c₁, ns₁, f₁, hunit, hrounds⟩
  · have hnoted :=
      h.noted_unit hsolid
        (by rw [show Rule.externalDeclaration.run n .spaced c' f = _ from hfail]; rfl)
    exact ⟨h.place, h.plain, hsolid.symm ▸ hnoted⟩
  · exact (h.unit hsolid hunit).rounds hrounds

/-- All declarations of a text, in the form in which the rule for headers calls them. -/
def allUnits : Expr := seq start (Expr.many (call .externalDeclaration))

theorem allUnits_reads (n : Nat) (text : String) :
    (allUnits.eval (Rule.run n) n .spaced (.ofText text) .start).Reads
      (some (units text.toList)) := by
  have hreads : (allUnits.eval (Rule.run n) n .spaced (.ofText text) .start).Reads
      (allUnits.reading .spaced (Cursor.ofText text).rest) :=
    eval_reads allUnits rfl (.ofText text) .start (.inr ⟨rfl, rfl⟩)
  rwa [allUnits, reading_seq, reading_start, Reading.some_nil_andThen, Cursor.ofText, skipBetween,
    reading_units] at hreads

theorem onTrack_of_allUnits {text : String} (hat : '@' ∉ text.toList)
    (h : allUnits.eval (Rule.run n) n .spaced (.ofText text) .start = .matched c ns f) :
    OnTrack (bytes text.toList) c f := by
  have hstart : OnTrack (bytes text.toList) (.ofText text) .start := by
    refine ⟨Nat.zero_add _, hat, ?_⟩
    have hle := bytes_le_of_suffix (skipGap_suffix text.toList)
    exact (Nat.zero_add _).trans_le hle
  obtain ⟨c₁, ns₁, f₁, ns₂, hfirst, hrest, -⟩ := andThen_matched.mp h
  obtain ⟨hc₁, -, rfl⟩ := ofStep_matched.mp hfirst
  obtain rfl := Option.some.inj hc₁
  obtain ⟨c₂, ns₃, f₂, ns₄, hgap, hunits, -⟩ := andThen_matched.mp hrest
  obtain ⟨h₂, hsolid⟩ := hstart.gap hgap
  exact h₂.many (by rw [hsolid, skipGap_skipGap]) hunits

theorem OnTrack.endOfInput (h : OnTrack total c f) (hsolid : skipGap c.rest = c.rest)
    (hfail : Rule.endOfInput.run n .spaced c f = .failed f') : f'.offset = c.offset := by
  cases n with
  | zero => cases hfail
  | succ n =>
    obtain ⟨f₁, hfinish, rfl⟩ := named_failed.mp hfail
    have hquiet : f₁ = f := Quiet.ofStep _ (congrArg Outcome.failure? hfinish)
    have hplace := h.place
    have hnoted := h.noted
    rw [hsolid] at hnoted
    rw [Furthest.offset_note, hquiet]
    omega

/-- Without an `@`, a header that cannot be parsed fails where its declarations end. -/
theorem offset_of_plain {text : String} (hat : '@' ∉ text.toList)
    (h : Grammar.parse .translationUnit text = .error f) :
    f.offset + bytes (skipGap (units text.toList).1) = bytes text.toList := by
  have hbody : Rule.translationUnit.body = seq allUnits (call .endOfInput) := rfl
  have hmatch : Rule.translationUnit.matchText text = .failed f := by
    have hne := Rule.translationUnit.matchText_ne_exhausted text
    unfold Grammar.parse at h
    cases hm : Rule.translationUnit.matchText text with
    | matched c ns g => simp [hm] at h
    | failed g =>
      rw [hm] at h
      rw [Except.error.inj h]
    | exhausted => exact absurd hm hne
  obtain ⟨n, hn⟩ : ∃ n, callBound text.length = n + 1 :=
    Nat.exists_eq_succ_of_ne_zero (by simp [callBound])
  rw [Rule.matchText, hn] at hmatch
  simp only [Rule.run, Rule.kind, hbody] at hmatch
  obtain ⟨f₁, hfail, rfl⟩ := named_failed.mp hmatch
  have hreads := allUnits_reads n text
  rcases andThen_failed.mp hfail with hunits | ⟨c, ns, f, hunits, hlast⟩
  · rw [hunits] at hreads
    cases hreads.eq_none
  · rw [hunits] at hreads
    rw [Option.some.inj hreads.eq_some]
    have htrack := onTrack_of_allUnits hat hunits
    rcases andThen_failed.mp hlast with hgap | ⟨c', ns', f', hgap, hend⟩
    · have hreads := between_reads n .spaced c f
      rw [hgap] at hreads
      cases hreads.eq_none
    · obtain ⟨h', hrest⟩ := htrack.gap hgap
      have hoffset := h'.endOfInput (by rw [hrest, skipGap_skipGap]) hend
      have hplace := h'.place
      rw [Furthest.offset_note, hoffset, ← hrest]
      exact (Nat.max_eq_left (Nat.zero_le _)).symm ▸ hplace

/-! ### Conversion -/

theorem convert_of_idle {text : String} (hend : skipGap (units text.toList).1 = [])
    (hidle : ∀ n ∈ (units text.toList).2, n.rule ∈ Rule.idle) (policy : Declaration.Policy) :
    convert policy text = .ok "" := by
  obtain ⟨tree, hparse⟩ := parse_of_units hend
  have hchildren : tree.children.map Node.unplaced = (units text.toList).2 ++ [.atEnd] := by
    rw [← Node.children_unplaced, (parse_eq_ok hparse).2]
    rfl
  have hrules : ∀ n ∈ tree.children, n.rule ∉ Outline.typeRules := by
    intro n hn
    have hnone : ∀ r ∈ Rule.endOfInput :: Rule.idle, r ∉ Outline.typeRules := by decide
    rw [← Node.rule_unplaced]
    refine hnone _ ?_
    rcases List.mem_append.mp (hchildren ▸ List.mem_map_of_mem hn) with hmem | hmem
    · exact List.mem_cons_of_mem _ (hidle _ hmem)
    · rw [List.mem_singleton.mp hmem]
      exact List.mem_cons_self
  rw [convert_of_parse hparse, Declaration.Direct.ofTree,
    Declaration.Direct.foldl_addType_of_not_type _ policy hrules]
  rfl

theorem convert_of_semicolon {text : String} (hat : '@' ∉ text.toList) {after : List Char}
    (h : skipGap (units text.toList).1 = ';' :: after) (policy : Declaration.Policy) :
    ∃ f, convert policy text = .error (.malformed f (Failure.malformedHelp text f.offset)) ∧
      f.offset + bytes (';' :: after) = bytes text.toList := by
  have hread := Rule.reading_translationUnit text.toList
  rw [if_neg (by rw [h]; exact List.cons_ne_nil _ _)] at hread
  obtain ⟨f, hparse⟩ := Grammar.parse_of_reading_eq_none hread
  refine ⟨f, ?_, h ▸ offset_of_plain hat hparse⟩
  simp only [convert, outline, outlineWithin, parse, hparse, bind, Except.bind]

/-- A header without an `@` is converted to the empty source, unless a semicolon stands where a
declaration would begin; then it is refused, and the failure is at this semicolon. -/
theorem convert_of_plain (policy : Declaration.Policy) {text : String} (hat : '@' ∉ text.toList) :
    (convert policy text = .ok "" ∧ ∀ after, ¬ UnitAt text.toList (';' :: after)) ∨
      ∃ f before after,
        convert policy text = .error (.malformed f (Failure.malformedHelp text f.offset)) ∧
        text = before ++ ";" ++ after ∧ f.offset = before.utf8ByteSize ∧
        UnitAt text.toList (';' :: after.toList) := by
  obtain ⟨hidle, hrest⟩ := units_of_plain hat
  rcases hrest with hend | ⟨after, hsemi, hunit⟩
  · refine .inl ⟨convert_of_idle hend hidle policy, fun after hunit => ?_⟩
    rw [hunit.semicolon] at hend
    cases hend
  · obtain ⟨f, hconvert, hoffset⟩ := convert_of_semicolon hat hsemi policy
    obtain ⟨before, hsplit⟩ := hunit.suffix
    refine .inr ⟨f, .ofList before, .ofList after, hconvert, ?_, ?_, ?_⟩
    · apply String.toList_injective
      simp [← hsplit]
    · rw [← hsplit, bytes_append] at hoffset
      rw [utf8ByteSize_ofList]
      omega
    · rwa [String.toList_ofList]

/-- The second semicolon is where a declaration would begin. -/
theorem convert_of_plain_twice : '@' ∉ "char ß;; // a\n".toList ∧
    ((convert {} "char ß;; // a\n" = .ok "" ∧
        ∀ after, ¬ UnitAt "char ß;; // a\n".toList (';' :: after)) ∨
      ∃ f before after, convert {} "char ß;; // a\n" =
          .error (.malformed f (Failure.malformedHelp "char ß;; // a\n" f.offset)) ∧
        "char ß;; // a\n" = before ++ ";" ++ after ∧ f.offset = before.utf8ByteSize ∧
        UnitAt "char ß;; // a\n".toList (';' :: after.toList)) :=
  ⟨by decide, convert_of_plain {} (by decide)⟩

end Header

end HeaderBridge
