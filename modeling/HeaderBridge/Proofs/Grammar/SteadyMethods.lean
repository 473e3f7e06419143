import HeaderBridge.Proofs.Grammar.Steadiness

/-! # Steady methods

Where the pieces of a selector stop at the end of a text, the colon of the piece
that is left out keeps the rest of the method from being read.
-/

namespace HeaderBridge.Grammar

open HeaderBridge.Grammar.Expr

variable {cs c : List Char} {len : Nat}

/-! ### Selectors -/

def keywordTail : Expr :=
  .seq (.seq (.seq (lit ":") (many (call .methodType))) (opt (call .arcBehaviourSpecifier)))
    (call .identifier)

theorem keywordDeclarator_reading :
    Rule.keywordDeclarator.body.reading .spaced cs =
      ((opt (call .selector)).reading .spaced cs).andThen fun c =>
        keywordTail.reading .spaced (skipGap c) := by
  have hbody : Rule.keywordDeclarator.body =
      .seq (.seq (.seq (.seq (opt (call .selector)) (lit ":"))
    (many (call .methodType))) (opt (call .arcBehaviourSpecifier))) (call .identifier) := rfl
  simp only [hbody, keywordTail, reading_seq, Reading.andThen_assoc]
  rfl

def afterIdent (cs : List Char) : List Char := if startsIdent cs then identRest cs else cs

theorem selector_reading_eq_none (h : startsIdent cs = false) :
    (call .selector).reading .spaced cs = none := by
  rw [reading_call, Rule.reading_eq_none]
  change (call .identifier).reading .spaced cs = none
  rw [reading_call, Rule.identifier_reading, h]
  rfl

theorem optional_selector_reading (cs : List Char) :
    ∃ ns, (opt (call .selector)).reading .spaced cs = some (afterIdent cs, ns) := by
  rw [reading_opt, afterIdent]
  cases h : startsIdent cs with
  | false =>
    rw [selector_reading_eq_none h]
    exact ⟨[], rfl⟩
  | true =>
    obtain ⟨ns, hread⟩ := Rule.reading_of_identifier (r := .selector) rfl rfl h
    rw [hread]
    exact ⟨ns, rfl⟩

theorem keywordDeclarator_gains (hcs : Begins .spaced cs)
    (h : (call .keywordDeclarator).GainsAt .spaced cs) :
    keywordTail.GainsAt .spaced (skipGap (afterIdent cs)) := by
  obtain ⟨hne, hwithout, hwith⟩ := Rule.gainsAt_body h
  have hseq : (Expr.seq (opt (call .selector)) keywordTail).GainsAt .spaced cs := by
    refine ⟨hne, ?_, ?_⟩
    · rw [reading_seq]
      exact keywordDeclarator_reading.symm.trans hwithout
    · rw [reading_seq]
      exact keywordDeclarator_reading ▸ hwith
  obtain ⟨c, ns, hread, hc⟩ :=
    hseq.of_seq (Steady.opt hcs (Rule.steady_of_identifier rfl rfl cs)) rfl rfl
  obtain ⟨ms, hread'⟩ := optional_selector_reading cs
  obtain ⟨rfl, -⟩ := Prod.mk.inj (Option.some.inj (hread.symm.trans hread'))
  exact hc.resolve_left fun h => absurd h.2 (by decide)

theorem keywordDeclarator_gains_of_tail (h : keywordTail.GainsAt .spaced cs) :
    (call .keywordDeclarator).GainsAt .spaced cs := by
  obtain ⟨hne, hwithout, hwith⟩ := h
  have hhead := head?_of_firstChar? (f := ':') rfl hwith
  rw [List.head?_append_of_ne_nil _ hne] at hhead
  obtain ⟨zs, rfl⟩ := List.head?_eq_some_iff.mp hhead
  have hread : ∀ zs, Rule.keywordDeclarator.body.reading .spaced (':' :: zs) =
      keywordTail.reading .spaced (':' :: zs) := by
    intro zs
    have hgap : skipGap (':' :: zs) = ':' :: zs := (solid_cons rfl (by decide)).skipGap
    rw [keywordDeclarator_reading, reading_opt, selector_reading_eq_none rfl, Option.getD_none,
      Reading.some_nil_andThen, hgap]
  refine ⟨hne, ?_, ?_⟩
  · rw [reading_call, Rule.reading_eq_none]
    exact (hread zs).trans hwithout
  · rw [reading_call, Rule.reading_eq_map, Option.isSome_map]
    exact (congrArg Option.isSome (hread _)).trans hwith

theorem passes_variadicMarker :
    (call .keywordDeclarator).Passes .spaced (opt (call .variadicMarker)) := by
  intro cs c ns hcs hgain hread
  rw [reading_opt] at hread
  cases hmarker : (call .variadicMarker).reading .spaced cs with
  | none =>
    rw [hmarker] at hread
    exact (Prod.mk.inj (Option.some.inj hread)).1.symm
  | some z =>
    have hbody : ((Expr.seq (lit ",") (lit "...")).reading .spaced cs).isSome = true := by
      rw [reading_call, Rule.reading_eq_map] at hmarker
      obtain ⟨y, hy, -⟩ := Option.map_eq_some_iff.mp hmarker
      exact Option.isSome_iff_exists.mpr ⟨y, hy⟩
    have hhead := head?_of_firstChar? (f := ',') rfl hbody
    exact absurd hgain (not_gainsAt_of_misses (by decide) (by decide) rfl hhead)

theorem Rule.methodSelector_steady
    (hknown : Known .spaced len Rule.methodSelector.body.firstCalls) (hcs : Begins .spaced cs)
    (hlen : cs.length ≤ len) :
    Rule.methodSelector.body.Steady .spaced Rule.methodSelector.exposure cs := by
  let pieces : Expr := .seq (call .keywordDeclarator) (many (call .keywordDeclarator))
  let keywords : Expr := .seq pieces (opt (call .variadicMarker))
  have hbody : Rule.methodSelector.body = .choice keywords (call .selector) := rfl
  have hpieces : pieces.Steady .spaced _ cs :=
    steady_of_expose rfl (hknown.mono (by decide)) hcs hlen
  have hkeywords : keywords.Steady .spaced Rule.methodSelector.exposure cs := by
    refine (hpieces.seq_of_expose rfl rfl (by decide) (fun e he => ?_) hknown hlen).mono
      (by decide)
    obtain rfl := List.mem_singleton.mp he
    exact passes_variadicMarker
  rw [hbody]
  by_cases hgain : keywords.GainsAt .spaced cs
  · have hpiece : (call .keywordDeclarator).GainsAt .spaced cs :=
      (hgain.of_seq_total rfl).of_seq_total rfl
    have htail := keywordDeclarator_gains hcs hpiece
    cases hstart : startsIdent cs with
    | true =>
      -- the word before the colon is read as a selector, and the colon stops it
      obtain ⟨ns, hselector⟩ := Rule.reading_of_identifier (r := .selector) rfl rfl hstart
      rw [afterIdent, if_pos hstart] at htail
      exact hkeywords.choice_of_gains hgain hselector
        (.inr ⟨_, List.mem_singleton_self _, keywordDeclarator_gains_of_tail htail⟩)
    | false =>
      obtain ⟨-, c', ns', hread, hc'⟩ := hkeywords.gained hgain
      rw [Steady, reading_choice, reading_choice, hgain.without, hread,
        selector_reading_eq_none hstart]
      exact .gains rfl hc'
  · have hselector : (call .selector).Steady .spaced {} cs := Rule.steady_of_identifier rfl rfl cs
    exact ((hkeywords.of_not_gainsAt hcs.ne hgain).choice rfl hselector).mono (by decide)

/-! ### Methods -/

/-- Only characters of identifiers are read, as far as can be told from the form of the
expression. -/
def Expr.readsIdent : Expr → Bool
  | literal l => l.all isIdentChar
  | char cls => cls ≠ .any
  | seq a b | choice a b => a.readsIdent && b.readsIdent
  | opt a | many a => a.readsIdent
  | notAhead _ => true
  | start | finish | .call _ => false

/-- What is left of a text after some characters of identifiers. -/
def AfterIdentChars (cs c : List Char) : Prop := ∃ w, cs = w ++ c ∧ ∀ d ∈ w, isIdentChar d = true

theorem AfterIdentChars.refl (cs : List Char) : AfterIdentChars cs cs := ⟨[], rfl, by simp⟩

theorem AfterIdentChars.trans {d : List Char} (h : AfterIdentChars cs c)
    (h' : AfterIdentChars c d) : AfterIdentChars cs d := by
  obtain ⟨w, rfl, hw⟩ := h
  obtain ⟨w', rfl, hw'⟩ := h'
  refine ⟨w ++ w', (List.append_assoc ..).symm, fun x hx => ?_⟩
  exact (List.mem_append.mp hx).elim (hw x) (hw' x)

theorem AfterIdentChars.identRest_eq (h : AfterIdentChars cs c) : identRest cs = identRest c := by
  obtain ⟨w, rfl, hw⟩ := h
  exact List.dropWhile_append_of_pos hw

theorem isIdentChar_of_contains {cls : CharClass} (hcls : cls ≠ .any) {d : Char}
    (h : cls.contains d = true) : isIdentChar d = true := by
  have hupper : d.isUpper = true → d.isAlpha = true := by
    intro h
    unfold Char.isAlpha
    rw [h, Bool.true_or]
  cases cls <;> simp_all [CharClass.contains, isIdentChar, Char.isAlphanum]

theorem Expr.afterIdentChars_of_reading {e : Expr} (he : e.readsIdent = true) {ns : List Node}
    (h : e.reading .tight cs = some (c, ns)) : AfterIdentChars cs c := by
  replace h := reads_of_reading h
  induction h with
  | literal l cs => exact ⟨l, rfl, by simpa [readsIdent] using he⟩
  | @char cls d hd cs =>
    have hident := isIdentChar_of_contains (by simpa [readsIdent] using he) hd
    exact ⟨[d], rfl, by simpa using hident⟩
  | stay => exact .refl _
  | call => cases he
  | seq _ _ iha ihb =>
    rw [readsIdent, Bool.and_eq_true] at he
    exact (iha he.1).trans (ihb he.2)
  | left _ ih | right _ ih =>
    rw [readsIdent, Bool.and_eq_true] at he
    exact ih (by simp [he])
  | opt _ ih | once _ ih => exact ih he
  | more _ _ ih iha => exact (ih he).trans (iha he)

/-- A colon stands behind the identifier at the beginning of the text, if there is one. -/
def ColonAhead (cs : List Char) : Prop := (skipGap (identRest cs)).head? = some ':'

theorem declarationMacro_reading {ns : List Node}
    (h : (call .declarationMacro).reading .spaced cs = some (c, ns)) :
    ∃ c₁, AfterIdentChars cs c₁ ∧
      (c = c₁.dropWhile isSpaceOrTab ∨ (c₁.dropWhile isSpaceOrTab).head? = some '(') := by
  have hbody : Rule.declarationMacro.body =
      .seq (.seq (.choice (lit "__attribute__") (call .macroName))
    (many spaceOrTab)) (opt (call .macroArguments)) := rfl
  have hwithin : Rule.declarationMacro.within .spaced = .tight := rfl
  rw [reading_call, Rule.reading_eq_map, hbody, hwithin, reading_seq, reading_seq] at h
  obtain ⟨⟨c₃, ns₃⟩, hread, hy⟩ := Option.map_eq_some_iff.mp h
  obtain ⟨rfl, -⟩ := Prod.mk.inj hy
  obtain ⟨c₂, ns₂, ms₂, hread, harguments, -⟩ := Reading.andThen_eq_some.mp hread
  obtain ⟨c₁, ns₁, ms₁, hname, hblanks, -⟩ := Reading.andThen_eq_some.mp hread
  rw [skipBetween, reading_many_readOne spaceOrTab_reading] at hblanks
  obtain ⟨rfl, -⟩ := Prod.mk.inj (Option.some.inj hblanks)
  refine ⟨c₁, ?_, ?_⟩
  · rw [reading_choice, Option.or_eq_some_iff] at hname
    rcases hname with hname | ⟨-, hname⟩
    · exact afterIdentChars_of_reading (e := lit "__attribute__") (by decide) hname
    · rw [reading_call, Rule.reading_tight] at hname
      exact afterIdentChars_of_reading (by decide) hname
  · rw [skipBetween, reading_opt] at harguments
    cases hopen : (call .macroArguments).reading .tight (c₁.dropWhile isSpaceOrTab) with
    | none =>
      rw [hopen] at harguments
      exact .inl (Prod.mk.inj (Option.some.inj harguments)).1.symm
    | some z =>
      rw [reading_call, Rule.reading_tight] at hopen
      exact .inr (head?_of_firstChar? rfl (Option.isSome_iff_exists.mpr ⟨z, hopen⟩))

theorem skipGap_dropWhile_isSpaceOrTab (cs : List Char) :
    skipGap (cs.dropWhile isSpaceOrTab) = skipGap cs := by
  induction cs with
  | nil => rfl
  | cons d cs ih =>
    by_cases hd : isSpaceOrTab d = true
    · have hblank : isGapBlank d = true := by
        simp only [isSpaceOrTab, Bool.or_eq_true, beq_iff_eq] at hd
        rcases hd with rfl | rfl <;> rfl
      rw [List.dropWhile_cons_of_pos hd, ih, skipGap_of_step (gapStep?_blank hblank)]
    · rw [List.dropWhile_cons_of_neg hd]

theorem isSolid_of_isIdentChar {d : Char} (hd : isIdentChar d = true) : isSolid d = true := by
  have hblank : isGapBlank d = false := by
    rw [← Bool.not_eq_true]
    intro hb
    simp only [isGapBlank, Bool.or_eq_true, beq_iff_eq] at hb
    rcases hb with rfl | rfl | rfl | rfl <;> exact absurd hd (by decide)
  have hslash : d ≠ '/' := by
    rintro rfl
    exact absurd hd (by decide)
  simp [isSolid, hblank, hslash]

theorem skipGap_cons {d : Char} (hd : isSolid d = true) : skipGap (d :: cs) = d :: cs := by
  have hbetween : skipBetween .spaced (d :: cs) = d :: cs := skipBetween_cons hd
  exact hbetween

theorem colonAhead_of_head? (h : cs.head? = some ':') : ColonAhead cs := by
  obtain ⟨cs, rfl⟩ := List.head?_eq_some_iff.mp h
  rw [ColonAhead, identRest, List.dropWhile_cons_of_neg (by decide), skipGap_cons (by decide)]
  rfl

/-- A macro does not pass the colon. -/
theorem ColonAhead.after_macro {ns : List Node} (hcs : ColonAhead cs)
    (h : (call .declarationMacro).reading .spaced cs = some (c, ns)) : ColonAhead (skipGap c) := by
  obtain ⟨c₁, hident, hc⟩ := declarationMacro_reading h
  rw [ColonAhead, hident.identRest_eq] at hcs
  cases c₁ with
  | nil =>
    rw [identRest, List.dropWhile_nil, skipGap_nil] at hcs
    cases hcs
  | cons d ds =>
    by_cases hd : isIdentChar d = true
    · -- the word goes on
      rw [List.dropWhile_cons_of_neg (by simp [isSpaceOrTab_of_isIdentChar hd])] at hc
      rcases hc with rfl | hc
      · rwa [skipGap_cons (isSolid_of_isIdentChar hd)]
      · obtain rfl := Option.some.inj hc
        exact absurd hd (by decide)
    · rw [identRest, List.dropWhile_cons_of_neg hd, ← skipGap_dropWhile_isSpaceOrTab] at hcs
      rcases hc with rfl | hc
      · exact colonAhead_of_head? hcs
      · obtain ⟨zs, hzs⟩ := List.head?_eq_some_iff.mp hc
        rw [hzs, skipGap_cons (by decide)] at hcs
        cases hcs

theorem ColonAhead.reading_macros (h : ColonAhead cs) (hcs : Begins .spaced cs) :
    (Expr.seq (many (call .declarationMacro)) (lit ";")).reading .spaced cs = none := by
  let step : List Char → Reading := fun cs =>
    (call .declarationMacro).reading .spaced (skipBetween .spaced cs)
  have hrest : ColonAhead (skipBetween .spaced (readRounds step cs []).1) :=
    readRounds_keeps (Q := fun c _ => ColonAhead (skipBetween .spaced c))
      (fun hc hread => hc.after_macro hread) (by rwa [hcs.solid])
  rw [reading_seq, reading_many_eq_rounds rfl hcs.solid, Reading.some_andThen]
  cases hsemicolon : (lit ";").reading .spaced (skipBetween .spaced (readRounds step cs []).1) with
  | none => rfl
  | some z =>
    have hhead := head?_of_firstChar? (f := ';') rfl (Option.isSome_iff_exists.mpr ⟨z, hsemicolon⟩)
    obtain ⟨zs, hzs⟩ := List.head?_eq_some_iff.mp hhead
    rw [hzs, ColonAhead, identRest, List.dropWhile_cons_of_neg (by decide),
      skipGap_cons (by decide)] at hrest
    cases hrest

theorem colonAhead_of_gains (hcs : Begins .spaced cs)
    (h : (call .keywordDeclarator).GainsAt .spaced cs) : ColonAhead cs := by
  have htail := keywordDeclarator_gains hcs h
  have hhead := head?_of_firstChar? (f := ':') rfl htail.withLine
  rw [List.head?_append_of_ne_nil _ htail.ne, afterIdent] at hhead
  by_cases hstart : startsIdent cs = true
  · rwa [if_pos hstart] at hhead
  · rw [if_neg hstart] at hhead
    have hsolid : skipGap cs = cs := hcs.solid
    rw [hsolid] at hhead
    exact colonAhead_of_head? hhead

theorem Rule.methodDeclaration_steady
    (hknown : Known .spaced len Rule.methodDeclaration.body.firstCalls) (hcs : Begins .spaced cs)
    (hlen : cs.length ≤ len) :
    Rule.methodDeclaration.body.Steady .spaced Rule.methodDeclaration.exposure cs := by
  let selector : Expr :=
    .seq (.seq (call .methodKind) (opt (call .methodType))) (call .methodSelector)
  let macros : Expr := .seq (many (call .declarationMacro)) (lit ";")
  have hbody : ∀ zs, Rule.methodDeclaration.body.reading .spaced zs =
      (Expr.seq selector macros).reading .spaced zs := fun zs => reading_seq_assoc
  have hselector : selector.Steady .spaced _ cs :=
    steady_of_expose rfl (hknown.mono (by decide)) hcs hlen
  have hmacros : (Expr.seq selector macros).Steady .spaced {} cs := by
    refine (hselector.seq_of_expose rfl rfl (by decide) (fun e he => ?_) hknown hlen).mono
      (by decide)
    obtain rfl := List.mem_singleton.mp he
    intro cs c ns hcs hgain hread
    rw [(colonAhead_of_gains hcs hgain).reading_macros hcs] at hread
    cases hread
  rw [Steady, hbody, hbody]
  exact hmacros

end HeaderBridge.Grammar
