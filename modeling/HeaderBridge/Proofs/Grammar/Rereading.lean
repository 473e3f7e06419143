import HeaderBridge.Proofs.Grammar.Arguments

/-! # Reading again

What is read as a specifier, a pointer or a type argument is read again in the
same way, with the same nodes, before any text that goes on with nothing more.
-/

namespace HeaderBridge.Grammar

open HeaderBridge.Grammar.Expr

variable {cs zs r c : List Char} {ns : List Node}

/-! ### Where a reading stops -/

/-- A reading of what ends at the first place stops at the second: there, or behind the gap that
follows. -/
def Reaches (r c : List Char) : Prop := c = r ∨ c = skipGap r

theorem Reaches.skipGap_eq (h : Reaches r c) : skipGap c = skipGap r := by
  rcases h with rfl | rfl
  · rfl
  · exact skipGap_skipGap r

theorem Reaches.exists_gap (h : Reaches r c) : ∃ g, r = g ++ c ∧ skipGap g = [] := by
  rcases h with rfl | rfl
  · exact ⟨[], rfl, skipGap_nil⟩
  · by_cases hne : skipGap r = []
    · exact ⟨r, by rw [hne, List.append_nil], hne⟩
    · obtain ⟨g, hg, hgap⟩ := exists_gap_append rfl hne
      exact ⟨g, hg, hgap.skipGap_eq_nil⟩

theorem trail_reading
    (h : (Expr.many (.call .typePrefix)).reading .spaced (skipGap cs) = some (c, ns)) :
    ∃ t r, cs = t ++ r ∧ Reaches r c ∧ Trail t (ns.map Node.skeleton) ∧ Apart t r ∧ NoWord r := by
  rcases words_reading h with ⟨rfl, rfl, hword⟩ | ⟨w, hw, hwords, hends, hword⟩
  · exact ⟨[], cs, rfl, .inr rfl, .none, by simp [Apart], hword⟩
  · obtain ⟨g, hg, hgap⟩ := exists_gap_append hw (hwords.firm.append c).ne_nil
    exact ⟨g ++ w, c, by simpa using hg, .inl rfl, .words hgap hwords, fun _ _ _ => hends, hword⟩

theorem pointerLevel_reading (h : (Expr.call .pointerLevel).reading .spaced cs = some (c, ns)) :
    ∃ t ts r, cs = '*' :: (t ++ r) ∧ Reaches r c ∧ Trail t ts ∧
      ns.map Node.skeleton = [.branch .pointerLevel ts] ∧ Apart t r ∧ NoWord r := by
  obtain ⟨x, ms, -, hbody, rfl⟩ := Rule.reading_branch_eq_some rfl h
  have hlevel : Rule.pointerLevel.body = .seq (.literal ['*']) (.many (.call .pointerQualifier)) :=
    rfl
  rw [hlevel, reading_seq, Reading.andThen_eq_some] at hbody
  obtain ⟨cs₁, ns₁, ns₂, h₁, h₂, rfl⟩ := hbody
  rw [reading_literal, Option.ite_none_right_eq_some, Option.some.injEq, Prod.mk.injEq] at h₁
  obtain ⟨⟨ds, rfl⟩, rfl, rfl⟩ := h₁
  have hmany : (Expr.many (.call .pointerQualifier)).reading .spaced =
      (Expr.many (.call .typePrefix)).reading .spaced := by
    funext cs
    simp only [reading_many, reading_call, Rule.pointerQualifier_reading]
  rw [hmany] at h₂
  have h₂ : (Expr.many (.call .typePrefix)).reading .spaced (skipGap ds) = some (c, ns₂) := h₂
  obtain ⟨t, r, hds, hc, htrail, hapart, hword⟩ := trail_reading h₂
  refine ⟨t, _, r, by rw [hds]; rfl, hc, htrail, ?_, hapart, hword⟩
  rw [List.map_singleton, Node.skeleton_branch rfl, List.nil_append]

/-- Stars that are read up to a place where no more follow. -/
structure StarsRead (x r c : List Char) (ns : List Node) : Prop where
  reaches : Reaches r c
  stars : Stars x ns
  apart : Apart x r
  word : NoWord r
  star : NoStar r

def StarRounds (cs c : List Char) (ns : List Node) : Prop :=
  Reaches cs c ∧ ns = [] ∧ NoStar cs ∨ ∃ x r, skipGap cs = x ++ r ∧ StarsRead x r c ns

theorem StarRounds.cons {cs₁ : List Char} {ms : List Node}
    (h : (Expr.call .pointerLevel).reading .spaced cs = some (cs₁, ns))
    (hms : StarRounds cs₁ c ms) :
    ∃ x r, cs = x ++ r ∧ StarsRead x r c (ns.map Node.skeleton ++ ms) := by
  obtain ⟨t, ts, r₁, rfl, hreach, htrail, hts, hapart, hword⟩ := pointerLevel_reading h
  rw [hts]
  rcases hms with ⟨hc, rfl, hstar⟩ | ⟨x, r, hx, hread⟩
  · refine ⟨'*' :: t, r₁, rfl, ?_, .one htrail, hapart.cons rfl, hword, ?_⟩
    · rcases hc with rfl | rfl
      · exact hreach
      · exact .inr hreach.skipGap_eq
    · rwa [NoStar, hreach.skipGap_eq] at hstar
  · have hne := hread.stars.firm.ne_nil
    rw [hreach.skipGap_eq] at hx
    obtain ⟨g, rfl, hgap⟩ := exists_gap_append hx (hread.stars.firm.append r).ne_nil
    refine ⟨'*' :: (t ++ (g ++ x)), r, by simp, hread.reaches, .cons htrail hgap hread.stars, ?_,
      hread.word, hread.star⟩
    exact (hread.apart.append hne).append (x := '*' :: t) (by simp [hne])

theorem noStar_of_reading (h : (Expr.call .pointerLevel).reading .spaced (skipGap cs) = none) :
    NoStar cs := by
  intro hstar
  cases hcs : skipGap cs with
  | nil => simp [hcs] at hstar
  | cons c ds =>
    obtain rfl : c = '*' := by simpa [hcs] using hstar
    rw [← shape_eq_none, hcs, shape_pointerLevel] at h
    simp at h

theorem starRounds_of_rounds {ms : List Node} (h : Expr.Rounds (.call .pointerLevel) cs c ms) :
    StarRounds cs c (ms.map Node.skeleton) := by
  induction h with
  | done h => exact .inl ⟨.inl rfl, rfl, noStar_of_reading h⟩
  | more h _ ih =>
    rw [List.map_append]
    exact .inr (ih.cons h)

theorem pointer_reading (h : (Expr.call .pointer).reading .spaced cs = some (c, ns)) :
    ∃ x ms r, cs = x ++ r ∧ StarsRead x r c ms ∧ ns.map Node.skeleton = [.branch .pointer ms] := by
  obtain ⟨x, ms, -, hbody, rfl⟩ := Rule.reading_branch_eq_some rfl h
  have hpointer : Rule.pointer.body = .seq (.call .pointerLevel) (.many (.call .pointerLevel)) :=
    rfl
  rw [hpointer, reading_seq, Reading.andThen_eq_some] at hbody
  obtain ⟨cs₁, ns₁, ns₂, h₁, h₂, rfl⟩ := hbody
  have hrounds : StarRounds cs₁ c (ns₂.map Node.skeleton) := by
    rcases Expr.reading_many_cases rfl h₂ with ⟨hnext, rfl, rfl⟩ | ⟨c₁, ms₁, ms₂, hnext, hrest, rfl⟩
    · exact .inl ⟨.inr rfl, rfl, noStar_of_reading hnext⟩
    · rw [List.map_append]
      exact .inr ((starRounds_of_rounds hrest).cons hnext)
  obtain ⟨x, r, hcs, hread⟩ := hrounds.cons h₁
  refine ⟨x, _, r, hcs, hread, ?_⟩
  rw [List.map_singleton, Node.skeleton_branch rfl, List.map_append]

/-! ### Specifiers -/

theorem NoMore.refl (r : List Char) : NoMore r r := ⟨id, id, id, id⟩

/-- The text of a specifier that is read before the first text: it is read again before any text
that goes on with nothing more. -/
structure SpecifierText (r s : List Char) (ns : List Node) : Prop where
  start : startsIdent s = true
  spells : (Expr.call .typeSpecifier).Spells (fun zs => NoMore r zs ∧ NoAngle zs) s ns
  run : ∀ zs, NoMore r zs → identRun (s ++ zs) = identRun s
  busy : IsIdent s ∨ Busy s
  neat : Neat s

/-- The same of a specifier with the words around it. -/
structure BaseText (r x : List Char) (ns : List Node) : Prop where
  start : startsIdent x = true
  spells : base.Spells (fun zs => NoMore r zs ∧ NoAngle zs) x ns
  busy : IsIdent x ∨ Busy x
  neat : Neat x

theorem scalarTail_neat {w x : List Char} (hw : Neat w) (h : ScalarTail x) : Neat (w ++ x) := by
  induction h generalizing w with
  | nil => simpa using hw
  | @cons b v x hb hne hv hx ih =>
    obtain ⟨hchars, hstart⟩ := scalarStarts_spelling (w := v) (by simp [scalarStarts, hv])
    have hneat := neat_of_isIdentChar hchars (firm_of_startsIdent hstart).ne_nil
    have hall := ih ((hneat.append (isGap_of_isSpaceOrTab hb).spot).append hw.spot)
    simpa using hall

theorem scalar_text {w x : List Char} (hw : String.ofList w ∈ scalarStarts) (hx : ScalarTail x)
    (hends : Ends r) (hround : scalarRound? r = none) :
    SpecifierText r (w ++ x) [.branch .typeSpecifier [.token .primitiveType (w ++ x)]] := by
  obtain ⟨hchars, hstart⟩ := scalarStarts_spelling hw
  have hneat := neat_of_isIdentChar hchars (firm_of_startsIdent hstart).ne_nil
  refine ⟨startsIdent_append hstart x, (scalar_spells hw hx).mono ?_, ?_, ?_,
    scalarTail_neat hneat hx⟩
  · exact fun zs hz => ⟨hz.1.ends hends, hz.1.scalar hround⟩
  · intro zs hz
    have hrun := identRun_append hchars (hx.ends_append (Ends.nil))
    rw [List.append_nil] at hrun
    rw [List.append_assoc, identRun_append hchars (hx.ends_append (hz.ends hends)), hrun]
  · cases hx with
    | nil => exact .inl (by simpa using ⟨hstart, hchars⟩)
    | @cons b v x hb hne hv hx =>
      have hv' := (scalarStarts_spelling (w := v) (by simp [scalarStarts, hv])).2
      exact .inr
        (busy_of_startsIdent hchars (isGap_of_isSpaceOrTab hb) hne (startsIdent_append hv' x))

theorem tagged_text {k g i : List Char} (hk : String.ofList k ∈ Rule.tagKeyword.spellings)
    (hg : IsGap g) (hne : g ≠ []) (hi : IsIdent i) (hends : Ends r) :
    SpecifierText r (k ++ (g ++ i)) [.branch .typeSpecifier
      [.branch .taggedTypeSpecifier [.token .tagKeyword k, .token .identifier i]]] := by
  obtain ⟨hchars, hstart, -⟩ := tagKeyword_spelling hk
  have hneat := neat_of_isIdentChar hchars (firm_of_startsIdent hstart).ne_nil
  refine ⟨startsIdent_append hstart _, (tagged_spells hk hg hne hi).mono ?_, ?_,
    .inr (busy_of_startsIdent hchars hg hne hi.start), (hi.neat.append hg.spot).append hneat.spot⟩
  · exact fun zs hz => hz.1.ends hends
  · intro zs _
    rw [show k ++ (g ++ i) ++ zs = k ++ (g ++ (i ++ zs)) by simp,
      identRun_append hchars (hg.ends hne _), identRun_append hchars (hg.ends hne _)]

theorem generic_text {i g a : List Char} (hi : IsIdent i) (hscalar : String.ofList i ∉ scalarStarts)
    (hg : IsGap g) (ha : angles.Spells (fun _ => True) ('<' :: a) ns) (hneat : Neat ('<' :: a)) :
    SpecifierText r (i ++ (g ++ '<' :: a)) [.branch .typeSpecifier
      [.branch .genericTypeSpecifier (.token .identifier i :: ns)]] := by
  have hangle : Firm ('<' :: a) := ⟨'<', rfl, rfl, by decide⟩
  refine ⟨startsIdent_append hi.start _, (generic_spells hi hscalar hg ha).mono fun _ _ => trivial,
    ?_, .inr (busy_of_next hi.chars hg hangle (.inr rfl) (by decide) (by decide)),
    (hneat.append hg.spot).append hi.neat.spot⟩
  intro zs _
  rw [show i ++ (g ++ '<' :: a) ++ zs = i ++ (g ++ '<' :: (a ++ zs)) by simp,
    identRun_append hi.chars (hg.ends_cons rfl _), identRun_append hi.chars (hg.ends_cons rfl _)]

theorem name_text {i : List Char} (hi : IsIdent i) (hscalar : String.ofList i ∉ scalarStarts)
    (hends : Ends r)
    (htag : String.ofList i ∈ Rule.tagKeyword.spellings → startsIdent (skipGap r) = false) :
    SpecifierText r i [.branch .typeSpecifier [.token .identifier i]] := by
  refine ⟨hi.start, (name_spells hi hscalar).mono ?_, ?_, .inl hi, hi.neat⟩
  · exact fun zs hz => ⟨hz.1.ends hends, hz.2, fun h => hz.1.ident (htag h)⟩
  · intro zs hz
    have hrun := identRun_append hi.chars Ends.nil
    rw [List.append_nil] at hrun
    rw [identRun_append hi.chars (hz.ends hends), hrun]

theorem Words.identRun_append {w : List Char} (h : Words w ns) (hz : Ends zs) :
    ∃ r, prefixRule? (.ofList (identRun (w ++ zs))) = some r := by
  cases h with
  | @one w r hw => exact ⟨r, by rwa [Grammar.identRun_append (prefixRule?_spelling hw).1 hz]⟩
  | @cons w g y r ns hw hg hne hy =>
    refine ⟨r, ?_⟩
    rwa [List.append_assoc, Grammar.identRun_append (prefixRule?_spelling hw).1]
    rw [List.append_assoc]
    exact hg.ends hne _

theorem Words.noMore {g w g' w' : List Char} {ns' : List Node} (hw : Words w ns) (hg : IsGap g)
    (hw' : Words w' ns') (hg' : IsGap g') (hr : Ends r) (hz : Ends zs)
    (hends : Ends (g ++ (w ++ r)) → Ends (g' ++ (w' ++ zs))) :
    NoMore (g ++ (w ++ r)) (g' ++ (w' ++ zs)) := by
  have hskip := hg.skipGap_append_firm hw.firm r
  have hskip' := hg'.skipGap_append_firm hw'.firm zs
  refine ⟨hends, fun _ => ?_, fun hword => ?_, fun hident => ?_⟩
  · obtain ⟨p, hp⟩ := hw'.identRun_append hz
    apply scalarRound?_eq_none
    rw [hskip']
    exact (prefixRule?_spelling hp).2.2
  · obtain ⟨p, hp⟩ := hw.identRun_append hr
    rw [NoWord, hskip, hp] at hword
    simp at hword
  · rw [hskip, startsIdent_append hw.startsIdent] at hident
    simp at hident

/-! ### Specifiers with words around them -/

theorem BaseText.spelling {x : List Char} (h : BaseText r x ns) : BaseSpelling x ns :=
  ⟨h.start, h.spells.mono fun _ hz => ⟨hz.noMore (by decide) r, hz.noAngle (by decide)⟩, h.busy,
    h.neat⟩

/-- The parts of a specifier with words around it, and where its reading stops. -/
structure BaseParts (l s t r c : List Char) (lns sns tns : List Node) : Prop where
  lead : Lead l lns
  specifier : SpecifierText (t ++ r) s sns
  trail : Trail t tns
  reaches : Reaches r c
  apart : Apart t r
  word : NoWord r
  name : prefixRule? (.ofList (identRun s)) = none

theorem Words.busy {w g y : List Char} (hw : Words w ns) (hg : IsGap g) (hne : g ≠ [])
    (hy : Grammar.startsIdent y = true) : Busy (w ++ (g ++ y)) := by
  cases hw with
  | one hw => exact busy_of_startsIdent (prefixRule?_spelling hw).1 hg hne hy
  | cons hw hg' hne' hw' =>
    exact (busy_of_startsIdent (prefixRule?_spelling hw).1 hg' hne' hw'.startsIdent).append _

theorem Trail.noAngle {t : List Char} (h : Trail t ns) (hz : NoAngle zs) : NoAngle (t ++ zs) := by
  cases h with
  | none => exact hz
  | @words g w ns hg hw =>
    have hstart := startsIdent_append hw.startsIdent zs
    rw [NoAngle, List.append_assoc, hg.skipGap_append_firm hw.firm]
    intro hangle
    rw [Grammar.startsIdent, hangle] at hstart
    simp [isIdentStart] at hstart

theorem BaseParts.noMore {l s t : List Char} {lns sns tns : List Node}
    (h : BaseParts l s t r c lns sns tns) (hz : NoMore r zs) : NoMore (t ++ r) (t ++ zs) := by
  cases h.trail with
  | none => exact hz
  | @words g w ns hg hw =>
    obtain ⟨c, hc, hident⟩ := hw.getLast
    have hends := h.apart.of_append c hc hident
    rw [List.append_assoc, List.append_assoc]
    refine hw.noMore hg hw hg hends (hz.ends hends) fun hgw => ?_
    rw [← List.append_assoc] at hgw ⊢
    exact hgw.append (by simp [hw.firm.ne_nil])

theorem BaseParts.busy {l s t : List Char} {lns sns tns : List Node}
    (h : BaseParts l s t r c lns sns tns) : IsIdent (l ++ (s ++ t)) ∨ Busy (l ++ (s ++ t)) := by
  have hstart := startsIdent_append h.specifier.start t
  cases h.lead with
  | words hw hg hne =>
    rw [List.append_assoc]
    exact .inr (hw.busy hg hne hstart)
  | none =>
    rw [List.nil_append]
    rcases h.specifier.busy with hident | hbusy
    · cases h.trail with
      | none => exact .inl (by simpa using hident)
      | @words g w ns hg hw =>
        refine .inr (busy_of_startsIdent hident.chars hg ?_ hw.startsIdent)
        -- without a gap, the words would go on the specifier's last word
        rintro rfl
        have hrun := h.specifier.run _ (.refl _)
        have hself := Grammar.identRun_append hident.chars Ends.nil
        rw [List.append_nil] at hself
        rw [hself, identRun_append_left hident.chars] at hrun
        exact (isIdent_identRun (startsIdent_append hw.startsIdent r)).firm.ne_nil
          (by simpa using hrun)
    · exact .inr (hbusy.append t)

theorem BaseParts.neat {l s t : List Char} {lns sns tns : List Node}
    (h : BaseParts l s t r c lns sns tns) : Neat (l ++ (s ++ t)) := by
  have hst : Neat (s ++ t) := by
    cases h.trail with
    | none => simpa using h.specifier.neat
    | words hg hw => exact (hw.neat.append hg.spot).append h.specifier.neat.spot
  cases h.lead with
  | none => exact hst
  | words hw hg hne =>
    rw [List.append_assoc]
    exact (hst.append hg.spot).append hw.neat.spot

theorem BaseParts.text {l s t : List Char} {lns sns tns : List Node}
    (h : BaseParts l s t r c lns sns tns) : BaseText r (l ++ (s ++ t)) (lns ++ sns ++ tns) := by
  have hfirm := firm_of_startsIdent h.specifier.start
  refine ⟨?_, ?_, h.busy, h.neat⟩
  · cases h.lead with
    | none => exact startsIdent_append h.specifier.start t
    | words hw => exact startsIdent_append (startsIdent_append hw.startsIdent _) _
  · refine base_spells h.lead h.specifier.spells hfirm h.trail ?_ ?_ ?_
    · exact fun zs hz => ⟨h.noMore hz.1, h.trail.noAngle hz.2⟩
    · exact fun zs hz => by rw [h.specifier.run _ (h.noMore hz.1), h.name]
    · refine fun zs hz => ⟨fun c hc hident => ?_, hz.1.word h.word⟩
      exact hz.1.ends (h.apart c hc hident)

/-! ### Type arguments -/

/-- Every specifier in a text of at most the given length is read again in the same way. -/
def SpecifiersReread (n : Nat) : Prop :=
  ∀ cs c ns, cs.length ≤ n → (Expr.call .typeSpecifier).reading .spaced cs = some (c, ns) →
    ∃ s, cs = s ++ c ∧ SpecifierText c s (ns.map Node.skeleton)

theorem base_reading (hspec : SpecifiersReread cs.length) (hcs : Solid cs)
    (h : base.reading .spaced cs = some (c, ns)) :
    ∃ l s t r ls m ts, cs = l ++ (s ++ (t ++ r)) ∧ ns = ls ++ [m] ++ ts ∧
      m.rule = .typeSpecifier ∧ m.text = .ofList s ∧
      BaseParts l s t r c (ls.map Node.skeleton) [m.skeleton] (ts.map Node.skeleton) := by
  rw [base, reading_seq, Reading.andThen_eq_some] at h
  obtain ⟨cs₂, ns₁₂, ns₃, h₁₂, h₃, rfl⟩ := h
  rw [reading_seq, Reading.andThen_eq_some] at h₁₂
  obtain ⟨cs₁, ns₁, ns₂, h₁, h₂, rfl⟩ := h₁₂
  have hle : (skipGap cs₁).length ≤ cs.length :=
    Nat.le_trans (skipGap_suffix cs₁).length_le (Expr.reading_suffix _ h₁).length_le
  obtain ⟨s, hs, hspecifier⟩ := hspec _ _ _ hle h₂
  obtain ⟨x, ms, hx, -, rfl⟩ := Rule.reading_branch_eq_some rfl h₂
  obtain rfl : s = x := List.append_cancel_right (hs.symm.trans hx)
  obtain ⟨t, r, rfl, hreach, htrail, hapart, hword⟩ := trail_reading h₃
  have hfirm := firm_of_startsIdent hspecifier.start
  have hrun := hspecifier.run _ (.refl _)
  have hlead : ∃ l, cs = l ++ (s ++ (t ++ r)) ∧ Lead l (ns₁.map Node.skeleton) ∧
      prefixRule? (.ofList (identRun s)) = none := by
    rcases words_reading h₁ with ⟨rfl, rfl, hpre⟩ | ⟨w, rfl, hwords, hends, hno⟩
    · rw [hcs.skipGap] at hs
      rw [hs, hrun] at hpre
      exact ⟨[], hs, .none, hpre⟩
    · obtain ⟨g, rfl, hgap⟩ := exists_gap_append hs (hfirm.append _).ne_nil
      refine ⟨w ++ g, by simp, .words hwords hgap ?_, ?_⟩
      · rintro rfl
        obtain ⟨d, s', rfl⟩ := List.exists_cons_of_ne_nil hfirm.ne_nil
        have hd :=
          isIdentChar_of_isIdentStart (c := d) (by simpa [startsIdent] using hspecifier.start)
        rw [hends d (by simp)] at hd
        simp at hd
      · rw [← hrun, ← hs]
        exact hno
  obtain ⟨l, hl, hlead, hname⟩ := hlead
  exact ⟨l, s, t, r, _, _, _, hl, rfl, rfl, rfl,
    ⟨hlead, hspecifier, htrail, hreach, hapart, hword, hname⟩⟩

theorem argument_reading (hspec : SpecifiersReread cs.length) (hcs : Solid cs)
    (h : (Expr.call .typeArgument).reading .spaced cs = some (c, ns)) :
    ∃ x r, cs = x ++ r ∧ Reaches r c ∧ ArgumentText x (ns.map Node.skeleton) := by
  obtain ⟨-, ms, -, hread, rfl⟩ := Rule.reading_branch_eq_some rfl h
  rw [Rule.typeArgument_body, reading_seq, Reading.andThen_eq_some] at hread
  obtain ⟨cs₁, ns₁, ns₂, h₁, h₂, rfl⟩ := hread
  obtain ⟨l, s, t, r₁, ls, m, ts, rfl, rfl, -, -, hparts⟩ := base_reading hspec hcs h₁
  have hbase := hparts.text.spelling
  rw [← List.map_singleton, ← List.map_append, ← List.map_append] at hbase
  rw [List.map_singleton, Node.skeleton_branch rfl, List.map_append]
  rw [skipBetween, reading_opt] at h₂
  cases hpointer : (Expr.call .pointer).reading .spaced (skipGap cs₁) with
  | none =>
    rw [hpointer] at h₂
    obtain ⟨rfl, rfl⟩ := Prod.mk.inj (Option.some.inj h₂)
    refine ⟨l ++ (s ++ t), r₁, by simp, .inr hparts.reaches.skipGap_eq, ?_⟩
    simpa using argument_of_base hbase
  | some y =>
    rw [hpointer] at h₂
    obtain rfl := Option.some.inj h₂
    obtain ⟨y, ms, r, hy, hstars, hms⟩ := pointer_reading hpointer
    rw [hparts.reaches.skipGap_eq] at hy
    obtain ⟨g, rfl, hg⟩ := exists_gap_append hy (hstars.stars.firm.append r).ne_nil
    refine ⟨l ++ (s ++ t) ++ (g ++ y), r, by simp, hstars.reaches, ?_⟩
    rw [hms]
    exact argument_of_pointer hbase hg hstars.stars

theorem exists_between_angles {Q : List Char → List Char → List Node → Prop} {xs : List (List Char)}
    {x : List Char} (hfirm : ∀ r x ns, Q r x ns → Firm x)
    (hneat : ∀ r x ns, Q r x ns → Neat x) (hx : Separated Q r xs x ns) (hcs : skipGap cs = x ++ r)
    (hr : skipGap r = '>' :: c) : ∃ g h, cs = g ++ (x ++ (h ++ '>' :: c)) ∧ IsGap g ∧ IsGap h ∧
      Neat ('<' :: (g ++ (x ++ (h ++ ['>'])))) := by
  obtain ⟨h, rfl, hh⟩ := exists_gap_append hr (by simp)
  obtain ⟨g, rfl, hg⟩ := exists_gap_append hcs ((hx.firm hfirm).append _).ne_nil
  exact ⟨g, h, rfl, hg, hh, (hx.neat hneat).between_angles hg hh⟩

theorem protocols_reading
    (h : (enclosed '<' '>' (.call .protocolList)).reading .spaced cs = some (c, ns)) :
    ∃ a, cs = '<' :: (a ++ c) ∧ Neat ('<' :: a) ∧
      angles.Spells (fun _ => True) ('<' :: a) (ns.map Node.skeleton) := by
  obtain ⟨ds, rfl, hlist⟩ := shape_opened (reading_closed h)
  have hbody : Rule.protocolList.body = sepBy (.call .protocolName) := rfl
  rw [shape_branch rfl, hbody] at hlist
  obtain ⟨⟨cs', ms⟩, hlist, hy⟩ := Option.map_eq_some_iff.mp hlist
  obtain ⟨rfl, hns⟩ := Prod.mk.inj hy
  obtain ⟨xs, x, r, hx, hr, hsep⟩ := Separated.of_shape (Q := fun _ => ProtocolText)
    (P := fun _ => True) (fun _ => trivial) (fun _ _ _ hx => hx.ident.firm)
      (n := (skipGap ds).length)
    (fun ds ds' ns _ _ hname _ => by
      rw [shape_protocolName, Option.ite_none_right_eq_some, Option.some.injEq,
        Prod.mk.injEq] at hname
      obtain ⟨hstart, rfl, rfl⟩ := hname
      exact ⟨identRun ds, identRest ds, (identRun_append_identRest ds).symm, rfl,
        isIdent_identRun hstart, rfl⟩)
    (Nat.le_refl _) (solid_skipGap ds) hlist trivial
  obtain ⟨g, h, rfl, hg, hh, hneat⟩ := exists_between_angles (fun _ _ _ hx => hx.ident.firm)
    (fun _ _ _ hx => hx.ident.neat) hsep hx hr
  rw [← hns]
  exact ⟨_, by simp, hneat, angles_protocols hsep hg hh⟩

theorem generics_reading (hspec : SpecifiersReread cs.length)
    (hnone : (enclosed '<' '>' (.call .protocolList)).reading .spaced cs = none)
    (h : (Expr.call .genericsSpecifier).reading .spaced cs = some (c, ns)) :
    ∃ a, cs = '<' :: (a ++ c) ∧ Neat ('<' :: a) ∧
      angles.Spells (fun _ => True) ('<' :: a) (ns.map Node.skeleton) := by
  obtain ⟨-, ms, -, hread, rfl⟩ := Rule.reading_branch_eq_some rfl h
  rw [Rule.genericsSpecifier_body] at hread
  have hlist := reading_closed hread
  rw [shape_seq_assoc] at hlist
  obtain ⟨ds, rfl, hmore⟩ := shape_opened hlist
  have hle : (skipGap ds).length ≤ ('<' :: ds).length := by
    have := (skipGap_suffix ds).length_le
    rw [List.length_cons]
    omega
  obtain ⟨xs, x, r, hx, hr, hsep⟩ := Separated.of_shape (Q := fun _ => ArgumentText)
    (P := fun _ => True) (fun _ => trivial) (fun _ _ _ hx => hx.firm) (n := (skipGap ds).length)
    (fun ds ds' ns hn hsolid hargument _ => by
      obtain ⟨⟨c, ms⟩, hread, hy⟩ := Option.map_eq_some_iff.mp hargument
      obtain ⟨rfl, rfl⟩ := Prod.mk.inj hy
      obtain ⟨x, r, rfl, hreach, hx⟩ := argument_reading
        (fun cs c ns h => hspec cs c ns (by omega)) hsolid hread
      exact ⟨x, r, rfl, hreach.skipGap_eq.symm, hx⟩)
    (Nat.le_refl _) (solid_skipGap ds) hmore trivial
  obtain ⟨g, h, rfl, hg, hh, hneat⟩ := exists_between_angles (fun _ _ _ hx => hx.firm)
    (fun _ _ _ hx => hx.neat) hsep hx hr
  -- were all arguments single words, they would have been read as protocols
  have hbusy : ∃ y ∈ xs, ¬ IsIdent y := by
    by_contra hall
    obtain ⟨ms', hprotocols⟩ := hsep.map (R := fun _ => ProtocolText) fun y hy =>
      ⟨_, fun _ => ⟨by_contra fun hno => hall ⟨y, hy, hno⟩, rfl⟩⟩
    have hshape := protocols_spell hprotocols hg hh c trivial
    rw [← shape_eq_none] at hnone
    simp [hnone] at hshape
  refine ⟨_, by simp, hneat, ?_⟩
  rw [List.map_singleton, Node.skeleton_branch rfl]
  exact arguments_spell hsep hbusy hg hh

/-- What stands between angle brackets is read again in the same way before any text. -/
theorem angles_reading (hspec : SpecifiersReread cs.length)
    (h : angles.reading .spaced cs = some (c, ns)) : ∃ a, cs = '<' :: (a ++ c) ∧ Neat ('<' :: a) ∧
      angles.Spells (fun _ => True) ('<' :: a) (ns.map Node.skeleton) := by
  rw [angles, reading_choice] at h
  cases hprotocols : (enclosed '<' '>' (.call .protocolList)).reading .spaced cs with
  | some y =>
    rw [hprotocols] at h
    obtain rfl := Option.some.inj h
    exact protocols_reading hprotocols
  | none =>
    rw [hprotocols] at h
    exact generics_reading hspec hprotocols h

theorem tagged_reading (h : (Expr.call .taggedTypeSpecifier).reading .spaced cs = some (c, ns)) :
    ∃ k g i, cs = k ++ (g ++ (i ++ c)) ∧ String.ofList k ∈ Rule.tagKeyword.spellings ∧ IsGap g ∧
      g ≠ [] ∧ IsIdent i ∧ Ends c := by
  obtain ⟨-, ms, -, hread, rfl⟩ := Rule.reading_branch_eq_some rfl h
  have hbody : Rule.taggedTypeSpecifier.body = .seq (.call .tagKeyword) (.call .identifier) := rfl
  rw [hbody, reading_seq, Reading.andThen_eq_some, reading_call, Rule.keyword_reading rfl] at hread
  obtain ⟨cs₁, ns₁, ns₂, h₁, h₂, rfl⟩ := hread
  rw [Option.ite_none_right_eq_some, Option.some.injEq, Prod.mk.injEq] at h₁
  obtain ⟨hk, rfl, rfl⟩ := h₁
  rw [skipBetween, reading_call, Rule.identifier_reading, Option.ite_none_right_eq_some,
    Option.some.injEq, Prod.mk.injEq] at h₂
  obtain ⟨hstart, rfl, rfl⟩ := h₂
  have hident := isIdent_identRun hstart
  obtain ⟨g, hg, hgap⟩ :=
    exists_gap_append (identRun_append_identRest (skipGap (identRest cs))).symm
    (hident.firm.append _).ne_nil
  refine ⟨identRun cs, g, identRun (skipGap (identRest cs)), ?_, hk, hgap, ?_, hident,
    ends_identRest _⟩
  · rw [← hg, identRun_append_identRest]
  · rintro rfl
    -- the keyword ends where the identifier would go on
    have hends := ends_identRest cs
    rw [hg, List.nil_append] at hends
    obtain ⟨d, i, hd⟩ := List.exists_cons_of_ne_nil hident.firm.ne_nil
    have hchar := hident.chars d (by rw [hd]; simp)
    rw [hends d (by rw [hd]; rfl)] at hchar
    simp at hchar

theorem generic_reading (hspec : ∀ n, n < cs.length → SpecifiersReread n)
    (h : (Expr.call .genericTypeSpecifier).reading .spaced cs = some (c, ns)) :
    ∃ g a as, cs = identRun cs ++ (g ++ '<' :: (a ++ c)) ∧ IsIdent (identRun cs) ∧ IsGap g ∧
      Neat ('<' :: a) ∧ angles.Spells (fun _ => True) ('<' :: a) as := by
  obtain ⟨-, ms, -, hread, rfl⟩ := Rule.reading_branch_eq_some rfl h
  have hbody : Rule.genericTypeSpecifier.body = .seq (.call .identifier) angles := rfl
  rw [hbody, reading_seq, Reading.andThen_eq_some, reading_call, Rule.identifier_reading] at hread
  obtain ⟨cs₁, ns₁, ns₂, h₁, h₂, rfl⟩ := hread
  rw [Option.ite_none_right_eq_some, Option.some.injEq, Prod.mk.injEq] at h₁
  obtain ⟨hstart, rfl, rfl⟩ := h₁
  have hident := isIdent_identRun hstart
  have hlt : (skipGap (identRest cs)).length < cs.length :=
    Nat.lt_of_le_of_lt (skipGap_suffix _).length_le (identRest_length_lt hident.firm.ne_nil)
  obtain ⟨a, ha, hneat, hspells⟩ := angles_reading (hspec _ hlt) h₂
  obtain ⟨g, hg, hgap⟩ := exists_gap_append ha (by simp)
  refine ⟨g, a, _, ?_, hident, hgap, hneat, hspells⟩
  rw [← hg, identRun_append_identRest]

theorem specifier_reading (hspec : ∀ n, n < cs.length → SpecifiersReread n)
    (h : (Expr.call .typeSpecifier).reading .spaced cs = some (c, ns)) :
    ∃ s, cs = s ++ c ∧ SpecifierText c s (ns.map Node.skeleton) := by
  -- the nodes are those of the spelling, once the text is known
  have hnodes : ∀ s ms, cs = s ++ c →
      (Expr.call .typeSpecifier).shape (s ++ c) = some (skipGap c, ms) →
      ms = ns.map Node.skeleton := by
    intro s ms hcs hms
    rw [← hcs, shape_of_reading h] at hms
    exact (Prod.mk.inj (Option.some.inj hms)).2.symm
  obtain ⟨x, ms, -, hread, hns⟩ := Rule.reading_branch_eq_some rfl h
  rw [Rule.typeSpecifier_body, reading_choice, reading_choice, reading_choice] at hread
  by_cases hscalar : String.ofList (identRun cs) ∈ scalarStarts
  · rw [reading_call, Rule.primitiveType_reading, if_pos hscalar] at hread
    obtain rfl : scalarRest (identRest cs) = c := congrArg Prod.fst (Option.some.inj hread)
    obtain ⟨x, hx, htail, hends, hround⟩ := scalarRest_split (identRest cs) (ends_identRest cs)
    have hcs : cs = identRun cs ++ x ++ scalarRest (identRest cs) := by
      rw [List.append_assoc, ← hx, identRun_append_identRest]
    refine ⟨_, hcs, ?_⟩
    rw [← hnodes _ _ hcs (scalar_spells hscalar htail _ ⟨hends, hround⟩)]
    exact scalar_text hscalar htail hends hround
  · rw [reading_call, Rule.primitiveType_reading, if_neg hscalar, Option.none_or] at hread
    cases htagged : (Expr.call .taggedTypeSpecifier).reading .spaced cs with
    | some y =>
      rw [htagged] at hread
      obtain rfl := Option.some.inj hread
      obtain ⟨k, g, i, hcs, hk, hg, hne, hi, hends⟩ := tagged_reading htagged
      have hcs' : cs = k ++ (g ++ i) ++ c := by simpa using hcs
      refine ⟨_, hcs', ?_⟩
      rw [← hnodes _ _ hcs' (tagged_spells hk hg hne hi c hends)]
      exact tagged_text hk hg hne hi hends
    | none =>
      rw [htagged, Option.none_or] at hread
      cases hgeneric : (Expr.call .genericTypeSpecifier).reading .spaced cs with
      | some y =>
        rw [hgeneric] at hread
        obtain rfl := Option.some.inj hread
        obtain ⟨g, a, as, hcs, hident, hg, hneat, hangles⟩ := generic_reading hspec hgeneric
        have hcs' : cs = identRun cs ++ (g ++ '<' :: a) ++ c := by simpa using hcs
        refine ⟨_, hcs', ?_⟩
        rw [← hnodes _ _ hcs' (generic_spells hident hscalar hg hangles c trivial)]
        exact generic_text hident hscalar hg hangles hneat
      | none =>
        rw [hgeneric, Option.none_or, reading_call, Rule.identifier_reading,
          Option.ite_none_right_eq_some, Option.some.injEq, Prod.mk.injEq] at hread
        obtain ⟨hstart, rfl, rfl⟩ := hread
        refine ⟨_, (identRun_append_identRest cs).symm, ?_⟩
        rw [hns, List.map_singleton, Node.skeleton_branch rfl, List.map_singleton,
          Node.skeleton_token rfl]
        refine name_text (isIdent_identRun hstart) hscalar (ends_identRest cs) fun htag => ?_
        rw [← shape_eq_none, shape_tagged, shape_seq, shape_keyword rfl, if_pos htag,
          Reading.some_andThen, shape_identifier] at htagged
        by_contra hident
        simp [hident] at htagged

theorem specifiersReread (n : Nat) : SpecifiersReread n := by
  induction n using Nat.strongRecOn with
  | ind n ih =>
    intro cs c ns hn h
    exact specifier_reading (fun k hk => ih k (by omega)) h

end HeaderBridge.Grammar
