import HeaderBridge.Proofs.Grammar.Arguments

/-! # Declarators

Brackets of arrays and blocks behind a type, and lists of block parameters: the
spellings that they read back. The length of an array may begin with a block
comment that is never closed, so such a spelling is one only before texts that do
not close it.
-/

namespace HeaderBridge.Grammar

open HeaderBridge.Grammar.Expr

variable {cs zs r x y g i : List Char} {ns : List Node}

/-! ### Comments that stay open -/

theorem afterBlock_eq_none : afterBlock cs = none ↔ ¬ ['*', '/'] <:+: cs := by
  fun_induction afterBlock cs with
  | case1 cs => simpa using ⟨[], cs, rfl⟩
  | case2 c cs hne ih =>
    rw [ih, not_iff_not, List.infix_cons_iff, or_iff_right]
    rintro ⟨t, ht⟩
    obtain ⟨rfl, rfl⟩ := List.cons.inj ht
    exact hne t rfl rfl
  | case3 => simp

/-- A block comment that is not closed in the first text is not closed in the second. -/
def StaysOpen (r zs : List Char) : Prop :=
  ∀ u, afterBlock (u ++ r) = none → afterBlock (u ++ zs) = none

theorem StaysOpen.refl (r : List Char) : StaysOpen r r := fun _ h => h

theorem StaysOpen.append (h : StaysOpen r zs) (x : List Char) : StaysOpen (x ++ r) (x ++ zs) := by
  intro u hu
  rw [← List.append_assoc] at hu ⊢
  exact h _ hu

theorem StaysOpen.cons (h : StaysOpen r zs) (c : Char) : StaysOpen (c :: r) (c :: zs) :=
  h.append [c]

theorem staysOpen_nil (r : List Char) : StaysOpen r [] := by
  intro u hu
  rw [afterBlock_eq_none] at hu ⊢
  rw [List.append_nil]
  exact fun h => hu (h.trans (List.infix_append' [] u r))

theorem solid_append {l : List Char} {c : Char} (h : Solid (l ++ c :: r)) (hz : StaysOpen r zs)
    (hs : c ≠ '/') (hstar : c ≠ '*') : Solid (l ++ c :: zs) := by
  cases l with
  | nil =>
    rw [List.nil_append, Solid, gapStep?_cons_of_ne hs] at h ⊢
    simpa using h
  | cons d l =>
    by_cases hd : d = '/'
    · subst hd
      cases l with
      | nil =>
        rw [Solid, List.cons_append, List.nil_append, gapStep?] <;> simp_all [isGapBlank]
      | cons e l =>
        by_cases he : e = '*'
        · subst he
          have hopen : afterBlock (l ++ c :: r) = none := h
          have hopen' := hz (l ++ [c]) (by simpa using hopen)
          exact show afterBlock (l ++ c :: zs) = none by simpa using hopen'
        · by_cases hl : e = '/'
          · subst hl
            simp [Solid, gapStep?] at h
          · rw [Solid, List.cons_append, List.cons_append, gapStep?] <;> simp_all [isGapBlank]
    · rw [List.cons_append, Solid, gapStep?_cons_of_ne hd] at h ⊢
      simpa using h

/-! ### Arrays -/

def Node.optional (r : Rule) (w : List Char) : List Node := if w.isEmpty then [] else [.token r w]

theorem Node.optional_of_ne_nil {r : Rule} {w : List Char} (h : w ≠ []) :
    Node.optional r w = [.token r w] := by
  simp [optional, h]

def Node.suffix (l : List Char) : Node := .branch .declaratorSuffix (Node.optional .arrayLength l)

inductive SuffixText (r : List Char) : List Char → List Char → Prop where
  | intro {g l : List Char} : IsGap g → (∀ c ∈ l, c ≠ ']') → Solid (l ++ ']' :: r) →
      SuffixText r ('[' :: (g ++ (l ++ [']']))) l

/-- Pairs of square brackets with gaps between them, before a text. -/
inductive Suffixes (r : List Char) : List Char → List Node → Prop where
  | one {x l : List Char} : SuffixText r x l → Suffixes r x [.suffix l]
  | cons {x g y l : List Char} {ns : List Node} : SuffixText (g ++ (y ++ r)) x l → IsGap g →
      Suffixes r y ns → Suffixes r (x ++ (g ++ y)) (.suffix l :: ns)

theorem SuffixText.exists_cons {l : List Char} (h : SuffixText r x l) : ∃ y, x = '[' :: y := by
  cases h
  exact ⟨_, rfl⟩

theorem Suffixes.exists_cons (h : Suffixes r x ns) : ∃ y, x = '[' :: y := by
  cases h with
  | one hx => exact hx.exists_cons
  | cons hx =>
    obtain ⟨y, rfl⟩ := hx.exists_cons
    exact ⟨_, rfl⟩

theorem Suffixes.firm (h : Suffixes r x ns) : Firm x := by
  obtain ⟨y, rfl⟩ := h.exists_cons
  exact ⟨'[', rfl, rfl, by decide⟩

namespace Expr

theorem shape_opt_arrayLength (h : Solid cs) : (Expr.opt (.call .arrayLength)).shape cs =
    some (cs.dropWhile (· != ']'), Node.optional .arrayLength (cs.takeWhile (· != ']'))) := by
  have hrest : skipGap (cs.dropWhile (· != ']')) = cs.dropWhile (· != ']') := by
    have hhead := List.head?_dropWhile_not (· != ']') cs
    cases hcs : cs.dropWhile (· != ']') with
    | nil => exact skipGap_nil
    | cons c t =>
      rw [hcs] at hhead
      obtain rfl : c = ']' := by simpa using hhead
      exact (solid_cons rfl (by decide)).skipGap
  rw [shape_opt h, shape, reading_call, Rule.arrayLength_reading]
  cases cs with
  | nil => rfl
  | cons c t =>
    by_cases hc : c = ']'
    · subst hc
      simp [Node.optional]
    · have hlength : (c :: t).takeWhile (· != ']') ≠ [] := by simp [hc]
      rw [if_pos (by simp [hc]), Option.map_some, hrest, Node.optional_of_ne_nil hlength]
      rfl

theorem suffix_spells {l : List Char} (h : SuffixText r x l) :
    (Expr.call .declaratorSuffix).Spells (StaysOpen r) x [.suffix l] := by
  intro zs hz
  cases h with
  | @intro g l hg hl hsolid =>
    have hbody : Rule.declaratorSuffix.body = enclosed '[' ']' (.opt (.call .arrayLength)) := rfl
    have happ : '[' :: (g ++ (l ++ [']'])) ++ zs = '[' :: (g ++ (l ++ ']' :: zs)) := by simp
    have hne : ∀ c ∈ l, (c != ']') = true := by simpa using hl
    have hsolid' := solid_append hsolid hz (by decide) (by decide)
    rw [happ, shape_branch rfl, hbody, shape_enclosed, hg, hsolid'.skipGap,
      shape_opt_arrayLength hsolid', List.dropWhile_append_of_pos hne,
      List.takeWhile_append_of_pos hne]
    simp [Reading.some_andThen, shape_singleton, Node.suffix]

end Expr

theorem Suffixes.rounds (h : Suffixes r x ns) (hz : StaysOpen r zs)
    (hsquare : (skipGap zs).head? ≠ some '[') :
    (Expr.call .declaratorSuffix).rounds (x ++ zs) = (skipGap zs, ns) := by
  induction h with
  | one hx =>
    rw [rounds_of_some rfl (suffix_spells hx zs hz),
      rounds_of_none (shape_call_none rfl rfl hsquare)]
    rfl
  | @cons x g y l ns hx hg hy ih =>
    have hfirst := suffix_spells hx _ ((hz.append y).append g)
    rw [hg.skipGap_append_firm hy.firm] at hfirst
    rw [show x ++ (g ++ y) ++ zs = x ++ (g ++ (y ++ zs)) by simp, rounds_of_some rfl hfirst, ih]
    rfl

/-! ### Blocks -/

/-- What stands behind the caret of a block: a nullability word and a name, each of which may be
missing. -/
inductive CaretText : List Char → List Char → List Char → Prop where
  | none {g : List Char} : IsGap g → CaretText g [] []
  | word {g w h : List Char} : IsGap g → String.ofList w ∈ Rule.nullabilitySpecifier.spellings →
      IsGap h → CaretText (g ++ (w ++ h)) w []
  | name {g i h : List Char} : IsGap g → IsIdent i →
      String.ofList i ∉ Rule.nullabilitySpecifier.spellings → IsGap h →
      CaretText (g ++ (i ++ h)) [] i
  | both {g w k i h : List Char} : IsGap g →
      String.ofList w ∈ Rule.nullabilitySpecifier.spellings → IsGap k → k ≠ [] → IsIdent i →
      IsGap h → CaretText (g ++ (w ++ (k ++ (i ++ h)))) w i

theorem nullability_spelling {w : List Char}
    (h : String.ofList w ∈ Rule.nullabilitySpecifier.spellings) : IsIdent w := by
  have hall : ∀ u ∈ Rule.nullabilitySpecifier.spellings,
      startsIdent u.toList = true ∧ ∀ c ∈ u.toList, isIdentChar c = true := by decide
  have hw := hall _ h
  rw [String.toList_ofList] at hw
  exact ⟨hw.1, hw.2⟩

namespace Expr

theorem shape_opt_nullability_none (hcs : Solid cs)
    (h : String.ofList (identRun cs) ∉ Rule.nullabilitySpecifier.spellings) :
    (Expr.opt (.call .nullabilitySpecifier)).shape cs = some (cs, []) := by
  rw [shape_opt hcs, shape_keyword rfl, if_neg h]
  rfl

theorem shape_opt_nullability {w : List Char}
    (hw : String.ofList w ∈ Rule.nullabilitySpecifier.spellings) (hz : Ends zs) :
    (Expr.opt (.call .nullabilitySpecifier)).shape (w ++ zs) =
      some (skipGap zs, [.token .nullabilitySpecifier w]) := by
  have hident := nullability_spelling hw
  rw [shape_opt (hident.firm.append zs).solid, shape_keyword rfl, identRun_append hident.chars hz,
    identRest_append hident.chars hz, if_pos hw]
  rfl

theorem shape_opt_identifier_close (zs : List Char) :
    (Expr.opt (.call .identifier)).shape (')' :: zs) = some (')' :: zs, []) := by
  rw [shape_opt (solid_cons rfl (by decide)), shape_identifier]
  rfl

end Expr

theorem CaretText.shape {o w : List Char} (h : CaretText o w i) (zs : List Char) :
    ∃ mid, (Expr.opt (.call .nullabilitySpecifier)).shape (skipGap (o ++ ')' :: zs)) =
        some (mid, Node.optional .nullabilitySpecifier w) ∧
      (Expr.opt (.call .identifier)).shape mid = some (')' :: zs, Node.optional .identifier i) ∧
      (i = [] → mid = ')' :: zs) := by
  have hclose : ∀ {h : List Char}, IsGap h → skipGap (h ++ ')' :: zs) = ')' :: zs :=
    fun hh => hh.skipGap_append_cons (c := ')') rfl (by decide) zs
  have hends : ∀ {h : List Char}, IsGap h → Ends (h ++ ')' :: zs) := fun hh => hh.ends_cons rfl _
  cases h with
  | none hg =>
    have hrun : String.ofList (identRun (')' :: zs)) ∉ Rule.nullabilitySpecifier.spellings := by
      rw [show identRun (')' :: zs) = [] from rfl]
      decide
    rw [hclose hg]
    exact ⟨_, shape_opt_nullability_none (solid_cons rfl (by decide)) hrun,
      shape_opt_identifier_close zs, fun _ => rfl⟩
  | @word g w h hg hw hh =>
    have hident := nullability_spelling hw
    rw [show g ++ (w ++ h) ++ ')' :: zs = g ++ (w ++ (h ++ ')' :: zs)) by simp,
      hg.skipGap_append_firm hident.firm, shape_opt_nullability hw (hends hh), hclose hh,
      Node.optional_of_ne_nil hident.firm.ne_nil]
    exact ⟨_, rfl, shape_opt_identifier_close zs, fun _ => rfl⟩
  | @name g i h hg hi hno hh =>
    have hsolid := (hi.firm.append (h ++ ')' :: zs)).solid
    rw [show g ++ (i ++ h) ++ ')' :: zs = g ++ (i ++ (h ++ ')' :: zs)) by simp,
      hg.skipGap_append_firm hi.firm]
    refine ⟨_, shape_opt_nullability_none hsolid (by rwa [identRun_append hi.chars (hends hh)]), ?_,
      fun hnil => absurd hnil hi.firm.ne_nil⟩
    rw [(identifier_spells hi).opt hi.firm _ (hends hh), hclose hh,
      Node.optional_of_ne_nil hi.firm.ne_nil]
  | @both g w k i h hg hw hk hne hi hh =>
    have hident := nullability_spelling hw
    rw [show g ++ (w ++ (k ++ (i ++ h))) ++ ')' :: zs =
        g ++ (w ++ (k ++ (i ++ (h ++ ')' :: zs)))) by simp,
      hg.skipGap_append_firm hident.firm, shape_opt_nullability hw (hk.ends hne _),
      hk.skipGap_append_firm hi.firm, Node.optional_of_ne_nil hident.firm.ne_nil]
    refine ⟨_, rfl, ?_, fun hnil => absurd hnil hi.firm.ne_nil⟩
    rw [(identifier_spells hi).opt hi.firm _ (hends hh), hclose hh,
      Node.optional_of_ne_nil hi.firm.ne_nil]

structure ParametersText (r p : List Char) (ns : List Node) : Prop where
  brackets : ∃ q, p = '(' :: (q ++ [')'])
  spells : (Expr.call .blockParameters).Spells (StaysOpen r) p ns

theorem ParametersText.opens {p : List Char} (h : ParametersText r p ns) : ∃ q, p = '(' :: q := by
  obtain ⟨q, rfl⟩ := h.brackets
  exact ⟨_, rfl⟩

inductive BlockText (r : List Char) : List Char → List Char → List Node → Prop where
  | intro {g o w i h p : List Char} {ns : List Node} : IsGap g → CaretText o w i → IsGap h →
      ParametersText r p ns → BlockText r i ('(' :: (g ++ '^' :: (o ++ ')' :: (h ++ p))))
        (Node.optional .nullabilitySpecifier w ++ Node.optional .identifier i ++ ns)

theorem BlockText.exists_cons (h : BlockText r i x ns) : ∃ y, x = '(' :: y := by
  cases h
  exact ⟨_, rfl⟩

theorem BlockText.firm (h : BlockText r i x ns) : Firm x := by
  obtain ⟨y, rfl⟩ := h.exists_cons
  exact ⟨'(', rfl, rfl, by decide⟩

namespace Expr

def namedBlock : Expr :=
  .seq
    (.seq (.seq (.seq (.seq (.literal ['(']) (.literal ['^'])) (.opt (.call .nullabilitySpecifier)))
    (.opt (.call .identifier))) (.literal [')'])) (.call .blockParameters)

def dots : Expr := .seq (.literal [',']) (.literal ['.', '.', '.'])

end Expr

theorem Rule.abstractBlockDeclarator_body : Rule.abstractBlockDeclarator.body =
    .seq (.seq (.seq (.seq (.literal ['(']) (.literal ['^'])) (.opt (.call .nullabilitySpecifier)))
      (.literal [')'])) (.call .blockParameters) := rfl

theorem Rule.directDeclarator_body : Rule.directDeclarator.body =
    .choice (.seq (.call .identifier) (.many (.call .declaratorSuffix))) namedBlock := rfl

theorem Rule.declarator_body :
    Rule.declarator.body = .seq (.opt (.call .pointer)) (.call .directDeclarator) := rfl

theorem Rule.parameterDeclaration_body : Rule.parameterDeclaration.body =
    .seq (.call .specifierQualifierList)
    (.opt (.choice (.call .declarator) (.call .abstractDeclarator))) :=
  rfl

theorem Rule.blockParameters_body : Rule.blockParameters.body =
    enclosed '(' ')' (.opt (.seq (sepBy (.call .parameterDeclaration)) (.opt dots))) := rfl

namespace Expr

theorem abstractBlock_spells (h : BlockText r [] x ns) :
    (Expr.call .abstractBlockDeclarator).Spells (StaysOpen r) x
      [.branch .abstractBlockDeclarator ns] := by
  intro zs hz
  generalize hi : [] = i at h
  cases h with
  | @intro g o w i h p ns hg ho hh hp =>
    subst hi
    obtain ⟨q, rfl⟩ := hp.opens
    have hfirm : Firm ('(' :: q) := ⟨'(', rfl, rfl, by decide⟩
    obtain ⟨mid, hword, -, hmid⟩ := ho.shape (h ++ ('(' :: q ++ zs))
    rw [hmid rfl] at hword
    have happ : '(' :: (g ++ '^' :: (o ++ ')' :: (h ++ '(' :: q))) ++ zs =
        '(' :: (g ++ '^' :: (o ++ ')' :: (h ++ ('(' :: q ++ zs)))) := by simp
    rw [happ, shape_branch rfl, Rule.abstractBlockDeclarator_body, shape_seq, shape_seq, shape_seq,
      shape_seq, shape_singleton, if_pos rfl, Reading.some_nil_andThen,
      hg.skipGap_append_cons rfl (by decide), shape_singleton, if_pos rfl, Reading.some_nil_andThen,
      hword, Reading.some_andThen, shape_singleton, if_pos rfl, hh.skipGap_append_firm hfirm]
    have hparameters : (Expr.call .blockParameters).shape ('(' :: (q ++ zs)) =
        some (skipGap zs, ns) :=
      hp.spells zs hz
    simp [Reading.some_andThen, hparameters, Node.optional]

theorem direct_block_spells (h : BlockText r i x ns) :
    (Expr.call .directDeclarator).Spells (StaysOpen r) x [.branch .directDeclarator ns] := by
  intro zs hz
  cases h with
  | @intro g o w i h p ns hg ho hh hp =>
    obtain ⟨q, rfl⟩ := hp.opens
    have hfirm : Firm ('(' :: q) := ⟨'(', rfl, rfl, by decide⟩
    obtain ⟨mid, hword, hname, -⟩ := ho.shape (h ++ ('(' :: q ++ zs))
    have happ : '(' :: (g ++ '^' :: (o ++ ')' :: (h ++ '(' :: q))) ++ zs =
        '(' :: (g ++ '^' :: (o ++ ')' :: (h ++ ('(' :: q ++ zs)))) := by simp
    have hnone : ∀ ds, (Expr.call .identifier).shape ('(' :: ds) = none := by
      intro ds
      rw [shape_identifier]
      rfl
    rw [happ, shape_branch rfl, Rule.directDeclarator_body, shape_choice, shape_seq, hnone,
      Reading.none_andThen, Option.none_or, namedBlock, shape_seq, shape_seq, shape_seq, shape_seq,
      shape_seq, shape_singleton, if_pos rfl, Reading.some_nil_andThen,
      hg.skipGap_append_cons rfl (by decide), shape_singleton, if_pos rfl, Reading.some_nil_andThen,
      hword, Reading.some_andThen, hname, Option.map_some, Reading.some_andThen, shape_singleton,
      if_pos rfl, hh.skipGap_append_firm hfirm]
    have hparameters : (Expr.call .blockParameters).shape ('(' :: (q ++ zs)) =
        some (skipGap zs, ns) :=
      hp.spells zs hz
    simp [Reading.some_andThen, hparameters]

end Expr

/-! ### Block parameters -/

/-- Before the second text a declarator comes to an end as before the first one. -/
def DeclaratorEnd (r zs : List Char) : Prop := Stop [',', ')'] zs ∧ StaysOpen r zs

/-- A block parameter, before a text. -/
structure ParameterText (r x : List Char) (ns : List Node) : Prop where
  firm : Firm x
  spells : (Expr.call .parameterDeclaration).Spells (DeclaratorEnd r) x ns

inductive DotsText : List Char → Prop where
  | none : DotsText []
  | three {k j : List Char} : IsGap k → IsGap j → DotsText (',' :: (k ++ '.' :: '.' :: '.' :: j))

namespace Expr

theorem shape_base_none (hcs : Solid cs) (h : identRun cs = []) : base.shape cs = none := by
  have hstart : startsIdent cs = false := by
    by_contra hs
    exact (isIdent_identRun (by simpa using hs)).firm.ne_nil h
  have hident : (Expr.call .identifier).shape cs = none := by
    rw [shape_identifier, hstart]
    rfl
  have hword : (Expr.call .typePrefix).shape cs = none := by
    rw [shape_typePrefix, h]
    rfl
  have hspecifier : (Expr.call .typeSpecifier).shape cs = none := by
    rw [shape_typeSpecifier, shape_primitiveType_none (by rw [h]; decide),
      shape_tagged_none (by rw [h]; exact fun hk => absurd hk (by decide)), shape_generic,
      shape_seq, hident]
    rfl
  rw [base, shape_seq, shape_seq, shape_many rfl hcs, rounds_of_none hword, Reading.some_andThen,
    hspecifier]
  rfl

theorem shape_parameter_none (hcs : Solid cs) (h : identRun cs = []) :
    (Expr.call .parameterDeclaration).shape cs = none := by
  have hlist : Rule.specifierQualifierList.body = base := rfl
  rw [shape_branch rfl, Rule.parameterDeclaration_body, shape_seq, shape_branch rfl, hlist,
    shape_base_none hcs h]
  rfl

end Expr

theorem DotsText.shape {v : List Char} (h : DotsText v) (zs : List Char) :
    (Expr.opt dots).shape (v ++ ')' :: zs) = some (')' :: zs, []) := by
  cases h with
  | none =>
    rw [List.nil_append, shape_opt (solid_cons rfl (by decide)), dots,
      shape_none_of_opening rfl (by simp)]
    rfl
  | @three k j hk hj =>
    have happ : ',' :: (k ++ '.' :: '.' :: '.' :: j) ++ ')' :: zs =
        ',' :: (k ++ '.' :: '.' :: '.' :: (j ++ ')' :: zs)) := by simp
    rw [happ, shape_opt (solid_cons rfl (by decide)), dots, shape_comma, if_pos rfl,
      hk.skipGap_append_cons rfl (by decide), shape_literal, if_pos ⟨_, rfl⟩]
    simp [hj.skipGap_append_cons (c := ')') rfl (by decide) zs]

theorem DotsText.stop {h v : List Char} (hv : DotsText v) (hh : IsGap h) (zs : List Char) :
    skipGap (h ++ (v ++ ')' :: zs)) = v ++ ')' :: zs ∧ Stop [',', ')'] (h ++ (v ++ ')' :: zs)) := by
  have hskip : skipGap (h ++ (v ++ ')' :: zs)) = v ++ ')' :: zs := by
    cases hv with
    | none => exact hh.skipGap_append_cons rfl (by decide) _
    | three => exact hh.skipGap_append_cons rfl (by decide) _
  refine ⟨hskip, ?_⟩
  rw [Stop, hskip]
  cases hv <;> simp

theorem parametersText_none (hg : IsGap g) (r : List Char) :
    ParametersText r ('(' :: (g ++ [')'])) [.branch .blockParameters []] := by
  refine ⟨⟨_, rfl⟩, fun zs _ => ?_⟩
  have hsolid : Solid (')' :: zs) := solid_cons rfl (by decide)
  have hparameter := shape_parameter_none hsolid rfl
  rw [show '(' :: (g ++ [')']) ++ zs = '(' :: (g ++ ')' :: zs) by simp, shape_branch rfl,
    Rule.blockParameters_body, shape_enclosed, hg.skipGap_append_cons rfl (by decide),
    shape_opt hsolid,
    shape_seq, shape_sepBy_none hparameter, Reading.none_andThen]
  simp [shape_singleton]

theorem parametersText_list {xs : List (List Char)} {h v : List Char}
    (hx : Separated ParameterText (h ++ (v ++ ')' :: r)) xs x ns) (hg : IsGap g) (hh : IsGap h)
    (hv : DotsText v) :
    ParametersText r ('(' :: (g ++ (x ++ (h ++ (v ++ [')']))))) [.branch .blockParameters ns] := by
  refine ⟨⟨g ++ (x ++ (h ++ v)), by simp⟩, fun zs hz => ?_⟩
  have hfirm := hx.firm fun _ _ _ hx => hx.firm
  obtain ⟨hskip, hstop⟩ := hv.stop hh zs
  have hlist := hx.spells (F := DeclaratorEnd)
    (fun _ _ _ hx => ⟨hx.firm, hx.spells⟩)
    (fun g y r zs hg hz => ⟨stop_cons hg ⟨',', rfl, rfl, by decide⟩ (by simp),
      ((hz.2.append y).cons ',').append g⟩)
    (h ++ (v ++ ')' :: zs)) ⟨⟨hstop, ((hz.cons ')').append v).append h⟩, fun ds hds => ?_⟩
  · have happ : '(' :: (g ++ (x ++ (h ++ (v ++ [')'])))) ++ zs =
        '(' :: (g ++ (x ++ (h ++ (v ++ ')' :: zs)))) := by simp
    rw [hskip] at hlist
    have hall : (Expr.seq (sepBy (.call .parameterDeclaration)) (.opt dots)).shape
        (x ++ (h ++ (v ++ ')' :: zs))) = some (')' :: zs, ns) := by
      rw [shape_seq, hlist, Reading.some_andThen, hv.shape]
      simp
    rw [happ, shape_branch rfl, Rule.blockParameters_body, shape_enclosed,
      hg.skipGap_append_firm hfirm, shape_opt (hfirm.append _).solid, hall]
    simp [Reading.some_andThen, shape_singleton]
  · rw [hskip] at hds
    cases hv with
    | none => simp at hds
    | @three k j hk hj =>
      obtain rfl : k ++ '.' :: '.' :: '.' :: j ++ ')' :: zs = ds := by simpa using hds
      rw [List.append_assoc, List.cons_append, hk.skipGap_append_cons rfl (by decide),
        shape_parameter_none (solid_cons rfl (by decide)) rfl]

/-! ### Declarators without a name -/

/-- What stands behind the stars of a declarator without a name. -/
inductive Ending (r : List Char) : List Char → List Node → Prop where
  | arrays {x : List Char} {ns : List Node} : Suffixes r x ns → Ending r x ns
  | block {x : List Char} {ns : List Node} : BlockText r [] x ns →
      Ending r x [.branch .abstractBlockDeclarator ns]

inductive AbstractText (r : List Char) : List Char → List Node → Prop where
  | stars {x : List Char} {ms : List Node} : Stars x ms → AbstractText r x [.branch .pointer ms]
  | ending {x : List Char} {ns : List Node} : Ending r x ns → AbstractText r x ns
  | both {x g y : List Char} {ms ns : List Node} : Stars x ms → IsGap g → Ending r y ns →
      AbstractText r (x ++ (g ++ y)) (.branch .pointer ms :: ns)

theorem Suffixes.rule (h : Suffixes r x ns) : ∀ m ∈ ns, m.rule = .declaratorSuffix := by
  induction h with
  | one => simp [Node.suffix, Node.rule]
  | cons _ _ _ ih => simpa [Node.suffix, Node.rule] using ih

theorem Suffixes.ne_nil (h : Suffixes r x ns) : ns ≠ [] := by
  cases h <;> simp

theorem Ending.exists_cons (h : Ending r x ns) : ∃ c y, x = c :: y ∧ c ∈ ['(', '['] := by
  cases h with
  | arrays hx =>
    obtain ⟨y, rfl⟩ := hx.exists_cons
    exact ⟨_, y, rfl, by simp⟩
  | block hx =>
    obtain ⟨y, rfl⟩ := hx.exists_cons
    exact ⟨_, y, rfl, by simp⟩

theorem firm_of_mem {S : List Char} (hS : ∀ c ∈ S, isGapBlank c = false ∧ c ≠ '/') {c : Char}
    (hc : c ∈ S) (y : List Char) : Firm (c :: y) :=
  ⟨c, rfl, hS c hc⟩

theorem Ending.firm (h : Ending r x ns) : Firm x := by
  obtain ⟨c, y, rfl, hc⟩ := h.exists_cons
  exact firm_of_mem (by decide) hc y

theorem Ending.stop (h : Ending r x ns) (hg : IsGap g) (zs : List Char) :
    Stop ['(', '['] (g ++ (x ++ zs)) := by
  obtain ⟨c, y, rfl, hc⟩ := h.exists_cons
  exact stop_cons hg (firm_of_mem (by decide) hc []) hc

namespace Expr

theorem shape_many1_of_rounds {a : Expr} (ha : a.mayBeEmpty = false) {cs' : List Char}
    (h : a.rounds cs = (cs', ns)) (hne : ns ≠ []) : (many1 a).shape cs = some (cs', ns) := by
  cases hfirst : a.shape cs with
  | none =>
    rw [rounds_of_none hfirst] at h
    exact absurd (Prod.mk.inj h).2.symm hne
  | some y => rw [shape_many1 ha hfirst, h]

/-- What is tried behind the stars: a block, then arrays. -/
theorem ending_spells (h : Ending r x ns) {e : Expr}
    (he : e = .many (.call .declaratorSuffix) ∨ e = many1 (.call .declaratorSuffix)) :
    (Expr.choice (.call .abstractBlockDeclarator) e).Spells (DeclaratorEnd r) x ns := by
  rintro zs ⟨hstop, hopen⟩
  cases h with
  | arrays hx =>
    have hrounds := hx.rounds hopen fun hc => by simpa using hstop '[' hc
    have hsolid := (hx.firm.append zs).solid
    have hround : (x ++ zs).head? ≠ some '(' := by
      obtain ⟨y, rfl⟩ := hx.exists_cons
      simp
    rw [shape_choice, shape_call_none rfl rfl hround, Option.none_or]
    rcases he with rfl | rfl
    · rw [shape_many rfl hsolid, hrounds]
    · exact shape_many1_of_rounds rfl hrounds hx.ne_nil
  | block hx =>
    rw [shape_choice, abstractBlock_spells hx zs hopen]
    rfl

theorem abstract_spells (h : AbstractText r x ns) :
    (Expr.call .abstractDeclarator).Spells (DeclaratorEnd r) x
    [.branch .abstractDeclarator ns] := by
  refine Spells.branch rfl fun zs hz => ?_
  have hstop := hz.1
  rw [Rule.abstractDeclarator_body, shape_choice, shape_seq]
  cases h with
  | stars hx =>
    have hround : (skipGap zs).head? ≠ some '(' := fun hc => by simpa using hstop '(' hc
    have hsquare : (skipGap zs).head? ≠ some '[' := fun hc => by simpa using hstop '[' hc
    rw [hx.spells zs (hstop.endsPointer (by decide) (by decide) x), Reading.some_andThen,
      shape_choice, shape_call_none rfl rfl hround, shape_many rfl (solid_skipGap zs),
      rounds_of_none (shape_call_none rfl rfl hsquare)]
    rfl
  | ending hx =>
    have hstar : (x ++ zs).head? ≠ some '*' := by
      obtain ⟨c, y, rfl, hc⟩ := hx.exists_cons
      rintro hstar
      obtain rfl : c = '*' := by simpa using hstar
      exact absurd hc (by decide)
    rw [shape_pointer_none hstar, Reading.none_andThen, Option.none_or,
      ending_spells hx (.inr rfl) zs hz]
  | @both x g y ms ns hx hg hy =>
    have hends := (hy.stop hg zs).endsPointer (by decide) (by decide) x
    rw [List.append_assoc, List.append_assoc, hx.spells _ hends, hg.skipGap_append_firm hy.firm,
      Reading.some_andThen, ending_spells hy (.inl rfl) zs hz]
    rfl

end Expr

theorem AbstractText.ne_nil (h : AbstractText r x ns) : ns ≠ [] := by
  cases h with
  | stars => simp
  | ending hx =>
    cases hx with
    | arrays hx => exact hx.ne_nil
    | block => simp
  | both => simp

theorem AbstractText.exists_cons (h : AbstractText r x ns) :
    ∃ c y, x = c :: y ∧ c ∈ ['*', '(', '['] := by
  cases h with
  | stars hx =>
    obtain ⟨y, rfl⟩ := hx.exists_cons
    exact ⟨_, y, rfl, by simp⟩
  | ending hx =>
    obtain ⟨c, y, rfl, hc⟩ := hx.exists_cons
    exact ⟨c, y, rfl, List.mem_cons_of_mem _ hc⟩
  | both hx =>
    obtain ⟨y, rfl⟩ := hx.exists_cons
    exact ⟨_, _, rfl, by simp⟩

theorem AbstractText.firm (h : AbstractText r x ns) : Firm x := by
  obtain ⟨c, y, rfl, hc⟩ := h.exists_cons
  exact firm_of_mem (by decide) hc y

theorem AbstractText.stop (h : AbstractText r x ns) (hg : IsGap g) (zs : List Char) :
    Stop ['*', '(', '['] (g ++ (x ++ zs)) := by
  obtain ⟨c, y, rfl, hc⟩ := h.exists_cons
  exact stop_cons hg (firm_of_mem (by decide) hc []) hc

/-- A base with a declarator without a name behind it is a type name. -/
theorem typeName_abstract {bns : List Node} (hx : BaseSpelling x bns) (hg : IsGap g)
    (hy : AbstractText r y ns) :
    (Expr.call .typeName).Spells (DeclaratorEnd r) (x ++ (g ++ y)) [.typeName bns ns] := by
  have hlist := hx.spells.branch (r := .specifierQualifierList) rfl
  have hnode : Node.typeName bns ns =
      .branch .typeName [.branch .specifierQualifierList bns, .branch .abstractDeclarator ns] := by
    simp [Node.typeName, hy.ne_nil]
  rw [hnode]
  exact (hlist.seq hg hy.firm ((abstract_spells hy).opt hy.firm) fun zs _ =>
    (hy.stop hg zs).mono (by simp)).branch rfl

/-! ### Declarators with a place for a name -/

inductive DirectText (r : List Char) : List Char → List Node → Prop where
  | name {i : List Char} : IsIdent i → DirectText r i [.token .identifier i]
  | arrays {i g y : List Char} {ns : List Node} : IsIdent i → IsGap g → Suffixes r y ns →
      DirectText r (i ++ (g ++ y)) (.token .identifier i :: ns)
  | block {i x : List Char} {ns : List Node} : BlockText r i x ns → DirectText r x ns

theorem DirectText.firm (h : DirectText r x ns) : Firm x := by
  cases h with
  | name hi => exact hi.firm
  | arrays hi => exact hi.firm.append _
  | block hx => exact hx.firm

namespace Expr

theorem shape_direct_none (hident : startsIdent cs = false) (hround : cs.head? ≠ some '(') :
    (Expr.call .directDeclarator).shape cs = none := by
  rw [shape_branch rfl, Rule.directDeclarator_body, shape_choice, shape_seq, shape_identifier,
    hident, shape_none_of_opening (c := '(') rfl hround]
  rfl

theorem direct_spells (h : DirectText r x ns) :
    (Expr.call .directDeclarator).Spells (DeclaratorEnd r) x [.branch .directDeclarator ns] := by
  have hsquare : ∀ {zs : List Char}, Stop [',', ')'] zs → (skipGap zs).head? ≠ some '[' :=
    fun hz hc => by simpa using hz '[' hc
  rintro zs ⟨hstop, hopen⟩
  cases h with
  | name hi =>
    rw [shape_branch rfl, Rule.directDeclarator_body, shape_choice, shape_seq,
      identifier_spells hi zs (hstop.ends (by decide)), Reading.some_andThen,
      shape_many rfl (solid_skipGap zs), rounds_of_none (shape_call_none rfl rfl (hsquare hstop))]
    rfl
  | @arrays i g y ns hi hg hy =>
    have hends : Ends (g ++ (y ++ zs)) := by
      obtain ⟨y, rfl⟩ := hy.exists_cons
      exact hg.ends_cons rfl _
    rw [show i ++ (g ++ y) ++ zs = i ++ (g ++ (y ++ zs)) by simp, shape_branch rfl,
      Rule.directDeclarator_body, shape_choice, shape_seq, identifier_spells hi _ hends,
      hg.skipGap_append_firm hy.firm, Reading.some_andThen,
      shape_many rfl (hy.firm.append zs).solid, hy.rounds hopen (hsquare hstop)]
    rfl
  | block hx => exact direct_block_spells hx zs hopen

end Expr

theorem noMore_ident (hg : IsGap g) (hi : IsIdent i) (hr : Ends r) (hz : Ends zs) :
    NoMore (g ++ (i ++ r)) (g ++ (i ++ zs)) := by
  have hskip := hg.skipGap_append_firm hi.firm
  have hrun := identRun_append hi.chars hr
  have hrun' := identRun_append hi.chars hz
  refine ⟨fun hends => ?_, fun hround => ?_, fun hword => ?_, fun hident => ?_⟩
  · rw [← List.append_assoc] at hends ⊢
    exact hends.append (by simp [hi.firm.ne_nil])
  · by_contra hsome
    obtain ⟨zs', hzs⟩ := Option.ne_none_iff_exists'.mp hsome
    obtain ⟨b, hb, hblank, hne, hw⟩ := scalarRound?_eq_some hzs
    -- the gap is blank, and then the name would be one more word before the first text too
    rw [hskip, hrun'] at hw
    rw [hskip] at hb
    obtain rfl := List.append_cancel_right hb
    rw [scalarRound?_append hblank hne hw hr] at hround
    simp at hround
  · rw [NoWord, hskip, hrun] at hword
    rwa [NoWord, hskip, hrun']
  · rw [hskip] at hident ⊢
    rw [startsIdent_append hi.start] at hident
    simp at hident

theorem DirectText.noMore (h : DirectText r x ns) (hg : IsGap g) (hr : Stop [',', ')'] r)
    (hz : Stop [',', ')'] zs) : NoMore (g ++ (x ++ r)) (g ++ (x ++ zs)) := by
  cases h with
  | name hi => exact noMore_ident hg hi (hr.ends (by decide)) (hz.ends (by decide))
  | @arrays i k y ns hi hk hy =>
    obtain ⟨y, rfl⟩ := hy.exists_cons
    rw [List.append_assoc, List.append_assoc, List.append_assoc, List.append_assoc]
    exact noMore_ident hg hi (hk.ends_cons rfl _) (hk.ends_cons rfl _)
  | block hx =>
    obtain ⟨y, rfl⟩ := hx.exists_cons
    exact (stop_cons hg ⟨'(', rfl, rfl, by decide⟩ (by simp)).noMore (S := ['(']) (by decide) _

theorem DirectText.head (h : DirectText r x ns) (zs : List Char) :
    ∃ c ∈ (x ++ zs).head?, isIdentStart c = true ∨ c = '(' := by
  have hident : ∀ {i : List Char}, IsIdent i →
      ∀ zs, ∃ c ∈ (i ++ zs).head?, isIdentStart c = true := by
    intro i hi zs
    have hstart := startsIdent_append hi.start zs
    cases hcs : (i ++ zs).head? with
    | none => simp [startsIdent, hcs] at hstart
    | some c => exact ⟨c, rfl, by simpa [startsIdent, hcs] using hstart⟩
  cases h with
  | name hi =>
    obtain ⟨c, hc, hstart⟩ := hident hi zs
    exact ⟨c, hc, .inl hstart⟩
  | arrays hi =>
    rw [List.append_assoc]
    obtain ⟨c, hc, hstart⟩ := hident hi _
    exact ⟨c, hc, .inl hstart⟩
  | block hx =>
    obtain ⟨y, rfl⟩ := hx.exists_cons
    exact ⟨'(', rfl, .inr rfl⟩

theorem DirectText.noStar (h : DirectText r x ns) (hg : IsGap g) (zs : List Char) :
    NoStar (g ++ (x ++ zs)) := by
  obtain ⟨c, hc, hhead⟩ := h.head zs
  rw [NoStar, hg.skipGap_append_firm h.firm, Option.mem_def.mp hc]
  rintro hstar
  obtain rfl := Option.some.inj hstar
  simp [isIdentStart] at hhead

/-- A declarator with a place for a name, before a text. -/
inductive DeclaratorText (r : List Char) : List Char → List Node → Prop where
  | direct {x : List Char} {ns : List Node} : DirectText r x ns →
      DeclaratorText r x [.branch .directDeclarator ns]
  | stars {x g y : List Char} {ms ns : List Node} : Stars x ms → IsGap g → DirectText r y ns →
      Apart x (g ++ (y ++ r)) → NoWord (g ++ (y ++ r)) →
      DeclaratorText r (x ++ (g ++ y)) [.branch .pointer ms, .branch .directDeclarator ns]

theorem DeclaratorText.of_block {ms : List Node} (hx : Stars x ms) (hg : IsGap g)
    (hy : BlockText r i y ns) :
    DeclaratorText r (x ++ (g ++ y)) [.branch .pointer ms, .branch .directDeclarator ns] := by
  obtain ⟨y', hy'⟩ := hy.exists_cons
  have hstop : Stop ['('] (g ++ (y ++ r)) := by
    rw [hy']
    exact stop_cons hg ⟨'(', rfl, rfl, by decide⟩ (by simp)
  exact .stars hx hg (.block hy) (fun _ _ _ => hstop.ends (by decide)) (hstop.noWord (by decide))

theorem DeclaratorText.firm (h : DeclaratorText r x ns) : Firm x := by
  cases h with
  | direct hx => exact hx.firm
  | stars hx => exact hx.firm.append _

theorem DeclaratorText.noMore (h : DeclaratorText r x ns) (hg : IsGap g) (hr : Stop [',', ')'] r)
    (hz : Stop [',', ')'] zs) : NoMore (g ++ (x ++ r)) (g ++ (x ++ zs)) := by
  cases h with
  | direct hx => exact hx.noMore hg hr hz
  | stars hx =>
    obtain ⟨y, rfl⟩ := hx.exists_cons
    exact (stop_cons hg ⟨'*', rfl, rfl, by decide⟩ (by simp)).noMore (S := ['*']) (by decide) _

theorem DeclaratorText.noAngle (h : DeclaratorText r x ns) (hg : IsGap g) (zs : List Char) :
    NoAngle (g ++ (x ++ zs)) := by
  rw [NoAngle, hg.skipGap_append_firm h.firm]
  cases h with
  | direct hx =>
    obtain ⟨c, hc, hhead⟩ := hx.head zs
    rw [Option.mem_def.mp hc]
    rintro hangle
    obtain rfl := Option.some.inj hangle
    simp [isIdentStart] at hhead
  | stars hx =>
    obtain ⟨y, rfl⟩ := hx.exists_cons
    simp

namespace Expr

theorem declarator_spells (h : DeclaratorText r x ns) (hr : Stop [',', ')'] r) :
    (Expr.call .declarator).Spells (DeclaratorEnd r) x [.branch .declarator ns] := by
  refine Spells.branch rfl fun zs hz => ?_
  rw [Rule.declarator_body, shape_seq]
  cases h with
  | direct hx =>
    have hstar : (x ++ zs).head? ≠ some '*' := by
      have hnone := hx.noStar IsGap.nil zs
      rwa [NoStar, List.nil_append, (hx.firm.append zs).solid.skipGap] at hnone
    rw [shape_opt (hx.firm.append zs).solid, shape_pointer_none hstar]
    simp [Reading.some_andThen, direct_spells hx zs hz]
  | @stars x g y ms ns hx hg hy hapart hword =>
    have hmore := hy.noMore hg hr hz.1
    have hends : Apart x (g ++ (y ++ zs)) := fun c hc hident => hmore.ends (hapart c hc hident)
    rw [show x ++ (g ++ y) ++ zs = x ++ (g ++ (y ++ zs)) by simp,
      hx.spells.opt hx.firm _ ⟨hends, hmore.word hword, hy.noStar hg zs⟩,
      hg.skipGap_append_firm hy.firm, Reading.some_andThen, direct_spells hy zs hz]
    rfl

theorem shape_direct_stop (h : Stop [',', ')', '['] zs) :
    (Expr.call .directDeclarator).shape (skipGap zs) = none :=
  shape_direct_none (h.ident (by decide)) fun hc => by simpa using h '(' hc

/-- Without a name, stars and arrays are no declarator with a place for one. -/
theorem shape_declarator_abstract (h : AbstractText r x ns)
    (hns : ∀ m ∈ ns, m.rule ≠ .abstractBlockDeclarator) (hz : Stop [',', ')'] zs) :
    (Expr.call .declarator).shape (x ++ zs) = none := by
  have hstars : ∀ {x zs : List Char} {ms : List Node}, Stars x ms → Stop [',', ')', '['] zs →
      (Expr.call .declarator).shape (x ++ zs) = none := by
    intro x zs ms hx hz
    rw [shape_branch rfl, Rule.declarator_body, shape_seq,
      hx.spells.opt hx.firm zs (hz.endsPointer (by decide) (by decide) x), Reading.some_andThen,
      shape_direct_stop hz]
    rfl
  -- an ending without a block begins with a square bracket
  have hsquare : ∀ {x : List Char} {ns : List Node}, Ending r x ns →
      (∀ m ∈ ns, m.rule ≠ .abstractBlockDeclarator) → ∃ y, x = '[' :: y := by
    intro x ns hx hns
    cases hx with
    | arrays hx => exact hx.exists_cons
    | block => exact absurd rfl (hns _ List.mem_cons_self)
  cases h with
  | stars hx => exact hstars hx (hz.mono (by simp))
  | ending hx =>
    obtain ⟨y, rfl⟩ := hsquare hx hns
    have hsolid : Solid ('[' :: (y ++ zs)) := solid_cons rfl (by decide)
    have hstop : Stop [',', ')', '['] ('[' :: (y ++ zs)) :=
      stop_cons IsGap.nil ⟨'[', rfl, rfl, by decide⟩ (by simp)
    have hdirect := shape_direct_stop hstop
    rw [hsolid.skipGap] at hdirect
    rw [List.cons_append, shape_branch rfl, Rule.declarator_body, shape_seq, shape_opt hsolid,
      shape_pointer_none (by simp)]
    simp [Reading.some_andThen, hdirect]
  | @both x g y ms ns hx hg hy =>
    obtain ⟨y, rfl⟩ := hsquare hy fun m hm => hns m (List.mem_cons_of_mem _ hm)
    rw [List.append_assoc, List.append_assoc]
    exact hstars hx (stop_cons hg ⟨'[', rfl, rfl, by decide⟩ (by simp))

end Expr

/-! ### Kinds of block parameters -/

theorem parameterText_base {bns : List Node} (hx : BaseSpelling x bns) (r : List Char) :
    ParameterText r x [.branch .parameterDeclaration [.branch .specifierQualifierList bns]] := by
  refine ⟨firm_of_startsIdent hx.start, Spells.branch rfl fun zs hz => ?_⟩
  have hlist := hx.spells.branch (r := .specifierQualifierList) rfl
  have hne : ∀ c ∉ [',', ')'], (skipGap zs).head? ≠ some c := fun c hc hhead => hc (hz.1 c hhead)
  have Rule.declarator_body : (Expr.call .declarator).shape (skipGap zs) = none := by
    rw [shape_branch rfl, Rule.declarator_body, shape_seq, shape_opt (solid_skipGap zs),
      shape_pointer_none (hne '*' (by decide))]
    simp [Reading.some_andThen, shape_direct_stop (hz.1.mono (by simp))]
  rw [Rule.parameterDeclaration_body, shape_seq, hlist zs (hz.1.mono (by simp)),
    Reading.some_andThen, shape_opt (solid_skipGap zs), shape_choice, Rule.declarator_body,
    shape_abstract_none (hne '*' (by decide)) (hne '(' (by decide)) (hne '[' (by decide))]
  rfl

theorem parameterText_abstract {bns : List Node} (hx : BaseSpelling x bns) (hg : IsGap g)
    (hy : AbstractText r y ns) (hns : ∀ m ∈ ns, m.rule ≠ .abstractBlockDeclarator) :
    ParameterText r (x ++ (g ++ y)) [.branch .parameterDeclaration
      [.branch .specifierQualifierList bns, .branch .abstractDeclarator ns]] := by
  have hlist := hx.spells.branch (r := .specifierQualifierList) rfl
  have hrest : (Expr.choice (.call .declarator) (.call .abstractDeclarator)).Spells
      (DeclaratorEnd r) y
      [.branch .abstractDeclarator ns] := by
    intro zs hz
    rw [shape_choice, shape_declarator_abstract hy hns hz.1, abstract_spells hy zs hz]
    rfl
  exact ⟨(firm_of_startsIdent hx.start).append _, (hlist.seq hg hy.firm (hrest.opt hy.firm)
    fun zs _ => (hy.stop hg zs).mono (by simp)).branch rfl⟩

theorem parameterText_declarator {bns : List Node} (hx : Firm x)
    (hbase : base.Spells (fun zs => NoMore (g ++ (y ++ r)) zs ∧ NoAngle zs) x bns) (hg : IsGap g)
    (hy : DeclaratorText r y ns) (hr : Stop [',', ')'] r) :
    ParameterText r (x ++ (g ++ y)) [.branch .parameterDeclaration
      [.branch .specifierQualifierList bns, .branch .declarator ns]] := by
  have hlist := hbase.branch (r := .specifierQualifierList) rfl
  have hrest : (Expr.choice (.call .declarator) (.call .abstractDeclarator)).Spells
      (DeclaratorEnd r) y
      [.branch .declarator ns] := by
    intro zs hz
    rw [shape_choice, declarator_spells hy hr zs hz]
    rfl
  exact ⟨hx.append _, (hlist.seq hg hy.firm (hrest.opt hy.firm)
    fun zs hz => ⟨hy.noMore hg hr hz.1, hy.noAngle hg zs⟩).branch rfl⟩

end HeaderBridge.Grammar
