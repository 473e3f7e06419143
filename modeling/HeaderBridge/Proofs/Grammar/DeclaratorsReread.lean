import HeaderBridge.Proofs.Grammar.Declarators
import HeaderBridge.Proofs.Grammar.Rereading

/-! # Reading declarators again

What is read as arrays, a block, a declarator or a list of parameters is a
spelling of it before what follows, and so it is read again in the same way
before other texts.
-/

namespace HeaderBridge.Grammar

open HeaderBridge.Grammar.Expr

variable {cs c : List Char} {ns : List Node}

/-! ### Arrays -/

theorem suffix_reading (h : (Expr.call .declaratorSuffix).reading .spaced cs = some (c, ns)) :
    ∃ x l, cs = x ++ c ∧ SuffixText c x l ∧ ns.map Node.skeleton = [.suffix l] := by
  obtain ⟨x, ms, -, hread, rfl⟩ := Rule.reading_branch_eq_some rfl h
  have hbody : Rule.declaratorSuffix.body =
      .seq (.seq (.literal ['[']) (.opt (.call .arrayLength))) (.literal [']']) := rfl
  rw [hbody] at hread
  obtain ⟨ds, rfl, hlength⟩ := shape_opened (reading_closed hread)
  rw [shape_opt_arrayLength (solid_skipGap ds), Option.some.injEq, Prod.mk.injEq] at hlength
  have hsplit := List.takeWhile_append_dropWhile (p := (· != ']')) (l := skipGap ds)
  rw [hlength.1] at hsplit
  obtain ⟨g, hg, hgap⟩ := exists_gap_append hsplit.symm (by simp)
  refine ⟨'[' :: (g ++ ((skipGap ds).takeWhile (· != ']') ++ [']'])), _, by simp [← hg],
    .intro hgap (fun d hd => ?_) (by rw [hsplit]; exact solid_skipGap ds), ?_⟩
  · simpa using List.mem_takeWhile_imp hd
  · rw [List.map_singleton, Node.skeleton_branch rfl, ← hlength.2, Node.suffix]

theorem suffixes_of_rounds {ms : List Node}
    (h : Expr.Rounds (.call .declaratorSuffix) cs c ms) : c = cs ∧ ms = [] ∨
      ∃ g x, cs = g ++ (x ++ c) ∧ IsGap g ∧ Suffixes c x (ms.map Node.skeleton) := by
  induction h with
  | done => exact .inl ⟨rfl, rfl⟩
  | more h _ ih =>
    obtain ⟨x, l, hx, htext, hns⟩ := suffix_reading h
    obtain ⟨y, hy⟩ := htext.exists_cons
    obtain ⟨g, hg, hgap⟩ := exists_gap_append hx (by simp [hy])
    rw [List.map_append, hns]
    rcases ih with ⟨rfl, rfl⟩ | ⟨k, y, rfl, hk, hy⟩
    · exact .inr ⟨g, x, hg, hgap, .one htext⟩
    · exact .inr ⟨g, x ++ (k ++ y), by simpa using hg, hgap, .cons htext hk hy⟩

theorem suffixes_reading
    (h : (Expr.many (.call .declaratorSuffix)).reading .spaced cs = some (c, ns)) :
    c = cs ∧ ns = [] ∨ ∃ x, cs = x ++ c ∧ Suffixes c x (ns.map Node.skeleton) := by
  rcases Expr.reading_many_cases rfl h with ⟨-, rfl, rfl⟩ | ⟨c₁, ns₁, ms, hfirst, hrest, rfl⟩
  · exact .inl ⟨rfl, rfl⟩
  · obtain ⟨x, l, rfl, htext, hns⟩ := suffix_reading hfirst
    refine .inr ?_
    rw [List.map_append, hns]
    rcases suffixes_of_rounds hrest with ⟨rfl, rfl⟩ | ⟨k, y, hy, hk, htail⟩
    · exact ⟨x, rfl, .one htext⟩
    · rw [hy] at htext ⊢
      exact ⟨x ++ (k ++ y), by simp, .cons htext hk htail⟩

/-! ### Blocks -/

theorem nullability_shape {mid : List Char}
    (h : (Expr.opt (.call .nullabilitySpecifier)).shape (skipGap cs) = some (mid, ns)) :
    mid = skipGap cs ∧ ns = [] ∧
        String.ofList (identRun (skipGap cs)) ∉ Rule.nullabilitySpecifier.spellings ∨
      ∃ g w rest, cs = g ++ (w ++ rest) ∧ IsGap g ∧
        String.ofList w ∈ Rule.nullabilitySpecifier.spellings ∧ Ends rest ∧ skipGap rest = mid ∧
        ns = [.token .nullabilitySpecifier w] := by
  rw [shape_opt (solid_skipGap cs), shape_keyword rfl] at h
  by_cases hw : String.ofList (identRun (skipGap cs)) ∈ Rule.nullabilitySpecifier.spellings
  · rw [if_pos hw, Option.getD_some, Option.some.injEq, Prod.mk.injEq] at h
    have hrun := identRun_append_identRest (skipGap cs)
    obtain ⟨g, hg, hgap⟩ := exists_gap_append hrun.symm
      ((nullability_spelling hw).firm.append _).ne_nil
    exact .inr ⟨g, _, _, hg, hgap, hw, ends_identRest _, h.1, h.2.symm⟩
  · rw [if_neg hw, Option.getD_none, Option.some.injEq, Prod.mk.injEq] at h
    exact .inl ⟨h.1.symm, h.2.symm, hw⟩

theorem caret_shape {r : List Char} {ms : List Node} {mid : List Char}
    (hword : (Expr.opt (.call .nullabilitySpecifier)).shape (skipGap cs) = some (mid, ns))
    (hname : (Expr.opt (.call .identifier)).shape mid = some (')' :: r, ms)) :
    ∃ o w i, cs = o ++ ')' :: r ∧ CaretText o w i ∧ ns = Node.optional .nullabilitySpecifier w ∧
      ms = Node.optional .identifier i := by
  have hsolid := solid_of_shape hword
  rw [shape_opt hsolid, shape_identifier] at hname
  have hident : mid = ')' :: r ∧ ms = [] ∨ ∃ i rest, IsIdent i ∧ mid = i ++ rest ∧
      skipGap rest = ')' :: r ∧ ms = [.token .identifier i] := by
    by_cases hstart : startsIdent mid = true
    · rw [if_pos hstart, Option.getD_some, Option.some.injEq, Prod.mk.injEq] at hname
      exact .inr ⟨_, _, isIdent_identRun hstart, (identRun_append_identRest mid).symm, hname.1,
        hname.2.symm⟩
    · rw [if_neg hstart, Option.getD_none, Option.some.injEq, Prod.mk.injEq] at hname
      exact .inl ⟨hname.1, hname.2.symm⟩
  have hoptional : ∀ {q : Rule} {i : List Char}, IsIdent i → [.token q i] = Node.optional q i :=
    fun hi => (Node.optional_of_ne_nil hi.firm.ne_nil).symm
  rcases nullability_shape hword with ⟨rfl, rfl, hno⟩ | ⟨g, w, rest, rfl, hg, hw, hends, hrest, rfl⟩
  · rcases hident with ⟨hclose, rfl⟩ | ⟨i, rest, hi, hmid, hclose, rfl⟩
    · obtain ⟨g, rfl, hg⟩ := exists_gap_append hclose (by simp)
      exact ⟨g, [], [], rfl, .none hg, rfl, rfl⟩
    · obtain ⟨h, rfl, hh⟩ := exists_gap_append hclose (by simp)
      obtain ⟨g, rfl, hg⟩ := exists_gap_append hmid (hi.firm.append _).ne_nil
      rw [hmid, identRun_append hi.chars (hh.ends_cons rfl _)] at hno
      exact ⟨_, [], i, by simp, .name hg hi hno hh, rfl, hoptional hi⟩
  · have hns := hoptional (q := .nullabilitySpecifier) (nullability_spelling hw)
    rcases hident with ⟨rfl, rfl⟩ | ⟨i, rest', hi, rfl, hclose, rfl⟩
    · obtain ⟨h, rfl, hh⟩ := exists_gap_append hrest (by simp)
      exact ⟨_, w, [], by simp, .word hg hw hh, hns, rfl⟩
    · obtain ⟨h, rfl, hh⟩ := exists_gap_append hclose (by simp)
      obtain ⟨k, rfl, hk⟩ := exists_gap_append hrest (hi.firm.append _).ne_nil
      refine ⟨_, w, i, by simp, .both hg hw hk ?_ hi hh, hns, hoptional hi⟩
      -- without a gap the name would go on the word
      rintro rfl
      obtain ⟨c, i, rfl⟩ := List.exists_cons_of_ne_nil hi.firm.ne_nil
      have hc := hi.chars c List.mem_cons_self
      rw [hends c (by simp)] at hc
      simp at hc

/-- Every list of parameters in a text of at most the given length is read again in the same way. -/
def ParametersReread (n : Nat) : Prop :=
  ∀ cs c ns, cs.length ≤ n → (Expr.call .blockParameters).reading .spaced cs = some (c, ns) →
    ∃ p, cs = p ++ c ∧ ParametersText c p (ns.map Node.skeleton)

theorem shape_caret {e : Expr} {r : List Char}
    (h : (Expr.seq (.seq (.literal ['(']) (.literal ['^'])) e).shape cs = some (r, ns)) :
    ∃ g ds, cs = '(' :: (g ++ '^' :: ds) ∧ IsGap g ∧ e.shape (skipGap ds) = some (r, ns) := by
  rw [shape_seq_assoc] at h
  obtain ⟨ds, rfl, hds⟩ := shape_opened h
  obtain ⟨ds', hcaret, he⟩ := shape_opened hds
  obtain ⟨g, rfl, hg⟩ := exists_gap_append hcaret (by simp)
  exact ⟨g, ds', rfl, hg, he⟩

theorem abstractBlock_reading (hp : ParametersReread cs.length)
    (h : (Expr.call .abstractBlockDeclarator).reading .spaced cs = some (c, ns)) :
    ∃ x ms, cs = x ++ c ∧ BlockText c [] x ms ∧
      ns.map Node.skeleton = [.branch .abstractBlockDeclarator ms] := by
  obtain ⟨-, ms, -, hread, rfl⟩ := Rule.reading_branch_eq_some rfl h
  rw [Rule.abstractBlockDeclarator_body, reading_seq, Reading.andThen_eq_some] at hread
  obtain ⟨cs₁, ns₁, ns₂, h₁, h₂, rfl⟩ := hread
  have hle := Nat.le_trans (skipGap_suffix cs₁).length_le (Expr.reading_suffix _ h₁).length_le
  obtain ⟨p, hcs₁, htext⟩ := hp _ _ _ hle h₂
  obtain ⟨q, hq⟩ := htext.opens
  obtain ⟨h, rfl, hh⟩ := exists_gap_append hcs₁ (by simp [hq])
  obtain ⟨g, ds, rfl, hg, hword⟩ := shape_caret (reading_closed h₁)
  obtain ⟨o, w, i, rfl, ho, hns, hi⟩ := caret_shape hword (shape_opt_identifier_close _)
  obtain rfl : i = [] := by
    by_contra hne
    simp [Node.optional_of_ne_nil hne] at hi
  refine ⟨_, _, by simp, .intro hg ho hh htext, ?_⟩
  rw [List.map_singleton, Node.skeleton_branch rfl, List.map_append, hns]
  simp [Node.optional]

theorem direct_block_reading (hp : ParametersReread cs.length)
    (h : namedBlock.reading .spaced cs = some (c, ns)) :
    ∃ x i, cs = x ++ c ∧ BlockText c i x (ns.map Node.skeleton) := by
  rw [namedBlock, reading_seq, Reading.andThen_eq_some] at h
  obtain ⟨cs₁, ns₁, ns₂, h₁, h₂, rfl⟩ := h
  have hle := Nat.le_trans (skipGap_suffix cs₁).length_le (Expr.reading_suffix _ h₁).length_le
  obtain ⟨p, hcs₁, htext⟩ := hp _ _ _ hle h₂
  obtain ⟨q, hq⟩ := htext.opens
  obtain ⟨h, rfl, hh⟩ := exists_gap_append hcs₁ (by simp [hq])
  have hcaret := reading_closed h₁
  rw [shape_seq_assoc] at hcaret
  obtain ⟨g, ds, rfl, hg, hwords⟩ := shape_caret hcaret
  rw [shape_seq, Reading.andThen_eq_some] at hwords
  obtain ⟨mid, ms, ms', hword, hname, hns⟩ := hwords
  obtain ⟨o, w, i, rfl, ho, rfl, rfl⟩ := caret_shape hword hname
  have hblock := BlockText.intro hg ho hh htext
  rw [← hns, ← List.map_append] at hblock
  exact ⟨_, i, by simp, hblock⟩

/-! ### Declarators -/

theorem direct_reading (hp : ParametersReread cs.length)
    (h : (Expr.call .directDeclarator).reading .spaced cs = some (c, ns)) :
    ∃ x r ms, cs = x ++ r ∧ Reaches r c ∧ DirectText r x ms ∧
      ns.map Node.skeleton = [.branch .directDeclarator ms] := by
  obtain ⟨-, ms, -, hread, rfl⟩ := Rule.reading_branch_eq_some rfl h
  rw [List.map_singleton, Node.skeleton_branch rfl]
  rw [Rule.directDeclarator_body, reading_choice, Option.or_eq_some_iff] at hread
  rcases hread with hread | ⟨-, hread⟩
  · rw [reading_seq, Reading.andThen_eq_some, reading_call, Rule.identifier_reading] at hread
    obtain ⟨cs₁, ns₁, ns₂, h₁, h₂, rfl⟩ := hread
    rw [Option.ite_none_right_eq_some, Option.some.injEq, Prod.mk.injEq] at h₁
    obtain ⟨hstart, rfl, rfl⟩ := h₁
    have hident := isIdent_identRun hstart
    have hcs := identRun_append_identRest cs
    rw [List.map_append, List.map_singleton, Node.skeleton_token rfl]
    rcases suffixes_reading h₂ with ⟨rfl, rfl⟩ | ⟨x, hx, hsuffixes⟩
    · exact ⟨_, _, _, hcs.symm, .inr rfl, .name hident, rfl⟩
    · obtain ⟨g, hg, hgap⟩ := exists_gap_append hx (hsuffixes.firm.append c).ne_nil
      rw [hg] at hcs
      exact ⟨_, c, _, by simpa using hcs.symm, .inl rfl, .arrays hident hgap hsuffixes, rfl⟩
  · obtain ⟨x, i, rfl, hblock⟩ := direct_block_reading hp hread
    exact ⟨x, c, _, rfl, .inl rfl, .block hblock, rfl⟩

theorem declarator_reading (hp : ParametersReread cs.length) (hcs : Solid cs)
    (h : (Expr.call .declarator).reading .spaced cs = some (c, ns)) :
    ∃ x r ms, cs = x ++ r ∧ Reaches r c ∧ DeclaratorText r x ms ∧
      ns.map Node.skeleton = [.branch .declarator ms] := by
  obtain ⟨-, ms, -, hread, rfl⟩ := Rule.reading_branch_eq_some rfl h
  rw [Rule.declarator_body, reading_seq, Reading.andThen_eq_some] at hread
  obtain ⟨cs₁, ns₁, ns₂, h₁, h₂, rfl⟩ := hread
  have hle := Nat.le_trans (skipGap_suffix cs₁).length_le (Expr.reading_suffix _ h₁).length_le
  obtain ⟨y, r, ds, hy, hreach, hdirect, hds⟩ :=
    direct_reading (fun cs c ns hn => hp cs c ns (Nat.le_trans hn hle)) h₂
  have hy : skipGap cs₁ = y ++ r := hy
  rw [List.map_singleton, Node.skeleton_branch rfl, List.map_append, hds]
  rw [reading_opt] at h₁
  cases hpointer : (Expr.call .pointer).reading .spaced cs with
  | none =>
    rw [hpointer] at h₁
    obtain ⟨rfl, rfl⟩ := Prod.mk.inj (Option.some.inj h₁)
    rw [hcs.skipGap] at hy
    exact ⟨y, r, _, hy, hreach, .direct hdirect, rfl⟩
  | some z =>
    rw [hpointer] at h₁
    obtain rfl := Option.some.inj h₁
    obtain ⟨x, xs, r₁, rfl, hstars, hxs⟩ := pointer_reading hpointer
    rw [hstars.reaches.skipGap_eq] at hy
    obtain ⟨g, rfl, hg⟩ := exists_gap_append hy (hdirect.firm.append r).ne_nil
    rw [hxs]
    exact ⟨x ++ (g ++ y), r, _,
      by simp, hreach, .stars hstars.stars hg hdirect hstars.apart hstars.word,
      rfl⟩

theorem suffixes1_reading
    (h : (many1 (.call .declaratorSuffix)).reading .spaced cs = some (c, ns)) :
    ∃ x r, cs = x ++ r ∧ Reaches r c ∧ Suffixes r x (ns.map Node.skeleton) := by
  rw [many1, reading_seq, Reading.andThen_eq_some] at h
  obtain ⟨cs₁, ns₁, ns₂, h₁, h₂, rfl⟩ := h
  obtain ⟨x, l, rfl, htext, hns⟩ := suffix_reading h₁
  rw [List.map_append, hns]
  rcases suffixes_reading h₂ with ⟨rfl, rfl⟩ | ⟨y, hy, hsuffixes⟩
  · exact ⟨x, cs₁, rfl, .inr rfl, .one htext⟩
  · obtain ⟨g, rfl, hg⟩ := exists_gap_append hy (hsuffixes.firm.append c).ne_nil
    exact ⟨x ++ (g ++ y), c, by simp, .inl rfl, .cons htext hg hsuffixes⟩

theorem ending_reading {e : Expr} {N : Prop} (hp : ParametersReread cs.length)
    (h : (Expr.choice (.call .abstractBlockDeclarator) e).reading .spaced cs = some (c, ns))
    (he : e.reading .spaced cs = some (c, ns) →
      N ∨ ∃ x r, cs = x ++ r ∧ Reaches r c ∧ Suffixes r x (ns.map Node.skeleton)) :
    N ∨ ∃ x r, cs = x ++ r ∧ Reaches r c ∧ Ending r x (ns.map Node.skeleton) := by
  rw [reading_choice, Option.or_eq_some_iff] at h
  rcases h with h | ⟨-, h⟩
  · obtain ⟨x, ms, rfl, hblock, hns⟩ := abstractBlock_reading hp h
    rw [hns]
    exact .inr ⟨x, c, rfl, .inl rfl, .block hblock⟩
  · rcases he h with hnone | ⟨x, r, hx, hreach, hsuffixes⟩
    · exact .inl hnone
    · exact .inr ⟨x, r, hx, hreach, .arrays hsuffixes⟩

theorem abstract_reading (hp : ParametersReread cs.length)
    (h : (Expr.call .abstractDeclarator).reading .spaced cs = some (c, ns)) :
    ∃ x r ms, cs = x ++ r ∧ Reaches r c ∧ AbstractText r x ms ∧
      ns.map Node.skeleton = [.branch .abstractDeclarator ms] := by
  obtain ⟨-, ms, -, hread, rfl⟩ := Rule.reading_branch_eq_some rfl h
  rw [List.map_singleton, Node.skeleton_branch rfl]
  rw [Rule.abstractDeclarator_body, reading_choice, Option.or_eq_some_iff] at hread
  rcases hread with hread | ⟨-, hread⟩
  · rw [reading_seq, Reading.andThen_eq_some] at hread
    obtain ⟨cs₁, ns₁, ns₂, h₁, h₂, rfl⟩ := hread
    have hle := Nat.le_trans (skipGap_suffix cs₁).length_le (Expr.reading_suffix _ h₁).length_le
    obtain ⟨x, xs, r, rfl, hstars, hxs⟩ := pointer_reading h₁
    rw [List.map_append, hxs]
    rcases ending_reading (N := c = skipGap cs₁ ∧ ns₂ = [])
      (fun cs c ns hn => hp cs c ns (Nat.le_trans hn hle)) h₂ fun h =>
        (suffixes_reading h).imp_right fun ⟨y, hy, hs⟩ => ⟨y, c, hy, .inl rfl, hs⟩ with
      ⟨rfl, rfl⟩ | ⟨y, r', hy, hreach, hending⟩
    · exact ⟨x, r, _, rfl, .inr hstars.reaches.skipGap_eq, .stars hstars.stars, rfl⟩
    · have hy : skipGap cs₁ = y ++ r' := hy
      rw [hstars.reaches.skipGap_eq] at hy
      obtain ⟨g, rfl, hg⟩ := exists_gap_append hy (hending.firm.append r').ne_nil
      exact ⟨x ++ (g ++ y), r', _, by simp, hreach, .both hstars.stars hg hending, rfl⟩
  · rcases ending_reading (N := False) hp hread fun h => .inr (suffixes1_reading h) with
      h | ⟨x, r, rfl, hreach, hending⟩
    · exact h.elim
    · exact ⟨x, r, _, rfl, hreach, .ending hending, rfl⟩

/-! ### Block parameters -/

/-- Where no declarator with a place for a name is read, there is no block. -/
theorem AbstractText.no_block {r x : List Char} (h : AbstractText r x ns) (hr : Stop [',', ')'] r)
    (hnone : (Expr.call .declarator).shape (x ++ r) = none) :
    ∀ m ∈ ns, m.rule ≠ .abstractBlockDeclarator := by
  have hdeclarator : ∀ ms, ¬ DeclaratorText r x ms := by
    intro ms hx
    rw [declarator_spells hx hr r ⟨hr, .refl r⟩] at hnone
    simp at hnone
  have hsuffix : ∀ {y : List Char} {ns : List Node}, Suffixes r y ns →
      ∀ m ∈ ns, m.rule ≠ .abstractBlockDeclarator := fun hy m hm => by simp [hy.rule m hm]
  cases h with
  | stars => simp [Node.rule]
  | ending hx =>
    cases hx with
    | arrays hx => exact hsuffix hx
    | block hx => exact absurd (.direct (.block hx)) (hdeclarator _)
  | both hx hg hy =>
    cases hy with
    | arrays hy => simpa [Node.rule] using hsuffix hy
    | block hy => exact absurd (.of_block hx hg hy) (hdeclarator _)

theorem parameter_reading (hp : ParametersReread cs.length) (hcs : Solid cs)
    (h : (Expr.call .parameterDeclaration).reading .spaced cs = some (c, ns))
    (hc : Stop [',', ')'] c) :
    ∃ x r, cs = x ++ r ∧ Reaches r c ∧ ParameterText r x (ns.map Node.skeleton) := by
  obtain ⟨-, ms, -, hread, rfl⟩ := Rule.reading_branch_eq_some rfl h
  rw [List.map_singleton, Node.skeleton_branch rfl]
  rw [Rule.parameterDeclaration_body, reading_seq, Reading.andThen_eq_some] at hread
  obtain ⟨cs₁, ns₁, ns₂, h₁, h₂, rfl⟩ := hread
  have hle := Nat.le_trans (skipGap_suffix cs₁).length_le (Expr.reading_suffix _ h₁).length_le
  have hp' : ParametersReread (skipGap cs₁).length := fun cs c ns hn =>
    hp cs c ns (Nat.le_trans hn hle)
  obtain ⟨-, bs, -, hbase, rfl⟩ := Rule.reading_branch_eq_some rfl h₁
  have hlist : Rule.specifierQualifierList.body = base := rfl
  rw [hlist] at hbase
  obtain ⟨l, s, t, r₁, ls, m, ts, rfl, rfl, -, -, hparts⟩ :=
    base_reading (specifiersReread _) hcs hbase
  have htext := hparts.text
  have hcs₁ := hparts.reaches.skipGap_eq
  rw [← List.map_singleton, ← List.map_append, ← List.map_append] at htext
  rw [List.map_append, List.map_singleton, Node.skeleton_branch rfl]
  rw [skipBetween, reading_opt] at h₂
  cases hrest : (Expr.choice (.call .declarator) (.call .abstractDeclarator)).reading .spaced
      (skipGap cs₁) with
  | none =>
    rw [hrest] at h₂
    obtain ⟨rfl, rfl⟩ := Prod.mk.inj (Option.some.inj h₂)
    exact ⟨l ++ (s ++ t), r₁, by simp, .inr hcs₁, parameterText_base htext.spelling r₁⟩
  | some y =>
    rw [hrest] at h₂
    obtain rfl := Option.some.inj h₂
    rw [reading_choice, Option.or_eq_some_iff] at hrest
    rcases hrest with hdeclarator | ⟨hnone, habstract⟩
    · obtain ⟨y, r, ms, hy, hreach, hdeclarator, hms⟩ :=
        declarator_reading hp' (solid_skipGap cs₁) hdeclarator
      have hr : Stop [',', ')'] r := by rwa [Stop, hreach.skipGap_eq] at hc
      rw [hcs₁] at hy
      obtain ⟨g, rfl, hg⟩ := exists_gap_append hy (hdeclarator.firm.append r).ne_nil
      rw [hms]
      exact ⟨l ++ (s ++ t) ++ (g ++ y), r, by simp, hreach, parameterText_declarator
        (firm_of_startsIdent htext.start) htext.spells hg hdeclarator hr⟩
    · obtain ⟨y, r, ms, hy, hreach, habstract, hms⟩ := abstract_reading hp' habstract
      have hr : Stop [',', ')'] r := by rwa [Stop, hreach.skipGap_eq] at hc
      rw [← shape_eq_none, hy] at hnone
      rw [hcs₁] at hy
      obtain ⟨g, rfl, hg⟩ := exists_gap_append hy (habstract.firm.append r).ne_nil
      rw [hms]
      exact ⟨l ++ (s ++ t) ++ (g ++ y), r, by simp, hreach, parameterText_abstract
        htext.spelling hg habstract (habstract.no_block hr hnone)⟩

theorem dots_shape (hcs : Solid cs) (h : (Expr.opt dots).shape cs = some (')' :: c, ns)) :
    ns = [] ∧ ∃ v, cs = v ++ ')' :: c ∧ DotsText v := by
  rw [shape_opt hcs] at h
  cases hdots : dots.shape cs with
  | none =>
    rw [hdots, Option.getD_none, Option.some.injEq, Prod.mk.injEq] at h
    exact ⟨h.2.symm, [], h.1, .none⟩
  | some y =>
    rw [hdots, Option.getD_some] at h
    obtain rfl := Option.some.inj h
    obtain ⟨ds, rfl, hds⟩ := shape_opened hdots
    rw [shape_literal, Option.ite_none_right_eq_some, Option.some.injEq, Prod.mk.injEq] at hds
    obtain ⟨⟨rest, hrest⟩, hclose, rfl⟩ := hds
    obtain ⟨k, rfl, hk⟩ := exists_gap_append hrest.symm (by simp)
    rw [← hrest, List.drop_left] at hclose
    obtain ⟨j, rfl, hj⟩ := exists_gap_append hclose (by simp)
    exact ⟨rfl, _, by simp, .three hk hj⟩

theorem parameters_reading (hp : ∀ n, n < cs.length → ParametersReread n)
    (h : (Expr.call .blockParameters).reading .spaced cs = some (c, ns)) :
    ∃ p, cs = p ++ c ∧ ParametersText c p (ns.map Node.skeleton) := by
  obtain ⟨-, ms, -, hread, rfl⟩ := Rule.reading_branch_eq_some rfl h
  rw [Rule.blockParameters_body, enclosed] at hread
  obtain ⟨ds, rfl, hlist⟩ := shape_opened (reading_closed hread)
  rw [List.map_singleton, Node.skeleton_branch rfl]
  rw [shape_opt (solid_skipGap ds)] at hlist
  cases hall : (Expr.seq (sepBy (.call .parameterDeclaration)) (.opt dots)).shape (skipGap ds) with
  | none =>
    rw [hall, Option.getD_none, Option.some.injEq, Prod.mk.injEq] at hlist
    obtain ⟨g, rfl, hg⟩ := exists_gap_append hlist.1 (by simp)
    rw [← hlist.2]
    exact ⟨_, by simp, parametersText_none hg c⟩
  | some y =>
    rw [hall, Option.getD_some] at hlist
    obtain rfl := Option.some.inj hlist
    rw [shape_seq, Reading.andThen_eq_some] at hall
    obtain ⟨cs₁, ns₁, ns₂, h₁, h₂, hms⟩ := hall
    obtain ⟨rfl, v, rfl, hv⟩ := dots_shape (solid_of_shape h₁) h₂
    have hend : Stop [',', ')'] (v ++ ')' :: c) := (hv.stop IsGap.nil c).2
    have hlen : (skipGap ds).length < ('(' :: ds).length := by
      have := (skipGap_suffix ds).length_le
      simp only [List.length_cons]
      omega
    obtain ⟨xs, x, r, hx, hr, hsep⟩ :=
      Separated.of_shape (Q := ParameterText) (P := Stop [',', ')'])
      (fun ds => stop_cons IsGap.nil ⟨',', rfl, rfl, by decide⟩ (by simp)) (fun _ _ _ hx => hx.firm)
      (n := (skipGap ds).length)
      (fun ds ds' ns hn hsolid hparameter hstop => by
        obtain ⟨⟨c, ms⟩, hread, hy⟩ := Option.map_eq_some_iff.mp hparameter
        obtain ⟨rfl, rfl⟩ := Prod.mk.inj hy
        have hstop : Stop [',', ')'] c := by rwa [Stop, skipGap_skipGap] at hstop
        obtain ⟨x, r, rfl, hreach, hx⟩ := parameter_reading (hp _ (by omega)) hsolid hread hstop
        exact ⟨x, r, rfl, hreach.skipGap_eq.symm, hx⟩)
      (Nat.le_refl _) (solid_skipGap ds) h₁ hend
    obtain ⟨h, rfl, hh⟩ := exists_gap_append hr (by simp)
    obtain ⟨g, rfl, hg⟩ :=
      exists_gap_append hx ((hsep.firm fun _ _ _ hx => hx.firm).append _).ne_nil
    rw [hms, List.append_nil]
    exact ⟨_, by simp, parametersText_list hsep hg hh hv⟩

theorem parametersReread (n : Nat) : ParametersReread n := by
  induction n using Nat.strongRecOn with
  | ind n ih =>
    intro cs c ns hn h
    exact parameters_reading (fun k hk => ih k (by omega)) h

end HeaderBridge.Grammar
