import HeaderBridge.Proofs.Grammar.Trimming

/-! # Texts that are put together again

The words around a type are read in the same way when single blanks stand between
them, and the brackets of an array when nothing does.
-/

namespace HeaderBridge.Grammar

open HeaderBridge.Grammar.Expr

variable {cs zs : List Char}

/-! ### Blanks between words -/

theorem intercalate_cons (w : List Char) (ws : List (List Char)) :
    List.intercalate [' '] (w :: ws) = w ++ ws.flatMap (' ' :: ·) := by
  induction ws generalizing w with
  | nil => simp
  | cons v ws ih =>
    rw [List.intercalate_cons_cons, ih]
    simp

theorem flatMap_blank (ws : List (List Char)) :
    ws.flatMap (' ' :: ·) ++ [' '] = ' ' :: ws.flatMap (· ++ [' ']) := by
  induction ws with
  | nil => rfl
  | cons w ws ih =>
    rw [List.flatMap_cons, List.flatMap_cons, List.append_assoc, ih]
    simp

theorem intercalate_around (vs : List (List Char)) (s : List Char) (ws : List (List Char)) :
    List.intercalate [' '] (vs ++ s :: ws) =
      vs.flatMap (· ++ [' ']) ++ (s ++ ws.flatMap (' ' :: ·)) := by
  cases vs with
  | nil => exact intercalate_cons s ws
  | cons v vs =>
    have hblank := congrArg (· ++ (s ++ ws.flatMap (' ' :: ·))) (flatMap_blank vs)
    rw [List.cons_append, intercalate_cons, List.flatMap_append, List.flatMap_cons,
      List.flatMap_cons]
    simpa using hblank

theorem Node.toList_text_mk (r : Rule) (s : Nat) (x : List Char) (ns : List Node) :
    (Node.mk r s (.ofList x) ns).text.toList = x :=
  String.toList_ofList

theorem Words.joined {x : List Char} {ns : List Node} (h : Words x ns) :
    ∃ w ws, ns.map (·.text.toList) = w :: ws ∧ Words (w ++ ws.flatMap (' ' :: ·)) ns := by
  induction h with
  | @one w r hr =>
    exact ⟨w, [], by rw [List.map_singleton, Node.toList_text_mk], by simpa using Words.one hr⟩
  | @cons w g y r ns hr hg hne hy ih =>
    obtain ⟨v, vs, hns, hwords⟩ := ih
    refine ⟨w, v :: vs, by rw [List.map_cons, Node.toList_text_mk, hns], ?_⟩
    simpa using Words.cons hr IsGap.blank (by simp) hwords

theorem Lead.joined {l : List Char} {ns : List Node} (h : Lead l ns) :
    Lead ((ns.map (·.text.toList)).flatMap (· ++ [' '])) ns := by
  cases h with
  | none => exact .none
  | words hw hg hne =>
    obtain ⟨w, ws, hns, hwords⟩ := hw.joined
    have hlead := Lead.words hwords IsGap.blank (by simp)
    rw [List.append_assoc, flatMap_blank] at hlead
    rw [hns, List.flatMap_cons, List.append_assoc]
    exact hlead

theorem Trail.joined {t : List Char} {ns : List Node} (h : Trail t ns) :
    Trail ((ns.map (·.text.toList)).flatMap (' ' :: ·)) ns := by
  cases h with
  | none => exact .none
  | words hg hw =>
    obtain ⟨w, ws, hns, hwords⟩ := hw.joined
    have htrail := Trail.words IsGap.blank hwords
    rw [hns, List.flatMap_cons]
    simpa using htrail

/-! ### A base with its words joined -/

theorem NoMore.trans {q r : List Char} (h : NoMore q r) (h' : NoMore r zs) : NoMore q zs :=
  ⟨h'.ends ∘ h.ends, h'.scalar ∘ h.scalar, h'.word ∘ h.word, h'.ident ∘ h.ident⟩

theorem SpecifierText.mono {q r s : List Char} {ns : List Node} (h : SpecifierText q s ns)
    (hr : NoMore q r) : SpecifierText r s ns :=
  ⟨h.start, h.spells.mono fun _ hz => ⟨hr.trans hz.1, hz.2⟩, fun zs hz => h.run zs (hr.trans hz),
    h.busy, h.neat⟩

theorem Trail.noMore_joined {t r : List Char} {ns : List Node} (h : Trail t ns) (hr : Apart t r) :
    NoMore (t ++ r) ((ns.map (·.text.toList)).flatMap (' ' :: ·)) := by
  cases h with
  | none => exact Stop.noMore (S := []) (by simp) (stop_nil skipGap_nil) r
  | @words g w ns hg hw =>
    obtain ⟨v, vs, hns, hwords⟩ := hw.joined
    have hends : Ends r := by
      obtain ⟨c, hc, hident⟩ := hw.getLast
      refine hr c ?_ hident
      rw [Option.mem_def] at hc ⊢
      rw [List.getLast?_append, hc]
      rfl
    have hmore := Words.noMore hw hg hwords IsGap.blank hends Ends.nil
      fun _ => IsGap.blank.ends (by simp) _
    rw [hns, List.flatMap_cons, List.append_assoc]
    simpa using hmore

theorem BaseParts.joined {l s t r c : List Char} {lns sns tns : List Node}
    (h : BaseParts l s t r c lns sns tns) :
    BaseSpelling ((lns.map (·.text.toList)).flatMap (· ++ [' ']) ++
      (s ++ (tns.map (·.text.toList)).flatMap (' ' :: ·))) (lns ++ sns ++ tns) := by
  have hspecifier := h.specifier.mono (h.trail.noMore_joined h.apart)
  have hword : NoWord [] := (stop_nil (S := []) skipGap_nil).noWord (by simp)
  have hparts : BaseParts _ s _ [] [] lns sns tns :=
    ⟨h.lead.joined,
      by simpa using hspecifier, h.trail.joined, .inl rfl, fun _ _ _ => Ends.nil, hword, h.name⟩
  exact hparts.text.spelling

/-! ### Brackets without gaps between them -/

theorem SuffixText.mono {q r x l : List Char} (h : SuffixText q x l) (hr : StaysOpen q r) :
    SuffixText r x l := by
  cases h with
  | intro hg hl hsolid => exact .intro hg hl (solid_append hsolid hr (by decide) (by decide))

theorem StaysOpen.trans {q r : List Char} (h : StaysOpen q r) (h' : StaysOpen r zs) :
    StaysOpen q zs :=
  fun u hu => h' u (h u hu)

theorem ParametersText.mono {q r p : List Char} {ns : List Node} (h : ParametersText q p ns)
    (hr : StaysOpen q r) : ParametersText r p ns :=
  ⟨h.brackets, h.spells.mono fun _ hz => hr.trans hz⟩

theorem staysOpen_bracket (g y : List Char) : StaysOpen (g ++ '[' :: y) ('[' :: y) := by
  intro u hu
  rw [afterBlock_eq_none] at hu ⊢
  rintro ⟨s, t, hst⟩
  rw [List.append_assoc] at hst
  apply hu
  rcases List.append_eq_append_iff.mp hst with ⟨v, rfl, hv⟩ | ⟨v, rfl, hv⟩
  · -- the end of the comment stands in front of the bracket, or right across it
    match v, hv with
    | [], hv => simp at hv
    | [c], hv => simp at hv
    | c :: d :: v, hv =>
      obtain ⟨rfl, rfl, rfl⟩ : '*' = c ∧ '/' = d ∧ t = v ++ '[' :: y := by simpa using hv
      exact ⟨s, v ++ (g ++ '[' :: y), by simp⟩
  · cases v with
    | nil => simp at hv
    | cons c v =>
      obtain ⟨rfl, rfl⟩ : '[' = c ∧ y = v ++ ('*' :: '/' :: t) := by simpa using hv
      exact ⟨u ++ (g ++ '[' :: v), t, by simp⟩

def joinTexts (ms : List Node) : List Char := ms.flatMap (·.text.toList)

theorem joined_of_rounds {c : List Char} {ms : List Node}
    (h : Expr.Rounds (.call .declaratorSuffix) cs c ms) : StaysOpen cs (joinTexts ms) ∧
      (ms = [] ∨ Suffixes [] (joinTexts ms) (ms.map Node.skeleton)) := by
  induction h with
  | @done cs => exact ⟨staysOpen_nil cs, .inl rfl⟩
  | @more cs cs₁ c ns₁ ms h _ ih =>
    obtain ⟨x, l, hx, htext, hns⟩ := suffix_reading h
    obtain ⟨x', ms', hx', -, rfl⟩ := Rule.reading_branch_eq_some rfl h
    obtain rfl : x = x' := List.append_cancel_right (hx.symm.trans hx')
    obtain ⟨hopen, hmore⟩ := ih
    have hjoin : joinTexts (.mk .declaratorSuffix 0 (.ofList x) ms' :: ms) = x ++ joinTexts ms := by
      rw [joinTexts, List.flatMap_cons, Node.toList_text_mk, joinTexts]
    rw [List.singleton_append, hjoin]
    refine ⟨?_, .inr ?_⟩
    · obtain ⟨y, rfl⟩ := htext.exists_cons
      obtain ⟨g, rfl, -⟩ := exists_gap_append hx (by simp)
      exact (staysOpen_bracket g (y ++ cs₁)).trans ((hopen.append y).cons '[')
    · have htext' := htext.mono hopen
      rw [List.map_cons, (List.cons.inj hns).1]
      rcases hmore with rfl | hmore
      · simpa [joinTexts] using Suffixes.one htext'
      · have hcons := Suffixes.cons (g := []) (by simpa using htext') IsGap.nil hmore
        simpa using hcons

@[simp] theorem Expr.skipBetween_nil (mode : Mode) : skipBetween mode [] = [] := by
  cases mode with
  | tight => rfl
  | spaced => exact skipGap_nil

@[simp] theorem Expr.skipBetween_skipBetween (mode : Mode) (cs : List Char) :
    skipBetween mode (skipBetween mode cs) = skipBetween mode cs := by
  cases mode with
  | tight => rfl
  | spaced => exact skipGap_skipGap cs

theorem Expr.reading_many_eq_rounds {mode : Mode} {a : Expr} (ha : a.mayBeEmpty = false)
    (hcs : skipBetween mode cs = cs) : (many a).reading mode cs =
      some (readRounds (fun cs => a.reading mode (skipBetween mode cs)) cs []) := by
  rw [reading_many]
  cases h : a.reading mode cs with
  | none => rw [readRounds_of_none (by rw [hcs, h])]
  | some y =>
    rw [readRounds_of_some (by rw [hcs, h]) (Expr.reading_length_lt a ha h), List.nil_append]

end HeaderBridge.Grammar
