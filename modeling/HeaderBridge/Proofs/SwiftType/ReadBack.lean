import HeaderBridge.Proofs.SwiftType.ReadNames

/-! # Reading Swift types back

Every legible type is read back from its text, so legible types with the same text are
the same: no parentheses, brackets, attributes or arrows make two of them read alike.
-/

namespace HeaderBridge.SwiftType

open TextReader

variable {n : Nat} {d : UInt64} {r : List Char} {inner : TextReader SwiftType}

/-! ### Types in brackets and parentheses -/

theorem readHead_array (h : ReadsBack n inner) {t : SwiftType} (hl : t.isLegible = true)
    (hn : t.levels ≤ n) :
    readHead inner (("[" ++ renderWithin none d t ++ "]").toList ++ r) = some (array t, r) := by
  have hread := h.render (d := d) hl hn (r := ']' :: r) (closing_cons (by decide))
  have htext : ("[" ++ renderWithin none d t ++ "]").toList ++ r =
      '[' :: ((renderWithin none d t).toList ++ ']' :: r) := by simp
  have hbrackets : readBrackets inner ((renderWithin none d t).toList ++ ']' :: r) =
      some (array t, r) := by
    simp only [readBrackets, hread, behind?_singleton, bind, Option.bind, pure]
  rw [htext, readHead, readParens_of_head?_ne (by simp) (by simp), behind?_singleton,
    Option.bind_some, hbrackets]
  rfl

theorem readHead_dictionary (h : ReadsBack n inner) {t u : SwiftType} (hlt : t.isLegible = true)
    (hlu : u.isLegible = true) (hnt : t.levels ≤ n) (hnu : u.levels ≤ n) :
    readHead inner
      (("[" ++ renderWithin none d t ++ ": " ++ renderWithin none d u ++ "]").toList ++ r) =
        some (dictionary t u, r) := by
  have hvalue := h.render (d := d) hlu hnu (r := ']' :: r) (closing_cons (by decide))
  have hkey := h.render (d := d) hlt hnt
    (r := ':' :: ' ' :: ((renderWithin none d u).toList ++ ']' :: r)) (closing_cons (by decide))
  have htext : ("[" ++ renderWithin none d t ++ ": " ++ renderWithin none d u ++ "]").toList ++ r =
      '[' ::
        ((renderWithin none d t).toList ++ ':' :: ' ' ::
          ((renderWithin none d u).toList ++ ']' :: r)) := by
    simp
  have hcolon : behind? [':', ' '] (':' :: ' ' :: ((renderWithin none d u).toList ++ ']' :: r)) =
      some ((renderWithin none d u).toList ++ ']' :: r) := behind?_append [':', ' '] _
  have hbrackets : readBrackets inner
      ((renderWithin none d t).toList ++ ':' :: ' ' ::
        ((renderWithin none d u).toList ++ ']' :: r)) =
        some (dictionary t u, r) := by
    have hclose : behind? [']'] (':' :: ' ' :: ((renderWithin none d u).toList ++ ']' :: r)) =
        none :=
      behind?_of_head?_ne (by simp)
    simp only [readBrackets, hkey, hclose, hcolon, hvalue, behind?_singleton, bind, Option.bind,
      pure]
  rw [htext, readHead, readParens_of_head?_ne (by simp) (by simp), behind?_singleton,
    Option.bind_some, hbrackets]
  rfl

theorem readElements_render (h : ReadsBack n inner) {ts : List SwiftType}
    (hl : allLegible ts = true) (hn : levelsAll ts ≤ n) :
    readElements inner ((", ".intercalate (renderAll none d ts)).toList ++ ')' :: r) =
      some (ts, r) := by
  cases ts with
  | nil =>
    have hnone : separated inner [',', ' '] (')' :: r) = none := by
      rw [separated, h.close]
      rfl
    have htext : (", ".intercalate (renderAll none d [])).toList ++ ')' :: r = ')' :: r := rfl
    rw [htext, readElements, hnone]
    simp only [Option.getD_none, behind?_singleton, bind, Option.bind, pure]
  | cons t ts =>
    have hread := h.separated (d := d) (r := ')' :: r) (List.cons_ne_nil t ts) hl hn
      (closing_cons (by decide)) (by simp)
    rw [readElements, hread]
    simp only [Option.getD_some, behind?_singleton, bind, Option.bind, pure]

/-! ### Attributes -/

theorem eq_of_prefix_blank {p q : List Char} (hp : ' ' ∉ p) (hq : ' ' ∉ q)
    (h : p ++ [' '] <+: q ++ ' ' :: r) : p = q := by
  have hword : ∀ {l : List Char} (t : List Char), ' ' ∉ l →
      (l ++ ' ' :: t).takeWhile (· ≠ ' ') = l := by
    intro l t hl
    have hall : ∀ c ∈ l, decide (c ≠ ' ') = true := by
      intro c hc
      exact decide_eq_true fun heq => hl (heq ▸ hc)
    rw [List.takeWhile_append_of_pos hall]
    simp
  obtain ⟨t, ht⟩ := h
  rw [List.append_assoc, List.singleton_append] at ht
  rw [← hword t hp, ht, hword r hq]

theorem behind?_text_of_ne {a b : BlockAttribute} (h : a ≠ b) (r : List Char) :
    behind? (a.text.toList ++ [' ']) (b.text.toList ++ ' ' :: r) = none := by
  have hmem : ∀ a : BlockAttribute, a ∈ BlockAttribute.all := by
    intro a
    rcases a with _ | _ | (_ | _ | _) <;> decide
  have hblank : ∀ a ∈ BlockAttribute.all, ' ' ∉ a.text.toList := by decide
  have hne : ∀ a ∈ BlockAttribute.all, ∀ b ∈ BlockAttribute.all, a ≠ b → a.text ≠ b.text := by
    decide
  refine if_neg fun hprefix => hne a (hmem a) b (hmem b) h ?_
  exact String.toList_injective (eq_of_prefix_blank (hblank a (hmem a)) (hblank b (hmem b)) hprefix)

theorem readAttributes_filter {as : List BlockAttribute} (has : as.Nodup)
    (p : BlockAttribute → Bool) (r : List Char) : readAttributes as
      ((String.join (((as.filter p).map BlockAttribute.text).map (· ++ " "))).toList ++ '(' :: r) =
        ((as.filter p).foldr (fun a s => s.insert a) .empty, '(' :: r) := by
  induction as with
  | nil => rfl
  | cons a as ih =>
    obtain ⟨ha, has⟩ := List.nodup_cons.mp has
    cases hp : p a with
    | true =>
      have htext :
          (String.join ((((a :: as).filter p).map BlockAttribute.text).map (· ++ " "))).toList
          ++ '(' :: r = (a.text.toList ++ [' ']) ++
            ((String.join (((as.filter p).map BlockAttribute.text).map (· ++ " "))).toList ++ '(' ::
              r) := by
        simp [hp, String.join_cons]
      rw [htext, readAttributes, behind?_append]
      simp only [ih has, List.filter_cons_of_pos hp, List.foldr_cons, Prod.map_apply, id]
    | false =>
      have hfilter : (a :: as).filter p = as.filter p := List.filter_cons_of_neg (by simp [hp])
      have hnone : behind? (a.text.toList ++ [' '])
          ((String.join (((as.filter p).map BlockAttribute.text).map (· ++ " "))).toList ++ '(' ::
            r) =
            none := by
        cases hbs : as.filter p with
        | nil =>
          obtain ⟨q, hq⟩ := exists_text_eq a
          rw [hq]
          exact behind?_of_head?_ne (by simp [String.join])
        | cons b bs =>
          have hb : b ∈ as := (List.mem_filter.mp (hbs ▸ List.mem_cons_self)).1
          have htext : (String.join (((b :: bs).map BlockAttribute.text).map (· ++ " "))).toList ++
              '(' :: r = b.text.toList ++ ' ' ::
                ((String.join ((bs.map BlockAttribute.text).map (· ++ " "))).toList ++ '(' ::
                  r) := by
            simp [String.join_cons]
          have hne : a ≠ b := by
            rintro rfl
            exact ha hb
          rw [htext, behind?_text_of_ne hne]
      rw [hfilter, readAttributes, hnone]
      exact ih has

theorem readAttributes_texts (as : BlockAttributes) (r : List Char) :
    readAttributes BlockAttribute.alphabetical
      ((String.join (as.texts.map (· ++ " "))).toList ++ '(' :: r) = (as, '(' :: r) := by
  have hset : (BlockAttribute.alphabetical.filter as.contains).foldr (fun a s => s.insert a)
      .empty =
      as := by
    obtain ⟨a, b, c, d, e⟩ := as
    cases a <;> cases b <;> cases c <;> cases d <;> cases e <;> rfl
  rw [BlockAttributes.texts, readAttributes_filter (by decide), hset]

/-! ### Function types and tuples -/

theorem readParens_render (h : ReadsBack n inner) (as : BlockAttributes) {ts : List SwiftType}
    (hl : allLegible ts = true) (hn : levelsAll ts ≤ n) (r : List Char) :
    readParens inner
    ((String.join (as.texts.map (· ++ " ")) ++ tupleText (renderAll none d ts)).toList ++ r)
      = (behind? [' ', '-', '>', ' '] r).elim (some (ofElements ts, r)) fun r =>
        (inner r).map fun y => (block y.1 ts as, y.2) := by
  have helements := readElements_render (d := d) (r := r) h hl hn
  have htext : (String.join (as.texts.map (· ++ " ")) ++ tupleText (renderAll none d ts)).toList ++
      r =
      (String.join (as.texts.map (· ++ " "))).toList ++
        '(' :: ((", ".intercalate (renderAll none d ts)).toList ++ ')' :: r) := by
    simp [tupleText]
  simp only [htext, readParens, readAttributes_texts, behind?_singleton, helements, bind,
    Option.bind]
  cases behind? [' ', '-', '>', ' '] r with
  | none => rfl
  | some r =>
    cases hread : inner r with
    | none => simp [hread]
    | some y => simp [hread]

theorem readHead_block (h : ReadsBack n inner) {result : SwiftType} {ps : List SwiftType}
    (as : BlockAttributes) (hl : (block result ps as).isLegible = true)
    (hn : (block result ps as).levels ≤ n + 1) (hr : Closing r) :
    readHead inner ((renderWithin none d (block result ps as)).toList ++ r) =
      some (block result ps as, r) := by
  simp only [isLegible, Bool.and_eq_true] at hl
  simp only [levels, Nat.add_le_add_iff_right, Nat.max_le] at hn
  have hparens := readParens_render (d := d + 1) h as hl.2 hn.2
    (' ' :: '-' :: '>' :: ' ' :: ((renderWithin none (d + 1) result).toList ++ r))
  have harrow : behind? [' ', '-', '>', ' ']
      (' ' :: '-' :: '>' :: ' ' :: ((renderWithin none (d + 1) result).toList ++ r)) =
        some ((renderWithin none (d + 1) result).toList ++ r) :=
          behind?_append [' ', '-', '>', ' '] _
  have htext : (renderWithin none d (block result ps as)).toList ++ r =
      (String.join (as.texts.map (· ++ " ")) ++ tupleText (renderAll none (d + 1) ps)).toList ++
        ' ' :: '-' :: '>' :: ' ' :: ((renderWithin none (d + 1) result).toList ++ r) := by
    simp [renderWithin, limited, blockText]
  rw [harrow, Option.elim_some, h.render hl.1 hn.1 hr] at hparens
  rw [htext, readHead, hparens]
  rfl

theorem readHead_elements (h : ReadsBack n inner) {ts : List SwiftType} (hl : allLegible ts = true)
    (hn : levelsAll ts ≤ n) (hr : Tail r) :
    readHead inner ((tupleText (renderAll none d ts)).toList ++ r) = some (ofElements ts, r) := by
  have hparens := readParens_render (d := d) h .empty hl hn r
  rw [behind?_of_head?_ne (hr.head?_ne (by decide))] at hparens
  have htext : String.join (BlockAttributes.empty.texts.map (· ++ " ")) ++
      tupleText (renderAll none d ts) =
      tupleText (renderAll none d ts) := String.empty_append
  rw [htext] at hparens
  rw [readHead, hparens]
  rfl

/-! ### All types -/

theorem collectionText_cases (s : String) (ts : List SwiftType) (d : UInt64) :
    (∃ t, s = "Array" ∧ ts = [t] ∧
      collectionText s (renderAll none d ts) = "[" ++ renderWithin none d t ++ "]") ∨
    (∃ t u, s = "Dictionary" ∧ ts = [t, u] ∧ collectionText s (renderAll none d ts) =
      "[" ++ renderWithin none d t ++ ": " ++ renderWithin none d u ++ "]") ∨
    collectionText s (renderAll none d ts) = genericText s (renderAll none d ts) := by
  match ts with
  | [] => exact .inr (.inr rfl)
  | [t] =>
    by_cases hs : s = "Array"
    · exact .inl ⟨t, hs, rfl, if_pos hs⟩
    · exact .inr (.inr (if_neg hs))
  | [t, u] =>
    by_cases hs : s = "Dictionary"
    · exact .inr (.inl ⟨t, u, hs, rfl, if_pos hs⟩)
    · exact .inr (.inr (if_neg hs))
  | _ :: _ :: _ :: _ => exact .inr (.inr rfl)

theorem readHead_nominal (h : ReadsBack n inner) {t : Nominal} (hl : t.isLegible = true)
    (hn : t.levels ≤ n) (hr : Tail r) :
    readHead inner ((renderWithin none d (nominal t)).toList ++ r) = some (nominal t, r) := by
  have hread : readHead inner ((renderNominal none d t).toList ++ r) = some (nominal t, r) := by
    have hvoid : t.name ≠ "Void" := by
      cases t with
      | plain s => exact (isName_iff.mp hl).2.2.1
      | generic s ts =>
        simp only [Nominal.isLegible, Bool.and_eq_true] at hl
        exact (isName_iff.mp hl.1.1.1).2.2.1
    have hread := readHead_component (c := .nominal t)
      (fun r hr => readComponent_render h hl hn hr) (beginsName_nominal (d := d) hl) hr
    rwa [ofComponents, if_neg hvoid] at hread
  cases t with
  | plain s => exact hread
  | generic s ts =>
    simp only [Nominal.isLegible, Bool.and_eq_true, Bool.not_eq_true'] at hl
    obtain ⟨⟨-, herased⟩, hts⟩ := hl
    rw [renderNominal, herased] at hread
    rw [Nominal.levels, herased, if_neg Bool.false_ne_true] at hn
    rw [renderWithin, limited, herased, if_neg Bool.false_ne_true]
    rcases collectionText_cases s ts d with ⟨t, rfl, rfl, htext⟩ | ⟨t, u, rfl, rfl, htext⟩ | htext
    · rw [allLegible_iff, List.forall_mem_singleton] at hts
      rw [htext]
      exact readHead_array h hts (levelsAll_le.mp hn t List.mem_cons_self)
    · have hn := levelsAll_le.mp hn
      simp only [allLegible_iff, List.forall_mem_cons] at hts hn
      rw [htext]
      exact readHead_dictionary h hts.1 hts.2.1 hn.1 hn.2.1
    · rw [htext]
      exact hread

theorem readHead_nested (h : ReadsBack n inner) {a b : Nominal} {rest : List Nominal}
    (hl : (nested a b rest).isLegible = true) (hn : (nested a b rest).levels ≤ n + 1)
    (hr : Tail r) :
    readHead inner ((renderWithin none d (nested a b rest)).toList ++ r) =
      some (nested a b rest, r) :=
  readHead_component (c := .nested a b rest)
    (fun _ hr => readComponent_render h hl (Nat.le_of_succ_le_succ hn) hr)
    (beginsName_component (t := .nested a b rest) hl) hr

theorem readHead_tuple (h : ReadsBack n inner) {ts : List SwiftType}
    (hl : (tuple ts).isLegible = true) (hn : (tuple ts).levels ≤ n + 1) (hr : Tail r) :
    readHead inner ((renderWithin none d (tuple ts)).toList ++ r) = some (tuple ts, r) := by
  simp only [isLegible, Bool.and_eq_true, decide_eq_true_eq] at hl
  have hread := readHead_elements (d := d) h hl.2 (Nat.le_of_succ_le_succ hn) hr
  rw [renderWithin, limited, hread]
  rcases ts with _ | ⟨t, _ | ⟨u, ts⟩⟩
  · simp at hl
  · simp at hl
  · rfl

theorem readHead_parenthesized (h : ReadsBack n inner) {t : SwiftType} (hl : t.isLegible = true)
    (hn : t.levels ≤ n) (hr : Tail r) :
    readHead inner ((parenthesized true (renderWithin none d t)).toList ++ r) = some (t, r) := by
  have hread :=
    readHead_elements (d := d) (r := r) h (allLegible_iff.mpr (List.forall_mem_singleton.mpr hl))
    (levelsAll_le.mpr (List.forall_mem_singleton.mpr hn)) hr
  rwa [renderAll, renderAll, tupleText, String.intercalate_singleton] at hread

/-- The levels that a type may have before a postfix: parentheses take one more. -/
def roomFor (t : SwiftType) (n : Nat) : Nat := if t.needsParens then n else n + 1

theorem le_roomFor {t : SwiftType} (h : t.levels ≤ n) : t.levels ≤ t.roomFor n := by
  unfold roomFor
  split
  · exact h
  · exact Nat.le_succ_of_le h

theorem readHead_postfixes (h : ReadsBack n inner) : ∀ (t : SwiftType) {r : List Char},
    t.isLegible = true → t.levels ≤ t.roomFor n → Tail r →
    ∃ y, readHead inner ((parenthesized t.needsParens (renderWithin none d t)).toList ++ r) =
      some y ∧
      readPostfixes y.1 y.2 = readPostfixes t r
  | nominal t, r, hl, hn, hr => ⟨_, readHead_nominal h hl (Nat.le_of_succ_le_succ hn) hr, rfl⟩
  | nested a b rest, r, hl, hn, hr => ⟨_, readHead_nested h hl hn hr, rfl⟩
  | void, r, _, _, hr => ⟨_, readHead_void hr, rfl⟩
  | tuple ts, r, hl, hn, hr => ⟨_, readHead_tuple h hl hn hr, rfl⟩
  | block _ _ _, _, hl, hn, hr | composition _, _, hl, hn, hr =>
    ⟨_, readHead_parenthesized h hl hn hr, rfl⟩
  -- with the postfix put to what follows, the wrapped type is read
  | optional t, r, hl, hn, hr => by
    obtain ⟨y, hread, hpost⟩ := readHead_postfixes h t (r := '?' :: r) hl
      (le_roomFor (Nat.le_of_succ_le_succ hn)) (.optional hr)
    refine ⟨y, ?_, hpost⟩
    rw [← hread]
    simp [parenthesized, needsParens, renderWithin, limited]
  | implicitlyUnwrapped t, r, hl, hn, hr => by
    obtain ⟨y, hread, hpost⟩ := readHead_postfixes h t (r := '!' :: r) hl
      (le_roomFor (Nat.le_of_succ_le_succ hn)) (.implicitlyUnwrapped hr)
    refine ⟨y, ?_, hpost⟩
    rw [← hread]
    simp [parenthesized, needsParens, renderWithin, limited]
  | metatype t, r, hl, hn, hr => by
    obtain ⟨y, hread, hpost⟩ := readHead_postfixes h t
      (r := '.' :: 'T' :: 'y' :: 'p' :: 'e' :: r) hl (le_roomFor (Nat.le_of_succ_le_succ hn))
      (.metatype hr)
    refine ⟨y, ?_, hpost⟩
    rw [← hread]
    simp [parenthesized, needsParens, renderWithin, limited]

theorem readHead_render (h : ReadsBack n inner) {t : SwiftType} (hl : t.isLegible = true)
    (hn : t.levels ≤ n + 1) (hr : Closing r) :
    ∃ y, readHead inner ((renderWithin none d t).toList ++ r) = some y ∧
      readPostfixes y.1 y.2 = readPostfixes t r := by
  cases hparens : t.needsParens with
  | false =>
    have hroom : t.levels ≤ t.roomFor n := by rwa [roomFor, hparens]
    have hread := readHead_postfixes (d := d) h t hl hroom (.closing hr)
    rwa [hparens] at hread
  | true =>
    cases t with
    | block result ps as => exact ⟨_, readHead_block h as hl hn hr, rfl⟩
    | composition cs =>
      simp only [isLegible, Bool.and_eq_true, decide_eq_true_eq] at hl
      exact ⟨_, readHead_composition h hl.1 hl.2 (Nat.le_of_succ_le_succ hn) hr, rfl⟩
    | _ => cases hparens

theorem readHead_close (r : List Char) : readHead inner (')' :: r) = none := by
  have hnominal : readNominal inner (')' :: r) = none := by
    rw [readNominal]
    exact if_pos (.inl rfl)
  have hnamed : readNamed inner (')' :: r) = none := by
    simp only [readNamed, readComponent, separated, hnominal, Option.map_none, bind, Option.bind]
  rw [readHead, readParens_of_head?_ne (by simp) (by simp), behind?_of_head?_ne (by simp), hnamed]
  rfl

/-- The reader reads all legible types back, level by level. -/
theorem readsBack_readWithin (n : Nat) : ReadsBack n (readWithin n) := by
  induction n with
  | zero =>
    refine ⟨?_, fun _ => rfl⟩
    intro d t r _ hn
    have hpos : 0 < t.levels := by cases t <;> exact Nat.succ_pos _
    omega
  | succ n ih =>
    refine ⟨?_, fun r => ?_⟩
    · intro d t r hl hn hr
      obtain ⟨y, hread, hpost⟩ := readHead_render (d := d) ih hl hn hr
      simp only [readWithin, hread, Option.map_some, hpost, readPostfixes_of_closing hr]
    · simp only [readWithin, readHead_close, Option.map_none]

/-- Legible types that are shown in full are told apart by their texts. -/
theorem eq_of_render_eq {t u : SwiftType} (ht : t.isLegible = true) (hu : u.isLegible = true)
    (htl : t.levels ≤ maxLevels) (hul : u.levels ≤ maxLevels) (h : t.render = u.render) :
      t = u := by
  have hclosing : Closing [] := fun _ hc => by cases hc
  have hread := (readsBack_readWithin maxLevels).render (d := 0) ht htl hclosing
  have hread' := (readsBack_readWithin maxLevels).render (d := 0) hu hul hclosing
  rw [render_eq_renderFully htl, render_eq_renderFully hul, renderFully, renderFully] at h
  rw [h, hread'] at hread
  exact (congrArg Prod.fst (Option.some.inj hread)).symm

/-- Both types are written `(@escaping ([A], (B, C)) -> B & C)?`. -/
theorem eq_of_render_eq_escaping :
    ((function (composition [.nominal (.plain "B"), .nominal (.plain "C")])
        [array (named "A"), tuple [named "B", named "C"]]).addAttribute
          .escaping).toOptional.levels ≤
      maxLevels ∧
    ((function (composition [.nominal (.plain "B"), .nominal (.plain "C")])
        [array (named "A"), tuple [named "B", named "C"]]).addAttribute .escaping).toOptional =
      optional (block (composition [.nominal (.plain "B"), .nominal (.plain "C")])
        [array (named "A"), tuple [named "B", named "C"]] { escaping := true }) :=
  ⟨by decide, eq_of_render_eq rfl rfl (by decide) (by decide) rfl⟩

end HeaderBridge.SwiftType
