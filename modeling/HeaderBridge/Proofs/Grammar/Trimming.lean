import Mathlib.Data.List.Induction
import HeaderBridge.Proofs.Grammar.DeclaratorsReread
import HeaderBridge.Proofs.Grammar.Nodes

/-! # Texts without the blanks at their ends

Where a node is read up to a gap, its text without blanks at the ends is the text
of what was read, with the beginning of that gap behind it.
-/

namespace HeaderBridge.Grammar

open HeaderBridge.Grammar.Expr

variable {cs : List Char}

/-! ### Blanks at the ends -/

/-- The text neither begins nor ends with a blank. -/
structure Tidy (x : List Char) : Prop where
  first : ∃ c ∈ x.head?, Text.isBlank c = false
  last : ∃ c ∈ x.getLast?, Text.isBlank c = false

theorem Tidy.append {x y z : List Char} (hx : Tidy x) (hz : Tidy z) : Tidy (x ++ (y ++ z)) := by
  obtain ⟨c, hc, hfirst⟩ := hx.first
  obtain ⟨d, hd, hlast⟩ := hz.last
  refine ⟨⟨c, ?_, hfirst⟩, ⟨d, ?_, hlast⟩⟩
  · rw [Option.mem_def] at hc ⊢
    rw [List.head?_append, hc]
    rfl
  · rw [Option.mem_def] at hd ⊢
    rw [List.getLast?_append, List.getLast?_append, hd]
    rfl

theorem dropBlanks_eq_self (h : ∃ c ∈ cs.head?, Text.isBlank c = false) :
    Text.dropBlanks cs = cs := by
  obtain ⟨c, hc, hb⟩ := h
  cases cs with
  | nil => simp at hc
  | cons d cs =>
    obtain rfl : d = c := by simpa using hc
    simp [Text.dropBlanks, hb]

theorem Tidy.trim {x : List Char} (hx : Tidy x) : Text.trim (.ofList x) = .ofList x := by
  have hlast : ∃ c ∈ x.reverse.head?, Text.isBlank c = false := by
    rw [List.head?_reverse]
    exact hx.last
  rw [Text.trim, Text.trimStart, String.toList_ofList, dropBlanks_eq_self hx.first, Text.trimEnd,
    String.toList_ofList, dropBlanks_eq_self hlast, List.reverse_reverse]

theorem trim_concat {x : List Char} {c : Char} (hx : ∃ d ∈ x.head?, Text.isBlank d = false)
    (hc : Text.isBlank c = true) : Text.trim (.ofList (x ++ [c])) = Text.trim (.ofList x) := by
  have hfirst : ∃ d ∈ (x ++ [c]).head?, Text.isBlank d = false := by
    obtain ⟨d, hd, hb⟩ := hx
    refine ⟨d, ?_, hb⟩
    rw [Option.mem_def] at hd ⊢
    rw [List.head?_append, hd]
    rfl
  rw [Text.trim, Text.trim, Text.trimStart, Text.trimStart, String.toList_ofList,
    String.toList_ofList, dropBlanks_eq_self hx, dropBlanks_eq_self hfirst, Text.trimEnd,
    Text.trimEnd, String.toList_ofList, String.toList_ofList, List.reverse_concat, Text.dropBlanks,
    List.dropWhile_cons_of_pos hc, Text.dropBlanks]

theorem Tidy.trim_append {x : List Char} (hx : Tidy x) (g : List Char) :
    ∃ g' b, g = g' ++ b ∧ (∀ c ∈ b, Text.isBlank c = true) ∧ Tidy (x ++ g') ∧
      Text.trim (.ofList (x ++ g)) = .ofList (x ++ g') := by
  induction g using List.reverseRecOn with
  | nil => exact ⟨[], [], rfl, by simp, by simpa using hx, by simpa using hx.trim⟩
  | append_singleton g c ih =>
    have hfirst : ∀ y, ∃ d ∈ (x ++ y).head?, Text.isBlank d = false := by
      obtain ⟨d, hd, hb⟩ := hx.first
      intro y
      refine ⟨d, ?_, hb⟩
      rw [Option.mem_def] at hd ⊢
      rw [List.head?_append, hd]
      rfl
    by_cases hc : Text.isBlank c = true
    · obtain ⟨g', b, rfl, hb, htidy, htrim⟩ := ih
      refine ⟨g', b ++ [c], by simp, ?_, htidy, ?_⟩
      · simpa [or_imp, forall_and] using ⟨hb, hc⟩
      · rw [← List.append_assoc, trim_concat (hfirst _) hc, htrim]
    · have htidy : Tidy (x ++ (g ++ [c])) := ⟨hfirst _, c, by simp, by simpa using hc⟩
      exact ⟨g ++ [c], [], by simp, by simp, htidy, htidy.trim⟩

theorem afterBlock_append_eq_none {x b : List Char} (h : afterBlock x = none) (hb : '/' ∉ b) :
    afterBlock (x ++ b) = none := by
  rw [afterBlock_eq_none] at h ⊢
  rintro ⟨s, t, hst⟩
  rcases List.append_eq_append_iff.mp hst with ⟨y, rfl, -⟩ | ⟨y, hy, rfl⟩
  · exact h ⟨s, y, rfl⟩
  · cases hlast : y.getLast? with
    | none =>
      rw [List.getLast?_eq_none_iff] at hlast
      rw [hlast, List.append_nil] at hy
      exact h ⟨s, [], by simpa using hy⟩
    | some d =>
      have hd := congrArg List.getLast? hy
      rw [List.getLast?_append, List.getLast?_append, hlast] at hd
      obtain rfl : '/' = d := by simpa using hd
      exact hb (List.mem_append_left _ (List.mem_of_getLast? hlast))

theorem Solid.append {g b : List Char} (h : Solid g) (hne : g ≠ []) (hslash : '/' ∉ b)
    (hstar : '*' ∉ b) : Solid (g ++ b) := by
  unfold Solid at h ⊢
  fun_cases gapStep? g with
  | case1 g => exact afterBlock_append_eq_none h hslash
  | case2 g => simp [gapStep?] at h
  | case3 c g h₁ h₂ hc => simp_all [gapStep?]
  | case4 c g h₁ h₂ hc =>
    by_cases hcs : c = '/'
    · subst hcs
      have hstar' : ∀ t, g ++ b ≠ '*' :: t := by
        intro t ht
        cases g with
        | nil => exact hstar (by rw [List.nil_append] at ht; simp [ht])
        | cons d g => exact h₁ g rfl (by simp_all)
      have hslash' : ∀ t, g ++ b ≠ '/' :: t := by
        intro t ht
        cases g with
        | nil => exact hslash (by rw [List.nil_append] at ht; simp [ht])
        | cons d g => exact h₂ g rfl (by simp_all)
      rw [List.cons_append, gapStep?.eq_3 _ _ (fun t _ => hstar' t) (fun t _ => hslash' t)]
      rfl
    · rw [List.cons_append, gapStep?_cons_of_ne hcs]
      simp [hc]
  | case5 => exact absurd rfl hne

theorem skipGap_eq_nil_of_append {g b : List Char} (h : skipGap (g ++ b) = [])
    (hb : ∀ c ∈ b, Text.isBlank c = true) : skipGap g = [] := by
  induction hn : g.length using Nat.strongRecOn generalizing g with | ind n ih => ?_
  subst hn
  cases hg : gapStep? g with
  | none =>
    by_cases hne : g = []
    · rw [hne, skipGap_nil]
    · have hsolid := Solid.append hg hne (fun hs => absurd (hb _ hs) (by decide))
        fun hs => absurd (hb _ hs) (by decide)
      rw [hsolid.skipGap, List.append_eq_nil_iff] at h
      exact absurd h.1 hne
  | some g' =>
    have hlt := gapStep?_length_lt hg
    obtain ⟨x, rfl, -, ⟨hstep, -⟩ | ⟨l, rfl, hl, hline⟩⟩ := gapStep?_split hg
    · rw [List.append_assoc, skipGap_of_step (hstep _)] at h
      rw [skipGap_of_step (hstep _)]
      exact ih _ hlt h rfl
    · by_cases hne : g' = []
      · rw [skipGap_of_step hg, hne, skipGap_nil]
      · have hline' : ∀ c ∈ (g' ++ b).head?, isNewline c = true := by
          intro c hc
          obtain ⟨d, g', rfl⟩ := List.exists_cons_of_ne_nil hne
          exact hline c (by simpa using hc)
        have hstep := gapStep?_line hl hline'
        rw [List.cons_append, List.cons_append, List.cons_append, List.cons_append,
          List.append_assoc, skipGap_of_step hstep] at h
        rw [skipGap_of_step hg]
        exact ih _ hlt h rfl

/-- Behind a tidy text, trimming keeps a beginning of the gap. -/
theorem Tidy.exists_trim {x g : List Char} (hx : Tidy x) (hg : skipGap g = []) :
    ∃ g', g' <+: g ∧ skipGap g' = [] ∧ Tidy (x ++ g') ∧
      Text.trim (.ofList (x ++ g)) = .ofList (x ++ g') := by
  obtain ⟨g', b, rfl, hb, htidy, htrim⟩ := hx.trim_append g
  exact ⟨g', List.prefix_append g' b, skipGap_eq_nil_of_append hg hb, htidy, htrim⟩

/-! ### Tidy spellings -/

theorem tidy_enclosed {o c : Char} (ho : Text.isBlank o = false) (hc : Text.isBlank c = false)
    (x : List Char) : Tidy (o :: (x ++ [c])) := by
  refine ⟨⟨o, rfl, ho⟩, ⟨c, ?_, hc⟩⟩
  rw [← List.cons_append, List.getLast?_concat]
  rfl

theorem BaseSpelling.tidy {x : List Char} {ns : List Node} (h : BaseSpelling x ns) : Tidy x := by
  refine ⟨?_, h.neat.last⟩
  obtain ⟨c, hc, hstart⟩ := (Option.any_eq_true _ _).mp h.start
  exact ⟨c, hc, isBlank_of_isIdentChar (isIdentChar_of_isIdentStart hstart)⟩

theorem Stars.tidy {x : List Char} {ns : List Node} (h : Stars x ns) : Tidy x := by
  refine ⟨?_, h.neat.last⟩
  obtain ⟨y, rfl⟩ := h.exists_cons
  exact ⟨'*', rfl, rfl⟩

variable {r x : List Char} {ns : List Node}

theorem SuffixText.tidy {l : List Char} (h : SuffixText r x l) : Tidy x := by
  cases h with
  | @intro g l hg hl hsolid =>
    rw [← List.append_assoc]
    exact tidy_enclosed rfl rfl _

theorem Suffixes.tidy (h : Suffixes r x ns) : Tidy x := by
  induction h with
  | one hx => exact hx.tidy
  | cons hx hg hy ih => exact hx.tidy.append ih

theorem ParametersText.tidy (h : ParametersText r x ns) : Tidy x := by
  obtain ⟨q, rfl⟩ := h.brackets
  exact tidy_enclosed rfl rfl q

theorem BlockText.tidy {i : List Char} (h : BlockText r i x ns) : Tidy x := by
  cases h with
  | @intro g o w i h p ns hg ho hh hp =>
    obtain ⟨q, rfl⟩ := hp.brackets
    have happ : '(' :: (g ++ '^' :: (o ++ ')' :: (h ++ '(' :: (q ++ [')'])))) =
        '(' :: ((g ++ '^' :: (o ++ ')' :: (h ++ '(' :: q))) ++ [')']) := by simp
    rw [happ]
    exact tidy_enclosed rfl rfl _

theorem Ending.tidy (h : Ending r x ns) : Tidy x := by
  cases h with
  | arrays h => exact h.tidy
  | block h => exact h.tidy

theorem AbstractText.tidy (h : AbstractText r x ns) : Tidy x := by
  cases h with
  | stars h => exact h.tidy
  | ending h => exact h.tidy
  | both hx hg hy => exact hx.tidy.append hy.tidy

/-! ### Trimmed texts of nodes -/

theorem Node.skeleton_eq_branch {m : Node} (h : m.rule.isPlain = true) :
    m.skeleton = .branch m.rule (m.children.map Node.skeleton) := by
  obtain ⟨r, s, t, ns⟩ := m
  exact Node.skeleton_branch h s t ns

theorem Node.text_of_reading {m : Node} (hr : m.rule.kind = .branch) {x g c : List Char}
    (h : m.rule.reading .spaced cs = some (c, [m.unplaced])) (hcs : cs = x ++ (g ++ c)) :
    m.text = .ofList (x ++ g) := by
  have htext := Rule.reading_text (.inl hr) h
  rw [← Node.text_unplaced, ← String.toList_inj, String.toList_ofList]
  refine List.append_cancel_right (htext.symm.trans (hcs.trans ?_))
  simp

section Read

variable {m : Node} (h : m.Read)
include h

/-- The trimmed text of a specifier list is a base, with the beginning of a gap behind it. -/
theorem Node.Read.trim_specifiers (hr : m.rule = .specifierQualifierList) :
    ∃ x g ns, Text.trim m.text = .ofList (x ++ g) ∧ Tidy (x ++ g) ∧ skipGap g = [] ∧
      BaseSpelling x ns ∧ m.skeleton = .branch .specifierQualifierList ns := by
  obtain ⟨y, c, hsolid, htext, hread⟩ := h.body (by rw [hr]; rfl)
  have hbody : m.rule.body = base := by rw [hr]; rfl
  rw [hbody] at hread
  obtain ⟨l, s, t, r, ls, q, ts, hcs, hns, -, -, hparts⟩ :=
    base_reading (specifiersReread _) hsolid hread
  obtain ⟨g, rfl, hg⟩ := hparts.reaches.exists_gap
  obtain rfl : y = l ++ (s ++ t) ++ g := by
    refine List.append_cancel_right (hcs.trans ?_)
    simp
  have hbase := hparts.text.spelling
  obtain ⟨g', -, hg', htidy, htrim⟩ := hbase.tidy.exists_trim hg
  refine ⟨_, g', _, by rw [htext, htrim], htidy, hg', hbase, ?_⟩
  rw [Node.skeleton_eq_branch (by rw [hr]; rfl), hr, ← Node.skeletons_unplaced, ← List.map_map, hns]
  simp

theorem Node.Read.trim_abstract (hr : m.rule = .abstractDeclarator) :
    ∃ y g r ns, Text.trim m.text = .ofList (y ++ g) ∧ Tidy (y ++ g) ∧ skipGap g = [] ∧
      AbstractText r y ns ∧ StaysOpen r g ∧ m.skeleton = .branch .abstractDeclarator ns := by
  obtain ⟨cs, c, -, hread⟩ := h
  have hread' := hread
  rw [hr] at hread'
  obtain ⟨y, r, ns, hy, hreach, habstract, hns⟩ := abstract_reading (parametersReread _) hread'
  obtain ⟨g, rfl, hg⟩ := hreach.exists_gap
  have htext := Node.text_of_reading (by rw [hr]; rfl) hread hy
  obtain ⟨g', ⟨b, rfl⟩, hg', htidy, htrim⟩ := habstract.tidy.exists_trim hg
  refine ⟨y, g', _, ns, by rw [htext, htrim], htidy, hg', habstract, ?_, ?_⟩
  · rw [List.append_assoc]
    simpa using (staysOpen_nil (b ++ c)).append g'
  · simpa [Node.skeleton_unplaced] using hns

theorem Node.Read.trim_pointer (hr : m.rule = .pointer) :
    ∃ x g ns, Text.trim m.text = .ofList (x ++ g) ∧ skipGap g = [] ∧ Stars x ns ∧
      m.skeleton = .branch .pointer ns := by
  obtain ⟨cs, c, -, hread⟩ := h
  have hread' := hread
  rw [hr] at hread'
  obtain ⟨x, ns, r, hx, hstars, hns⟩ := pointer_reading hread'
  obtain ⟨g, rfl, hg⟩ := hstars.reaches.exists_gap
  have htext := Node.text_of_reading (by rw [hr]; rfl) hread hx
  obtain ⟨g', -, hg', -, htrim⟩ := hstars.stars.tidy.exists_trim hg
  refine ⟨x, g', ns, by rw [htext, htrim], hg', hstars.stars, ?_⟩
  simpa [Node.skeleton_unplaced] using hns

end Read

end HeaderBridge.Grammar
