import HeaderBridge.Proofs.DeclaredType.Gathered
import HeaderBridge.Proofs.DeclaredType.RoundTrip
import HeaderBridge.Proofs.DeclaredType.Written

/-! # Spellings of faithful types

The gathered form of a written type that is faithful is regular, and it is spelled
as the type itself. So the canonical spelling of such a type denotes its gathered
form.
-/

namespace HeaderBridge.DeclaredType

open Grammar Grammar.Expr

variable {t : DeclaredType}

/-! ### Texts around gathered types -/

theorem leadText_append (ss rs : List String) : leadText (ss ++ rs) = leadText ss ++ leadText rs :=
  List.flatMap_append

theorem levels_join (t : DeclaredType) (qs : List String) : (t.join qs).levels = t.levels := by
  rcases join_cases t qs with h | ⟨p, rs, rfl, h⟩ <;> rw [h]
  · exact levels_qualify t qs
  · rfl

theorem starred_lead {s r : String} {ss : List String} (h : s.toList = leadText ss ++ r.toList) :
    (starred s).toList = leadText ss ++ (starred r).toList := by
  have hlead : (leadText ss).getLast? ≠ some '*' := by
    rcases List.eq_nil_or_concat ss with rfl | ⟨rs, q, rfl⟩
    · simp [leadText]
    · rw [List.concat_eq_append, leadText_append]
      simp [leadText]
  have hlast : s.toList.getLast? = some '*' ↔ r.toList.getLast? = some '*' := by
    rw [h, List.getLast?_append]
    cases hr : r.toList.getLast? with
    | none => simpa using hlead
    | some c => rfl
  rw [starred, starred]
  by_cases hr : r.toList.getLast? = some '*'
  · rw [if_pos (hlast.mpr hr), if_pos hr]
    simp [h]
  · rw [if_neg (fun hs => hr (hlast.mp hs)), if_neg hr]
    simp [h]

theorem spelling_block (name : Option String) (r : DeclaredType) (ps : List DeclaredType)
    (qs : List String) :
    ((block name r ps).qualify qs).spelling = blockText r.spelling (spellings ps) qs := by
  cases qs <;> rfl

/-! ### Words around regular types -/

theorem Regular.base_ne (h : Regular .base t) :
    (∀ n r ps, t ≠ DeclaredType.block n r ps) ∧ ∀ u rs, t ≠ qualified u rs := by
  cases h <;> exact ⟨by simp, by simp⟩

theorem Regular.join_base (h : Regular .base t) (qs : List String) : t.join qs = t.qualify qs := by
  rcases join_cases t qs with hjoin | ⟨p, rs, rfl, -⟩
  · exact hjoin
  · exact absurd rfl (h.base_ne.2 (pointer p) rs)

theorem Regular.join_pointer (h : Regular .pointer t) (qs : List String) :
    (Regular .qualified t ∧ t.join qs = t.qualify qs) ∨
      ∃ u rs, Regular .pointer u ∧ (∀ r ∈ rs, r ∈ starWords) ∧ t = (pointer u).qualify rs ∧
        t.join qs = (pointer u).qualify (rs ++ qs) := by
  cases h with
  | ofQualified h =>
    refine .inl ⟨h, ?_⟩
    cases h with
    | @qualify b rs hb hrs =>
      rcases join_cases (b.qualify rs) qs with hjoin | ⟨p, rs', hp, -⟩
      · exact hjoin
      · cases rs with
        | nil => exact absurd hp (hb.base_ne.2 (pointer p) rs')
        | cons r rs =>
          obtain ⟨rfl, -⟩ := DeclaredType.qualified.inj hp
          cases hb
  | @star u rs hu hrs =>
    refine .inr ⟨u, rs, hu, hrs, rfl, ?_⟩
    cases rs <;> rfl

theorem Regular.pointer_ne (h : Regular .pointer t) : ∀ n r ps, t ≠ DeclaredType.block n r ps := by
  cases h with
  | ofQualified h =>
    cases h with
    | @qualify b qs hb hqs =>
      cases qs with
      | nil => exact hb.base_ne.1
      | cons q qs => simp [DeclaredType.qualify]
  | @star u qs hu hqs => cases qs <;> simp [DeclaredType.qualify]

theorem Regular.of_array (h : Regular .array t) :
    Regular .pointer t ∨ ∃ u l, t = DeclaredType.array u l := by
  cases h with
  | ofPointer h => exact .inl h
  | array hu hl => exact .inr ⟨_, _, rfl⟩

theorem Regular.spelling_join (h : Regular .pointer t) (qs : List String) :
    (t.join qs).spelling.toList = t.spelling.toList ++ trailText qs := by
  rcases h.join_pointer qs with ⟨-, hjoin⟩ | ⟨u, rs, -, -, rfl, hjoin⟩ <;> rw [hjoin]
  · exact spelling_qualify h.pointer_ne qs
  · rw [spelling_qualify (by simp), spelling_qualify (by simp), trailText_append, List.append_assoc]

theorem Regular.own (h : Regular .pointer t) {ns ss : List String}
    (hns : ∀ n ∈ ns, n ∈ Rule.nullabilitySpecifier.spellings) (hss : ∀ s ∈ ss, s ∈ frontWords) :
    Regular .argument ((t.join ns).specify ss) := by
  rcases h.join_pointer ns with ⟨hbase, hjoin⟩ | ⟨u, rs, hu, hrs, rfl, hjoin⟩ <;> rw [hjoin]
  · exact .ownBase hbase hns hss
  · refine .ownPointer (.star hu fun q hq => ?_) hss
    rcases List.mem_append.mp hq with hq | hq
    · exact hrs q hq
    · exact mem_starWords (List.mem_append_left _ (hns q hq))

/-! ### Spellings of gathered types -/

/-- The gathered form of a type is spelled as the type, and it takes as many levels to read. -/
structure Gathers (t : DeclaredType) : Prop where
  front : ∀ s ∈ t.frontSpecifiers, s ∈ frontWords
  spelling : t.spelling.toList = leadText t.frontSpecifiers ++ t.bare.spelling.toList
  levels : t.bare.levels = t.levels

namespace Gathers

variable {t : DeclaredType} (h : Gathers t)
include h

theorem spelling_gather : t.gather.spelling = t.spelling := by
  rw [← String.toList_inj, gather, spelling_specify, h.spelling]

theorem levels_gather : t.gather.levels = t.levels := by
  rw [gather, levels_specify, h.levels]

theorem specify {ss : List String} (hss : ∀ s ∈ ss, s ∈ frontWords) : Gathers (t.specify ss) := by
  have hfront := frontSpecifiers_wrap ⟨ss, []⟩ t
  have hbare := (bare_wrap ⟨ss, []⟩ t).trans (join_nil t.bare)
  change (t.specify ss).frontSpecifiers = ss ++ t.frontSpecifiers at hfront
  change (t.specify ss).bare = t.bare at hbare
  refine ⟨?_, ?_, ?_⟩
  · rw [hfront]
    intro s hs
    rcases List.mem_append.mp hs with hs | hs
    · exact hss s hs
    · exact h.front s hs
  · rw [hfront, hbare, spelling_specify, h.spelling, leadText_append, List.append_assoc]
  · rw [hbare, levels_specify, h.levels]

theorem qualify (hregular : Regular .pointer t.bare) (qs : List String) :
    Gathers (t.qualify qs) := by
  -- a block is spelled with its qualifiers inside
  have hblock : ∀ n r ps, t ≠ block n r ps := by
    rintro n r ps rfl
    exact hregular.pointer_ne none r.bare (gatherAll ps) rfl
  refine ⟨?_, ?_, ?_⟩
  · rw [frontSpecifiers_qualify]
    exact h.front
  · rw [frontSpecifiers_qualify, bare_qualify, spelling_qualify hblock, hregular.spelling_join,
      h.spelling, List.append_assoc]
  · rw [bare_qualify, levels_join, levels_qualify, h.levels]

theorem pointer : Gathers (pointer t) :=
  ⟨h.front, starred_lead h.spelling, h.levels⟩

theorem array (l : String) : Gathers (array t l) := by
  refine ⟨h.front, ?_, h.levels⟩
  have hspelling : ∀ u : DeclaredType, (DeclaredType.array u l).spelling.toList =
      u.spelling.toList ++ ('[' :: (l.toList ++ [']'])) := by
    intro u
    rw [DeclaredType.spelling]
    simp
  rw [bare, hspelling, hspelling, h.spelling, List.append_assoc]
  rfl

end Gathers

section Lists

variable {ts : List DeclaredType} (h : ∀ t ∈ ts, Gathers t)
include h

theorem spellings_gatherAll : spellings (gatherAll ts) = spellings ts := by
  rw [gatherAll_eq_map, spellings_eq_map, spellings_eq_map, List.map_map]
  exact List.map_congr_left fun t ht => (h t ht).spelling_gather

theorem levelsOfAll_gatherAll : levelsOfAll (gatherAll ts) = levelsOfAll ts := by
  rw [gatherAll_eq_map]
  induction ts with
  | nil => rfl
  | cons t ts ih =>
    rw [List.map_cons, levelsOfAll, levelsOfAll, (h t List.mem_cons_self).levels_gather,
      ih fun u hu => h u (List.mem_cons_of_mem t hu)]

theorem gathers_generic (n : String) : Gathers (generic n ts) := by
  refine ⟨by simp [frontSpecifiers], ?_, ?_⟩
  · rw [bare, spelling, spelling, spellings_gatherAll h]
    rfl
  · rw [bare, levels, levels, spellings_gatherAll h, levelsOfAll_gatherAll h]

theorem gathers_block {r : DeclaredType} (hr : Gathers r) (name : Option String)
    (qs : List String) : Gathers ((block name r ts).qualify qs) := by
  have hbare : ((block name r ts).qualify qs).bare =
      (block none r.bare (gatherAll ts)).qualify qs := by
    cases qs <;> rfl
  refine ⟨?_, ?_, ?_⟩
  · rw [frontSpecifiers_qualify]
    exact hr.front
  · rw [frontSpecifiers_qualify, hbare, spelling_block, spelling_block, spellings_gatherAll h,
      blockText, blockText]
    simp [hr.spelling, frontSpecifiers]
  · rw [hbare, levels_qualify, levels_qualify, levels, levels, hr.levels, levelsOfAll_gatherAll h]

end Lists

/-! ### Gathering written types -/

theorem Written.eq_void (h : Written .declared t) (hvoid : t.gather = DeclaredType.void) :
    t = DeclaredType.void := by
  have hgather : t.frontSpecifiers = [] ∧ t.bare = DeclaredType.void := by
    rw [gather] at hvoid
    cases hss : t.frontSpecifiers with
    | nil => exact ⟨rfl, by rwa [hss] at hvoid⟩
    | cons s ss =>
      rw [hss] at hvoid
      cases hvoid
  obtain ⟨hfront, hbare⟩ := hgather
  cases h with
  | @declared t a ht ha =>
    rw [frontSpecifiers_wrap, List.append_eq_nil_iff] at hfront
    rw [bare_wrap] at hbare
    obtain ⟨hqualifiers, hbare⟩ := join_eq_void hbare
    rw [Adornment.wrap, hfront.1, hqualifiers]
    cases ht with
    | ofPointer ht =>
      cases ht with
      | ofQualified ht =>
        cases ht with
        | @qualify b qs hb hqs =>
          rw [bare_qualify] at hbare
          obtain ⟨rfl, hbare⟩ := join_eq_void hbare
          cases hb with
          | void => rfl
          | _ => cases hbare
      | star hu =>
        rw [bare_wrap] at hbare
        cases (join_eq_void hbare).2
    | array => cases hbare
  | block =>
    rw [bare_wrap, bare_qualify] at hbare
    cases (join_eq_void (join_eq_void hbare).2).2

/-- A faithful block has one word behind its caret at most, be it its own or one around it. -/
theorem exists_blockWords {name : Option String} {r : DeclaredType} {ps : List DeclaredType}
    {qs ns : List String} (hqs : qs = [] ∨ ∃ q ∈ Rule.nullabilitySpecifier.spellings, qs = [q])
    (hns : ∀ n ∈ ns, n ∈ Rule.nullabilitySpecifier.spellings)
    (h : (((block name r ps).qualify qs).qualify ns).isFaithful = true) :
    ∃ ws, (ws = [] ∨ ∃ q ∈ Rule.nullabilitySpecifier.spellings, ws = [q]) ∧
      ∀ n r ps, ((block n r ps).qualify qs).qualify ns = (block n r ps).qualify ws ∧
        ((block n r ps).join qs).join ns = (block n r ps).qualify ws := by
  rcases (isFaithful_qualify h).2 with rfl | hadmits
  · refine ⟨qs, hqs, fun n r ps => ⟨rfl, ?_⟩⟩
    rw [join_nil]
    rfl
  · have hwords : ((block name r ps).qualify qs).outerQualifiers = qs := by
      cases qs <;> simp [qualify, outerQualifiers]
    have hblock : ((block name r ps).qualify qs).unqualified = block name r ps := by
      cases qs <;> rfl
    rw [admits, hblock, hwords] at hadmits
    have hlength : (qs ++ ns).length ≤ 1 := of_decide_eq_true hadmits
    rcases hqs with rfl | ⟨q, hq, rfl⟩
    · refine ⟨ns, ?_, fun n r ps => ⟨rfl, rfl⟩⟩
      rcases ns with _ | ⟨n, _ | ⟨m, ns⟩⟩
      · exact .inl rfl
      · exact .inr ⟨n, hns n (by simp), rfl⟩
      · simp at hlength
    · obtain rfl : ns = [] := by simpa using hlength
      exact ⟨[q], .inr ⟨q, hq, rfl⟩, fun n r ps => ⟨rfl, rfl⟩⟩

theorem regular_name {n : String} (h : IsIdent n.toList) (hf : (named n).isFaithful = true) :
    Regular .base (named n) := by
  simp only [isFaithful, isKeyword, Bool.not_eq_true', Bool.or_eq_false_iff,
    decide_eq_false_iff_not] at hf
  obtain ⟨⟨⟨hword, htag⟩, hid⟩, hvoid⟩ := hf
  by_cases hscalar : n ∈ scalarStarts
  · exact .scalar ⟨n, [], hscalar, by simp, by simp⟩ hvoid
  · exact .name ⟨h, by simp [isReserved, hword, htag, hscalar], hid⟩

/-- The form of a type of a stage that is regular: with its words in front, where there may be
any. -/
def Stage.form : Stage → DeclaredType → DeclaredType
  | .argument, t | .declared, t => t.gather
  | .base, t | .qualified, t | .pointer, t | .array, t | .direct, t => t.bare

theorem gathers_named (n : String) : Gathers (named n) := ⟨by simp [frontSpecifiers], rfl, rfl⟩

/-- A type with arguments. If they are all spelled as single words, they are names. -/
theorem gathers_arguments {n : String} {ts : List DeclaredType} (hn : IsGenericName n)
    (hne : ts ≠ []) (hf : (generic n ts).isFaithful = true)
    (h : ∀ t ∈ ts, t.isFaithful = true → Gathers t ∧ Regular .argument t.gather) :
    Gathers (generic n ts) ∧ Regular .base (generic n (gatherAll ts)) := by
  have hident : ((spellings ts).all fun s => IsIdent s.toList) = true ↔
      ∀ t ∈ ts, IsIdent t.spelling.toList := by
    simp [spellings_eq_map]
  rw [isFaithful] at hf
  split at hf
  · next hall =>
    simp only [Bool.and_eq_true, decide_eq_true_eq] at hf
    have hnames : ∀ t ∈ ts, ∃ m, t = named m := by
      intro t ht
      have ht := List.all_eq_true.mp hf.1 t ht
      cases t with
      | named m => exact ⟨m, rfl⟩
      | _ => cases ht
    refine ⟨gathers_generic (fun t ht => ?_) n, ?_⟩
    · obtain ⟨m, rfl⟩ := hnames t ht
      exact gathers_named m
    · rw [gatherAll_of_isNamed hf.1, ← map_named_spelling hnames]
      exact .names hn hf.2 (by simpa using hne) (by simpa using hident.mp hall)
  · next hbusy =>
    have hall := fun t ht => h t ht (areFaithful_iff.mp hf t ht)
    refine ⟨gathers_generic (fun t ht => (hall t ht).1) n,
      .arguments hn (fun t ht => ?_) fun hidents => hbusy (hident.mpr fun t ht => ?_)⟩
    · rw [gatherAll_eq_map] at ht
      obtain ⟨u, hu, rfl⟩ := List.mem_map.mp ht
      exact (hall u hu).2
    · rw [← (hall t ht).1.spelling_gather]
      exact hidents _ (gatherAll_eq_map ts ▸ List.mem_map_of_mem ht)

theorem gathers_argument {a : Adornment} (ht : Gathers t) (hregular : Regular .pointer t.bare)
    (ha : a.IsOuter) : Gathers (a.wrap t) ∧ Regular .argument (a.wrap t).gather := by
  have hgathers := (ht.qualify hregular a.qualifiers).specify ha.specifiers
  refine ⟨hgathers, ?_⟩
  rw [gather, bare_wrap]
  exact hregular.own ha.qualifiers hgathers.front

/-- Words around an array have no place in its spelling, unless there are none to place. -/
theorem gathers_declared {a : Adornment} (ht : Gathers t) (hregular : Regular .array t.bare)
    (ha : a.IsOuter) (hadmits : a.qualifiers = [] ∨ t.admits a.qualifiers = true) :
    Gathers (a.wrap t) ∧ Regular .declared (a.wrap t).gather := by
  rcases hadmits with hnone | hadmits
  · have hgathers : Gathers (a.wrap t) := by
      rw [Adornment.wrap, hnone]
      exact ht.specify ha.specifiers
    refine ⟨hgathers, ?_⟩
    rw [gather, bare_wrap, hnone, join_nil]
    exact .front (.ofArray hregular) hgathers.front
  · rcases hregular.of_array with hregular | ⟨u, l, harray⟩
    · obtain ⟨hgathers, hargument⟩ := gathers_argument ht hregular ha
      exact ⟨hgathers, .ofArgument hargument⟩
    · have hunqualified := unqualified_bare t
      rw [harray] at hunqualified
      cases hu : t.unqualified with
      | specified ss v => exact absurd hu ((unqualified_ne t).1 ss v)
      | qualified v qs => exact absurd hu ((unqualified_ne t).2 v qs)
      | array v k =>
        rw [admits, hu] at hadmits
        cases hadmits
      | _ =>
        rw [hu] at hunqualified
        cases hunqualified

theorem gathers_declared_block {name : Option String} {r : DeclaredType} {ps : List DeclaredType}
    {qs : List String} {a : Adornment} (hr : Gathers r) (hregular : Regular .pointer r.bare)
    (hps : ∀ p ∈ ps, Written .declared p) (hvoid : ps ≠ [void])
    (h : ∀ p ∈ ps, Gathers p ∧ Regular .declared p.gather)
    (hqs : qs = [] ∨ ∃ q ∈ Rule.nullabilitySpecifier.spellings, qs = [q]) (ha : a.IsOuter)
    (hf : (((block name r ps).qualify qs).qualify a.qualifiers).isFaithful = true) :
    Gathers (a.wrap ((block name r ps).qualify qs)) ∧
      Regular .declared (a.wrap ((block name r ps).qualify qs)).gather := by
  obtain ⟨ws, hws, hwords⟩ := exists_blockWords hqs ha.qualifiers hf
  have hgathers : Gathers (a.wrap ((block name r ps).qualify qs)) := by
    rw [Adornment.wrap, (hwords name r ps).1]
    exact (gathers_block (fun p hp => (h p hp).1) hr name ws).specify ha.specifiers
  refine ⟨hgathers, ?_⟩
  rw [gather, bare_wrap, bare_qualify, bare, (hwords none r.bare (gatherAll ps)).2,
    gatherAll_eq_map]
  refine .front (.block hregular ?_ ?_ hws) hgathers.front
  · intro p hp
    obtain ⟨u, hu, rfl⟩ := List.mem_map.mp hp
    exact (h u hu).2
  · intro hgather
    obtain ⟨p, rfl, hp⟩ := List.map_eq_singleton_iff.mp hgather
    exact hvoid (by rw [(hps p (by simp)).eq_void hp])

/-- The gathered form of a written type that is faithful is regular, and is spelled as the type. -/
theorem gathers_of_written {stage : Stage} (h : Written stage t) (hf : t.isFaithful = true) :
    Gathers t ∧ Regular stage (stage.form t) := by
  induction h with
  | void => exact ⟨⟨by simp [frontSpecifiers], rfl, rfl⟩, .void⟩
  | name hn => exact ⟨gathers_named _, regular_name hn hf⟩
  | scalar hn hvoid => exact ⟨gathers_named _, .scalar hn hvoid⟩
  | object hps => exact ⟨⟨by simp [frontSpecifiers], rfl, rfl⟩, .object hps⟩
  | arguments hn hne _ ih => exact gathers_arguments hn hne hf ih
  | @qualify t qs _ hqs ih =>
    obtain ⟨hgathers, hregular⟩ := ih (isFaithful_qualify hf).1
    change Regular .base t.bare at hregular
    have hpointer := Regular.ofQualified (@Regular.qualify _ [] hregular (by simp))
    refine ⟨hgathers.qualify hpointer qs, ?_⟩
    change Regular .qualified (t.qualify qs).bare
    rw [bare_qualify, hregular.join_base]
    exact .qualify hregular hqs
  | ofQualified _ ih => exact ⟨(ih hf).1, .ofQualified (ih hf).2⟩
  | @star t a _ hqs hss ih =>
    have hf : t.isFaithful = true := (isFaithful_qualify (isFaithful_wrap hf)).1
    obtain ⟨hgathers, hregular⟩ := ih hf
    have hstar := @Regular.star _ [] hregular (by simp)
    refine ⟨(hgathers.pointer.qualify hstar a.qualifiers).specify hss, ?_⟩
    change Regular .pointer (a.wrap (pointer t)).bare
    rw [bare_wrap]
    exact .star hregular hqs
  | argument _ ha ih =>
    obtain ⟨hgathers, hregular⟩ := ih (isFaithful_qualify (isFaithful_wrap hf)).1
    exact gathers_argument hgathers hregular ha
  | ofPointer _ ih => exact ⟨(ih hf).1, .ofPointer (ih hf).2⟩
  | @array t l _ hends hinside ih =>
    simp only [isFaithful, Bool.and_eq_true, Bool.not_eq_true'] at hf
    obtain ⟨hgathers, hregular⟩ := ih hf.1
    exact ⟨hgathers.array l, .array hregular ⟨hends, hinside, hf.2⟩⟩
  | declared _ ha ih =>
    obtain ⟨hf, hadmits⟩ := isFaithful_qualify (isFaithful_wrap hf)
    obtain ⟨hgathers, hregular⟩ := ih hf
    exact gathers_declared hgathers hregular ha hadmits
  | block _ hps hvoid hqs ha ihr ihps =>
    have hwords := isFaithful_wrap hf
    have hblock := (isFaithful_qualify (isFaithful_qualify hwords).1).1
    rw [isFaithful, Bool.and_eq_true, areFaithful_iff] at hblock
    obtain ⟨hgathers, hregular⟩ := ihr hblock.1
    exact gathers_declared_block hgathers hregular hps hvoid (fun p hp => ihps p hp (hblock.2 p hp))
      hqs ha
      hwords

/-- The canonical spelling of a faithful type denotes its gathered form, if there are levels enough
to read it. -/
theorem readWithin_spelling_gather (h : Written .declared t) (hf : t.isFaithful = true) (d : Nat) :
    readWithin d t.spelling = upTo d t.gather := by
  obtain ⟨hgathers, hregular⟩ := gathers_of_written h hf
  rw [← hgathers.spelling_gather]
  exact readWithin_of_regular hregular d

end HeaderBridge.DeclaredType
