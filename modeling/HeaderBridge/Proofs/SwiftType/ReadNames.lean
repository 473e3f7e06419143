import HeaderBridge.Proofs.SwiftType.Reader

/-! # Reading names back

Named types, chains and compositions are read back from their texts, if the types
inside are. It depends on what follows where a name, a chain or a composition ends.
-/

namespace HeaderBridge

namespace SwiftType

open TextReader

/-! ### What may follow a type -/

variable {n : Nat} {d : UInt64} {r : List Char}

/-- The end of the text, or a character that ends the types inside a type. -/
def Closing (r : List Char) : Prop := ∀ c ∈ r.head?, c ∈ [',', ')', ']', ':', '>']

/-- Postfixes and then what ends a type. -/
inductive Tail : List Char → Prop where
  | closing {r : List Char} (h : Closing r) : Tail r
  | optional {r : List Char} (h : Tail r) : Tail ('?' :: r)
  | implicitlyUnwrapped {r : List Char} (h : Tail r) : Tail ('!' :: r)
  | metatype {r : List Char} (h : Tail r) : Tail ('.' :: 'T' :: 'y' :: 'p' :: 'e' :: r)

/-- Neither a name nor a list of arguments goes on here. -/
def AfterName (r : List Char) : Prop := ∀ c ∈ r.head?, isNameChar c = false ∧ c ≠ '<'

/-- No chain goes on here either: behind a dot stands what reads as a metatype. -/
def AfterChain (r : List Char) : Prop :=
  AfterName r ∧ ∀ r', r = '.' :: r' → r'.takeWhile isNameChar = "Type".toList

theorem closing_cons {c : Char} (hc : c ∈ [',', ')', ']', ':', '>']) : Closing (c :: r) := by
  intro c' hc'
  obtain rfl := Option.some.inj hc'
  exact hc

theorem Closing.afterName (h : Closing r) : AfterName r := by
  intro c hc
  have hall : ∀ c ∈ [',', ')', ']', ':', '>'], isNameChar c = false ∧ c ≠ '<' := by decide
  exact hall c (h c hc)

theorem Tail.afterName (h : Tail r) : AfterName r := by
  cases h with
  | closing h => exact h.afterName
  | optional | implicitlyUnwrapped | metatype =>
    intro c hc
    obtain rfl := Option.some.inj hc
    decide

theorem takeWhile_name {s : List Char} (hs : s.all isNameChar = true)
    (hr : ∀ c ∈ r.head?, isNameChar c = false) : (s ++ r).takeWhile isNameChar = s := by
  rw [List.takeWhile_append_of_pos (List.all_eq_true.mp hs)]
  cases r with
  | nil => simp
  | cons c r => simp [hr c rfl]

theorem dropWhile_name {s : List Char} (hs : s.all isNameChar = true)
    (hr : ∀ c ∈ r.head?, isNameChar c = false) : (s ++ r).dropWhile isNameChar = r := by
  rw [List.dropWhile_append_of_pos (List.all_eq_true.mp hs)]
  cases r with
  | nil => rfl
  | cons c r => simp [hr c rfl]

theorem Tail.afterChain (h : Tail r) : AfterChain r := by
  refine ⟨h.afterName, ?_⟩
  rintro r' rfl
  cases h with
  | closing h =>
    have hdot := h '.' rfl
    simp at hdot
  | metatype h =>
    exact takeWhile_name (s := "Type".toList) (by decide) fun c hc => (h.afterName c hc).1

theorem Tail.head?_ne {c : Char} (hc : c ∉ [',', ')', ']', ':', '>', '?', '!', '.']) (h : Tail r) :
    r.head? ≠ some c := by
  intro hhead
  cases h with
  | closing h => exact hc (List.mem_append_left ['?', '!', '.'] (h c hhead))
  | optional | implicitlyUnwrapped | metatype =>
    obtain rfl := Option.some.inj hhead
    simp at hc

theorem readPostfixes_of_closing (h : Closing r) (t : SwiftType) : readPostfixes t r = (t, r) := by
  cases r with
  | nil => rfl
  | cons c r =>
    have hc := h c rfl
    simp only [List.mem_cons, List.not_mem_nil, or_false] at hc
    rcases hc with rfl | rfl | rfl | rfl | rfl <;> rfl

/-! ### Named types -/

variable {inner : TextReader SwiftType}

/-- Types of at most the given number of levels are read back, and nothing is read before a
closing parenthesis. -/
structure ReadsBack (n : Nat) (inner : TextReader SwiftType) : Prop where
  render : ∀ {d : UInt64} {t : SwiftType} {r : List Char}, t.isLegible = true → t.levels ≤ n →
    Closing r → inner ((renderWithin none d t).toList ++ r) = some (t, r)
  close : ∀ r, inner (')' :: r) = none

theorem ReadsBack.separated (h : ReadsBack n inner) {ts : List SwiftType} (hne : ts ≠ [])
    (hl : allLegible ts = true) (hn : levelsAll ts ≤ n) (hr : Closing r)
    (hcomma : r.head? ≠ some ',') : TextReader.separated inner [',', ' ']
      ((", ".intercalate (renderAll none d ts)).toList ++ r) = some (ts, r) := by
  rw [String.toList_intercalate, renderAll_eq_map, List.map_map]
  refine separated_intercalate Closing (fun r => closing_cons (by decide)) (by simp) hne ?_ hr ?_
  · intro t ht r hr
    exact h.render (allLegible_iff.mp hl t ht) (levelsAll_le.mp hn t ht) hr
  · rw [behind?_of_head?_ne hcomma]
    rfl

theorem not_reserved {s : String} (hne : s ≠ "") (htype : s ≠ "Type") :
    ¬ (s.toList = [] ∨ s.toList = "Type".toList) := by
  rintro (h | h)
  · exact hne (String.toList_eq_nil_iff.mp h)
  · exact htype (String.toList_injective h)

theorem readNominal_plain {s : String} (hs : s.toList.all isNameChar = true) (hne : s ≠ "")
    (htype : s ≠ "Type") (hr : AfterName r) :
    readNominal inner (s.toList ++ r) = some (.plain s, r) := by
  have hname := takeWhile_name hs fun c hc => (hr c hc).1
  have hrest := dropWhile_name hs fun c hc => (hr c hc).1
  have hangle : r.head? ≠ some '<' := fun hc => (hr _ hc).2 rfl
  simp only [readNominal, hname, hrest, if_neg (not_reserved hne htype), behind?_of_head?_ne hangle,
    String.ofList_toList]

theorem isName_iff {s : String} : isName s = true ↔
    s ≠ "" ∧ s.toList.all isNameChar = true ∧ s ≠ "Void" ∧ s ≠ "Type" := by
  simp only [isName, Bool.and_eq_true, decide_eq_true_eq, and_assoc]

theorem readNominal_render (h : ReadsBack n inner) {t : Nominal} (hl : t.isLegible = true)
    (hn : t.levels ≤ n) (hr : AfterName r) :
    readNominal inner ((renderNominal none d t).toList ++ r) = some (t, r) := by
  cases t with
  | plain s =>
    obtain ⟨hne, hs, -, htype⟩ := isName_iff.mp hl
    exact readNominal_plain hs hne htype hr
  | generic s ts =>
    simp only [Nominal.isLegible, Bool.and_eq_true, Bool.not_eq_true',
      List.isEmpty_eq_false_iff] at hl
    obtain ⟨⟨⟨hname, hne⟩, herased⟩, hts⟩ := hl
    rw [Nominal.levels, herased, if_neg Bool.false_ne_true] at hn
    obtain ⟨hs, hchars, -, htype⟩ := isName_iff.mp hname
    let args := (", ".intercalate (renderAll none d ts)).toList
    have htext : (renderNominal none d (.generic s ts)).toList ++ r =
        s.toList ++ '<' :: (args ++ '>' :: r) := by
      rw [renderNominal, herased]
      simp [args, genericText]
    have hafter : ∀ c ∈ ('<' :: (args ++ '>' :: r)).head?, isNameChar c = false := by
      intro c hc
      obtain rfl := Option.some.inj hc
      decide
    have hargs : separated inner [',', ' '] (args ++ '>' :: r) = some (ts, '>' :: r) :=
      h.separated hne hts hn (closing_cons (by decide)) (by simp)
    simp only [readNominal, htext, takeWhile_name hchars hafter, dropWhile_name hchars hafter,
      if_neg (not_reserved hs htype), behind?_singleton, hargs, bind, Option.bind, pure,
      String.ofList_toList]

theorem separated_chain {ns : List Nominal} (hne : ns ≠ [])
    (hns : ∀ t ∈ ns, ∀ r, AfterName r → readNominal inner ((renderNominal none d t).toList ++ r) =
      some (t, r))
    (hr : AfterChain r) : separated (readNominal inner) ['.']
      ((".".intercalate (ns.map (renderNominal none d))).toList ++ r) = some (ns, r) := by
  rw [String.toList_intercalate, List.map_map]
  refine separated_intercalate AfterName (fun r c hc => ?_) (by simp) hne hns hr.1 ?_
  · obtain rfl := Option.some.inj hc
    decide
  · by_cases hdot : r.head? = some '.'
    · obtain ⟨r', rfl⟩ : ∃ r', r = '.' :: r' := by
        cases r with
        | nil => cases hdot
        | cons c r' => exact ⟨r', by rw [Option.some.inj hdot]⟩
      rw [behind?_singleton, Option.bind_some, readNominal, hr.2 r' rfl]
      exact if_pos (.inr rfl)
    · rw [behind?_of_head?_ne hdot]
      rfl

theorem readComponent_nominal {t : Nominal}
    (ht : ∀ r, AfterName r → readNominal inner ((renderNominal none d t).toList ++ r) = some (t, r))
    (hr : AfterChain r) :
    readComponent inner ((renderComponent none d (.nominal t)).toList ++ r) =
      some (.nominal t, r) := by
  have hchain := separated_chain (List.cons_ne_nil t []) (List.forall_mem_singleton.mpr ht) hr
  rw [List.map_cons, List.map_nil, String.intercalate_singleton] at hchain
  simp only [readComponent, renderComponent, hchain, bind, Option.bind, componentOf?, pure]

theorem readComponent_render (h : ReadsBack n inner) {t : Component} (hl : t.isLegible = true)
    (hn : t.levels ≤ n) (hr : AfterChain r) :
    readComponent inner ((renderComponent none d t).toList ++ r) = some (t, r) := by
  cases t with
  | nominal t => exact readComponent_nominal (fun r hr => readNominal_render h hl hn hr) hr
  | nested a b rest =>
    simp only [Component.isLegible, Bool.and_eq_true, Nominal.allLegible_iff] at hl
    simp only [Component.levels, Nat.max_le, Nominal.levelsAll_le] at hn
    have hchain : separated (readNominal inner) ['.']
        ((".".intercalate ((a :: b :: rest).map (renderNominal none d))).toList ++ r) =
          some (a :: b :: rest, r) := by
      refine separated_chain (List.cons_ne_nil _ _) ?_ hr
      rw [List.forall_mem_cons, List.forall_mem_cons]
      exact ⟨fun r hr => readNominal_render h hl.1.1 hn.1 hr,
        fun r hr => readNominal_render h hl.1.2 hn.2.1 hr,
        fun t ht r hr => readNominal_render h (hl.2 t ht) (hn.2.2 t ht) hr⟩
    rw [List.map_cons, List.map_cons] at hchain
    simp only [readComponent, renderComponent, renderNominals_eq_map, hchain, bind, Option.bind,
      componentOf?, pure]

theorem readNamed_components {cs : List Component} (hne : cs ≠ [])
    (hcs : ∀ t ∈ cs, ∀ r, AfterChain r →
      readComponent inner ((renderComponent none d t).toList ++ r) = some (t, r))
    (hr : AfterChain r) (hblank : r.head? ≠ some ' ') :
    readNamed inner ((" & ".intercalate (cs.map (renderComponent none d))).toList ++ r) =
      some (ofComponents cs, r) := by
  have hread : separated (readComponent inner) [' ', '&', ' ']
      ((" & ".intercalate (cs.map (renderComponent none d))).toList ++ r) = some (cs, r) := by
    rw [String.toList_intercalate, List.map_map]
    refine separated_intercalate AfterChain (fun r => ⟨?_, ?_⟩) (by simp) hne hcs hr ?_
    · intro c hc
      obtain rfl := Option.some.inj hc
      decide
    · intro r' hr'
      cases hr'
    · rw [behind?_of_head?_ne hblank]
      rfl
  simp only [readNamed, hread, bind, Option.bind, pure]

/-! ### Types that begin with a name -/

def BeginsName (cs : List Char) : Prop := ∃ c, cs.head? = some c ∧ isNameChar c = true

theorem BeginsName.append {cs : List Char} (h : BeginsName cs) (r : List Char) :
    BeginsName (cs ++ r) := by
  obtain ⟨c, hc, hname⟩ := h
  exact ⟨c, by rw [List.head?_append, hc, Option.some_or], hname⟩

theorem BeginsName.head?_ne {cs : List Char} (h : BeginsName cs) {c : Char}
    (hc : isNameChar c = false) : cs.head? ≠ some c := by
  obtain ⟨c', hc', hname⟩ := h
  intro heq
  rw [Option.some.inj (hc'.symm.trans heq), hc] at hname
  cases hname

theorem beginsName_of_isName {s : String} (h : isName s = true) : BeginsName s.toList := by
  obtain ⟨hne, hs, -⟩ := isName_iff.mp h
  cases hcs : s.toList with
  | nil => exact absurd (String.toList_eq_nil_iff.mp hcs) hne
  | cons c cs =>
    rw [hcs] at hs
    exact ⟨c, rfl, List.all_eq_true.mp hs c List.mem_cons_self⟩

theorem beginsName_nominal {t : Nominal} (hl : t.isLegible = true) :
    BeginsName (renderNominal none d t).toList := by
  cases t with
  | plain s => exact beginsName_of_isName hl
  | generic s ts =>
    simp only [Nominal.isLegible, Bool.and_eq_true, Bool.not_eq_true'] at hl
    rw [renderNominal, hl.1.2, if_neg Bool.false_ne_true, genericText, String.toList_append,
      String.toList_append, String.toList_append]
    exact (((beginsName_of_isName hl.1.1.1).append _).append _).append _

theorem beginsName_intercalate {separator t : String} {ts : List String} (h : BeginsName t.toList) :
    BeginsName (separator.intercalate (t :: ts)).toList := by
  rw [String.toList_intercalate, List.map_cons, intercalate_cons_eq]
  exact h.append _

theorem beginsName_component {t : Component} (hl : t.isLegible = true) :
    BeginsName (renderComponent none d t).toList := by
  cases t with
  | nominal t => exact beginsName_nominal hl
  | nested a b rest =>
    simp only [Component.isLegible, Bool.and_eq_true] at hl
    exact beginsName_intercalate (beginsName_nominal hl.1.1)

theorem exists_text_eq (a : BlockAttribute) : ∃ p, a.text.toList ++ [' '] = '@' :: p := by
  rcases a with _ | _ | (_ | _ | _) <;> exact ⟨_, rfl⟩

theorem readAttributes_of_head?_ne {cs : List Char} (h : cs.head? ≠ some '@')
    (as : List BlockAttribute) : readAttributes as cs = (.empty, cs) := by
  induction as with
  | nil => rfl
  | cons a as ih =>
    obtain ⟨p, hp⟩ := exists_text_eq a
    rw [readAttributes, hp, behind?_of_head?_ne h]
    exact ih

theorem readParens_of_head?_ne {cs : List Char} (hattribute : cs.head? ≠ some '@')
    (hparen : cs.head? ≠ some '(') : readParens inner cs = none := by
  simp only [readParens, readAttributes_of_head?_ne hattribute, behind?_of_head?_ne hparen, bind,
    Option.bind]

theorem readHead_of_beginsName {cs : List Char} (h : BeginsName cs) :
    readHead inner cs = readNamed inner cs := by
  have hbracket := h.head?_ne (c := '[') (by decide)
  rw [readHead, readParens_of_head?_ne (h.head?_ne (by decide)) (h.head?_ne (by decide)),
    behind?_of_head?_ne hbracket]
  rfl

theorem readHead_component {c : Component}
    (hc : ∀ r, AfterChain r → readComponent inner ((renderComponent none d c).toList ++ r) =
      some (c, r))
    (hname : BeginsName (renderComponent none d c).toList) (hr : Tail r) :
    readHead inner ((renderComponent none d c).toList ++ r) = some (ofComponents [c], r) := by
  have hread := readNamed_components (List.cons_ne_nil c []) (List.forall_mem_singleton.mpr hc)
    hr.afterChain (hr.head?_ne (by decide))
  rw [List.map_cons, List.map_nil, String.intercalate_singleton] at hread
  rw [readHead_of_beginsName (hname.append r), hread]

theorem readHead_void (hr : Tail r) : readHead inner ("Void".toList ++ r) = some (void, r) :=
  readHead_component (d := 0) (c := .nominal (.plain "Void"))
    (fun _ hr => readComponent_nominal
      (fun _ hr => readNominal_plain (by decide) (by decide) (by decide) hr) hr)
    ⟨'V', rfl, by decide⟩ hr

theorem readHead_composition (h : ReadsBack n inner) {cs : List Component} (hlength : 2 ≤ cs.length)
    (hl : Component.allLegible cs = true) (hn : Component.levelsAll cs ≤ n) (hr : Closing r) :
    readHead inner ((renderWithin none d (composition cs)).toList ++ r) =
      some (composition cs, r) := by
  rw [Component.allLegible_iff] at hl
  rw [Component.levelsAll_le] at hn
  match cs, hlength with
  | a :: b :: rest, _ =>
    have hread : readNamed inner ((" & ".intercalate
        ((a :: b :: rest).map (renderComponent none d))).toList ++ r) =
          some (ofComponents (a :: b :: rest), r) :=
      readNamed_components (List.cons_ne_nil _ _)
        (fun t ht r hr => readComponent_render h (hl t ht) (hn t ht) hr)
        (Tail.closing hr).afterChain ((Tail.closing hr).head?_ne (by decide))
    have hname : BeginsName
        (" & ".intercalate ((a :: b :: rest).map (renderComponent none d))).toList :=
      beginsName_intercalate (beginsName_component (hl a List.mem_cons_self))
    rw [renderWithin, limited, renderComponents_eq_map, readHead_of_beginsName (hname.append r),
      hread]
    cases a <;> rfl

end SwiftType

end HeaderBridge
