import HeaderBridge.Proofs.Outline.Growth

/-! # Nested use of a rule map

Entering a rule opens what the rule is mapped to and leaving it closes the same
node, as long as everything in between is nested in the same way. Rules may be
switched off in between, the entered one included, and one node may be opened
again while it is open: with every step undone in its turn, nothing goes wrong,
and the open nodes and the rules that are switched off end up as they were.
-/

namespace HeaderBridge.Outline

open Grammar (Rule)

/-! ### Steps -/

inductive Step where
  | enter (rule : Rule) (span : Option Span)
  | leave (rule : Rule)
  | suppress (rule : Rule)
  | restore
  | addLeaf (e : Entry)

def Step.run : Step → RuleMap × Draft → Except Fault (RuleMap × Draft)
  | enter rule span, (m, d) => do return (m, (← m.enter rule span d).2)
  | leave rule, (m, d) => do return (m, ← m.leave rule d)
  | suppress rule, (m, d) => .ok (m.suppress rule, d)
  | restore, (m, d) => .ok (m.restore.2, d)
  | addLeaf e, (m, d) => do return (m, (← d.addLeaf e).2)

def runSteps (steps : List Step) (s : RuleMap × Draft) : Except Fault (RuleMap × Draft) :=
  steps.foldlM (fun s step => step.run s) s

/-- Steps in which every rule that is entered is left, and every rule that is
switched off is restored, in the opposite order. -/
inductive WellNested : List Step → Prop where
  | nil : WellNested []
  | append {steps more : List Step} : WellNested steps → WellNested more →
    WellNested (steps ++ more)
  | rule {steps : List Step} (rule : Rule) (span : Option Span) :
      WellNested steps → WellNested (.enter rule span :: (steps ++ [.leave rule]))
  | exception {steps : List Step} (rule : Rule) :
      WellNested steps → WellNested (.suppress rule :: (steps ++ [.restore]))
  | leaf (e : Entry) : e.parent = none → WellNested [.addLeaf e]

/-- A rule map that was made by mapping rules to new nodes and to nodes below a
bound, with any rules switched off. -/
inductive RuleMap.Registered (bound : Nat) : RuleMap → Prop where
  | empty : Registered bound {}
  | fresh {m m' : RuleMap} (rule : Rule) (tag : Tag) :
      Registered bound m → m.mapFresh rule tag = .ok m' → Registered bound m'
  | existing {m m' : RuleMap} (rule : Rule) (id : Nat) :
      Registered bound m → id < bound → m.mapExisting rule id = .ok m' → Registered bound m'
  | suppress {m : RuleMap} (rule : Rule) : Registered bound m → Registered bound (m.suppress rule)

/-- Every open node is a node of the outline: only nodes that are there can be opened. -/
def Draft.Sound (d : Draft) : Prop := ∀ i ∈ d.opened, i < d.outline.size

/-! ### Outlines that keep their kinds -/

/-- The second outline has the nodes of the first, each with its kind. -/
structure Keeps (o o' : Outline) : Prop where
  size_le : o.size ≤ o'.size
  kind : ∀ i, i < o.size → o'.kindOf? i = o.kindOf? i

namespace Keeps

variable {o o₁ o₂ : Outline}

theorem refl (o : Outline) : Keeps o o := ⟨Nat.le_refl _, fun _ _ => rfl⟩

theorem trans (h : Keeps o o₁) (h' : Keeps o₁ o₂) : Keeps o o₂ :=
  ⟨Nat.le_trans h.size_le h'.size_le, fun i hi =>
    (h'.kind i (Nat.lt_of_lt_of_le hi h.size_le)).trans (h.kind i hi)⟩

theorem alloc (o : Outline) (e : Entry) : Keeps o (o.alloc e).2 := by
  refine ⟨by rw [size_alloc]; omega, fun i hi => ?_⟩
  rw [kindOf?, get?_alloc, if_neg (Nat.ne_of_lt hi), kindOf?]

theorem modify (o : Outline) (j : Nat) {f : Entry → Entry} (hf : ∀ e, (f e).kind = e.kind) :
    Keeps o (o.modify j f) := by
  refine ⟨Nat.le_of_eq (size_modify f).symm, fun i _ => ?_⟩
  rw [kindOf?, kindOf?, get?_modify]
  split
  · rw [Option.map_map]
    exact Option.map_congr fun e _ => hf e
  · rfl

end Keeps

/-- A node that hangs nowhere can be linked under any other, itself included. -/
theorem exists_append {o : Outline} {parent child : Nat} (hp : parent < o.size)
    (hc : child < o.size) (h : o.isAttached child = .ok false) :
    ∃ o', o.append parent child = .ok o' ∧ Keeps o o' := by
  obtain ⟨e, he⟩ := exists_get? hc
  have hroot : child ≠ root := by
    rintro rfl
    simp [isAttached] at h
  have hfree : e.parent = none := by
    simpa [isAttached, hroot, get_eq_ok he] using h
  have hk := Keeps.modify o child (f := fun e => { e with parent := some parent }) fun _ => rfl
  obtain ⟨t, ht⟩ := exists_get? (Nat.lt_of_lt_of_le hp hk.size_le)
  refine ⟨_, ?_, hk.trans (Keeps.modify _ parent
    (f := fun e => { e with children := e.children ++ [child] }) fun _ => rfl)⟩
  simp [append, hroot, get_eq_ok he, hfree, get_eq_ok ht]

/-! ### Opening and closing -/

namespace Draft

variable {d : Draft}

theorem Sound.keeps {d' : Draft} (h : d.Sound) (hk : Keeps d.outline d'.outline)
    (ho : d'.opened = d.opened) : d'.Sound := by
  intro i hi
  rw [ho] at hi
  exact Nat.lt_of_lt_of_le (h i hi) hk.size_le

theorem exists_openExisting (hd : d.Sound) {id : Nat} (hid : id < d.outline.size) :
    ∃ d', d.openExisting id = .ok d' ∧ d'.opened = id :: d.opened ∧
      Keeps d.outline d'.outline := by
  obtain ⟨o, opened⟩ := d
  cases opened with
  | nil => exact ⟨_, rfl, rfl, .refl o⟩
  | cons top rest =>
    have htop : top < o.size := hd top List.mem_cons_self
    obtain ⟨e, he⟩ := exists_get? hid
    obtain ⟨b, hb⟩ : ∃ b, o.isAttached id = .ok b := by
      by_cases hroot : id = root <;>
        simp [isAttached, hroot, get_eq_ok he]
    cases b with
    | true =>
      exact ⟨⟨o, id :: top :: rest⟩, by simp [openExisting, hb],
        rfl, .refl o⟩
    | false =>
      obtain ⟨o', ho', hk⟩ := exists_append htop hid hb
      exact ⟨⟨o', id :: top :: rest⟩,
        by simp [openExisting, hb, ho'], rfl, hk⟩

theorem exists_openNew (hd : d.Sound) (e : Entry) :
    ∃ d', d.openNew e = .ok (d.outline.size, d') ∧ d'.opened = d.outline.size :: d.opened ∧
      Keeps d.outline d'.outline ∧ d.outline.size < d'.outline.size ∧
      d'.outline.kindOf? d.outline.size = some e.kind := by
  have hk := Keeps.alloc d.outline e
  have hsound : Sound ⟨(d.outline.alloc e).2, d.opened⟩ := hd.keeps hk rfl
  have hnew : d.outline.size < (d.outline.alloc e).2.size := by rw [size_alloc]; omega
  obtain ⟨d', hopen, ho, hk'⟩ := exists_openExisting hsound hnew
  refine ⟨d', ?_, ho, hk.trans hk', Nat.lt_of_lt_of_le hnew hk'.size_le, ?_⟩
  · simp only [alloc] at hopen
    simp [openNew, alloc, hopen]
  · rw [hk'.kind _ hnew, kindOf?, get?_alloc, if_pos rfl, Option.map_some]

theorem exists_addLeaf (hd : d.Sound) {e : Entry} (he : e.parent = none) :
    ∃ id d', d.addLeaf e = .ok (id, d') ∧ d'.opened = d.opened ∧ Keeps d.outline d'.outline := by
  cases ho : d.opened with
  | nil => exact ⟨none, d, by rw [addLeaf, ho], ho, .refl _⟩
  | cons top rest =>
    have htop : top < d.outline.size := hd top (by rw [ho]; exact List.mem_cons_self)
    refine ⟨_, _, addLeaf_eq ho htop he, ho, (Keeps.alloc _ e).trans ?_⟩
    exact (Keeps.modify _ _ (f := fun e => { e with parent := some top }) fun _ => rfl).trans
      (Keeps.modify _ _ (f := fun e => { e with children := e.children ++ [d.outline.size] })
        fun _ => rfl)

end Draft

/-! ### Rules -/

namespace RuleMap

/-- What a rule is mapped to can be opened in an outline with the given number of nodes. -/
def Openable (bound : Nat) : Target → Prop
  | .fresh tag => ∃ kind, tag.fresh? = some kind
  | .existing id => id < bound

theorem targets_of_insert {m m' : RuleMap} {rule : Rule} {target : Target}
    (h : m.insert rule target = .ok m') : m'.targets = (rule, target) :: m.targets := by
  unfold insert at h
  split at h
  · simp at h
  · cases h
    rfl

theorem Registered.openable {bound : Nat} {m : RuleMap} (h : m.Registered bound) :
    ∀ z ∈ m.targets, Openable bound z.2 := by
  induction h with
  | empty => simp
  | fresh rule tag _ hm ih =>
    unfold mapFresh at hm
    split at hm
    · simp at hm
    · next kind hkind =>
      rw [targets_of_insert hm]
      exact List.forall_mem_cons.mpr ⟨⟨kind, hkind⟩, ih⟩
  | existing rule id _ hid hm ih =>
    rw [targets_of_insert hm]
    exact List.forall_mem_cons.mpr ⟨hid, ih⟩
  | suppress _ _ ih => exact ih

theorem mem_of_target? {m : RuleMap} {rule : Rule} {target : Target}
    (h : m.target? rule = some target) : (rule, target) ∈ m.targets := by
  unfold target? at h
  split at h
  · simp at h
  · obtain ⟨l₁, l₂, heq, -⟩ := List.lookup_eq_some_iff.mp h
    rw [heq]
    simp

/-- A rule can be entered, and left again whenever the same nodes are open as after
entering it. -/
theorem exists_enter {m : RuleMap} {d : Draft} (hd : d.Sound)
    (hm : ∀ z ∈ m.targets, Openable d.outline.size z.2) (rule : Rule) (span : Option Span) :
    ∃ id d', m.enter rule span d = .ok (id, d') ∧ d'.Sound ∧ Keeps d.outline d'.outline ∧
      ∀ d'' : Draft, d''.opened = d'.opened → Keeps d'.outline d''.outline →
        m.leave rule d'' = .ok { d'' with opened := d.opened } := by
  cases ht : m.target? rule with
  | none =>
    refine ⟨none, d, by rw [enter, ht], hd, .refl _, fun d'' ho _ => ?_⟩
    rw [leave, ht, ← ho]
  | some target =>
    have hopenable := hm _ (mem_of_target? ht)
    cases target with
    | fresh tag =>
      obtain ⟨kind, hkind⟩ := hopenable
      obtain ⟨d', hnew, ho, hk, hlt, hkindOf⟩ := d.exists_openNew hd { kind, span }
      refine ⟨some d.outline.size, d',
        by rw [enter, ht]; simp [hkind, hnew],
        ?_, hk, fun d'' ho' hk' => ?_⟩
      · intro i hi
        rw [ho] at hi
        rcases List.mem_cons.mp hi with rfl | hi
        · exact hlt
        · exact Nat.lt_of_lt_of_le (hd i hi) hk.size_le
      · -- the node on top is the one that was opened, and its kind has not changed
        obtain ⟨e, he⟩ := exists_get? (Nat.lt_of_lt_of_le hlt hk'.size_le)
        have htag : e.kind.tag = tag := by
          have hsame := hk'.kind _ hlt
          rw [hkindOf, kindOf?, he, Option.map_some, Option.some.injEq] at hsame
          rw [hsame, Tag.tag_of_fresh? hkind]
        rw [leave, ht]
        simp [Draft.close, ho', ho, get_eq_ok he, htag]
    | existing id =>
      obtain ⟨d', hopen, ho, hk⟩ := d.exists_openExisting hd hopenable
      refine ⟨some id, d', by rw [enter, ht]; simp [hopen],
        ?_, hk, fun d'' ho' _ => ?_⟩
      · intro i hi
        rw [ho] at hi
        rcases List.mem_cons.mp hi with rfl | hi
        · exact Nat.lt_of_lt_of_le hopenable hk.size_le
        · exact Nat.lt_of_lt_of_le (hd i hi) hk.size_le
      · rw [leave, ht]
        simp [Draft.close, ho', ho]

end RuleMap

/-! ### Well-nested steps -/

theorem runSteps_append (steps more : List Step) (s : RuleMap × Draft) :
    runSteps (steps ++ more) s = runSteps steps s >>= runSteps more :=
  List.foldlM_append

theorem runSteps_cons (step : Step) (steps : List Step) (s : RuleMap × Draft) :
    runSteps (step :: steps) s = step.run s >>= runSteps steps :=
  List.foldlM_cons

theorem runSteps_singleton (step : Step) (s : RuleMap × Draft) :
    runSteps [step] s = step.run s := by
  rw [runSteps_cons]
  cases step.run s <;> rfl

/-- Well-nested steps can be taken, and keep what the next ones rely on. -/
theorem WellNested.exists_runSteps {steps : List Step} (h : WellNested steps) :
    ∀ {m : RuleMap} {d : Draft}, d.Sound →
      (∀ z ∈ m.targets, RuleMap.Openable d.outline.size z.2) →
      ∃ d', runSteps steps (m, d) = .ok (m, d') ∧ d'.opened = d.opened ∧
        Keeps d.outline d'.outline := by
  have hmore : ∀ {m : RuleMap} {d d' : Draft}, Keeps d.outline d'.outline →
      (∀ z ∈ m.targets, RuleMap.Openable d.outline.size z.2) →
      ∀ z ∈ m.targets, RuleMap.Openable d'.outline.size z.2 := by
    intro m d d' hk hm z hz
    have hz := hm z hz
    cases ht : z.2 with
    | fresh tag => rwa [ht] at hz
    | existing id =>
      rw [ht] at hz
      exact Nat.lt_of_lt_of_le hz hk.size_le
  induction h with
  | nil => intro m d _ _; exact ⟨d, rfl, rfl, .refl _⟩
  | append _ _ ih ih' =>
    intro m d hd hm
    obtain ⟨d₁, hrun, ho, hk⟩ := ih hd hm
    obtain ⟨d₂, hrun', ho', hk'⟩ := ih' (hd.keeps hk ho) (hmore hk hm)
    refine ⟨d₂, ?_, ho'.trans ho, hk.trans hk'⟩
    rw [runSteps_append, hrun]
    exact hrun'
  | rule r span _ ih =>
    intro m d hd hm
    obtain ⟨id, d₁, henter, hd₁, hk₁, hleave⟩ := RuleMap.exists_enter hd hm r span
    obtain ⟨d₂, hrun, ho₂, hk₂⟩ := ih hd₁ (hmore hk₁ hm)
    refine ⟨{ d₂ with opened := d.opened }, ?_, rfl, hk₁.trans hk₂⟩
    have hfirst : (Step.enter r span).run (m, d) = .ok (m, d₁) := by
      simp [Step.run, henter]
    have hlast : (Step.leave r).run (m, d₂) = .ok (m, { d₂ with opened := d.opened }) := by
      simp [Step.run, hleave d₂ ho₂ hk₂]
    rw [runSteps_cons, hfirst, ← hlast, ← runSteps_singleton]
    show runSteps (_ ++ _) (m, d₁) = _
    rw [runSteps_append, hrun]
    rfl
  | exception r _ ih =>
    intro m d hd hm
    -- the targets of a rule map stay when a rule is switched off
    obtain ⟨d', hrun, ho, hk⟩ := ih (m := m.suppress r) hd hm
    refine ⟨d', ?_, ho, hk⟩
    have hlast : Step.restore.run (m.suppress r, d') = .ok (m, d') := rfl
    rw [runSteps_cons, ← hlast, ← runSteps_singleton]
    show runSteps (_ ++ _) (m.suppress r, d) = _
    rw [runSteps_append, hrun]
    rfl
  | leaf e he =>
    intro m d hd _
    obtain ⟨id, d', hleaf, ho, hk⟩ := d.exists_addLeaf hd he
    refine ⟨d', ?_, ho, hk⟩
    rw [runSteps_singleton]
    simp [Step.run, hleaf]

/-- Well-nested steps never fail, and leave the open nodes and the rules that are
switched off as they found them. -/
theorem runSteps_wellNested {m : RuleMap} {d : Draft} {steps : List Step}
    (hm : m.Registered d.outline.size) (hd : d.Sound) (h : WellNested steps) :
    ∃ d', runSteps steps (m, d) = .ok (m, d') ∧ d'.opened = d.opened := by
  obtain ⟨d', hrun, ho, -⟩ := h.exists_runSteps hd hm.openable
  exact ⟨d', hrun, ho⟩

/-- A node that hangs nowhere is opened inside itself, and the rule that opens it is
switched off while it is open. -/
theorem runSteps_reopened : ∃ d', runSteps
      [.enter .instanceVariables none, .enter .instanceVariables none,
        .suppress .instanceVariables, .enter .instanceVariables none, .enter .protocolList none,
        .addLeaf { kind := .protocolName "P" }, .leave .protocolList, .leave .instanceVariables,
        .restore, .leave .instanceVariables, .leave .instanceVariables]
      ({ targets := [(.protocolList, .fresh .protocolList), (.instanceVariables, .existing 1)] },
        ⟨⟨#[{ kind := .header }, { kind := .ivarList }]⟩, []⟩) =
    .ok ({ targets := [(.protocolList, .fresh .protocolList), (.instanceVariables, .existing 1)] },
      d') ∧ d'.opened = [] := by
  refine runSteps_wellNested (.fresh .protocolList .protocolList
    (.existing .instanceVariables 1 .empty ?_ rfl) rfl) ?_ ?_
  · decide
  · simp [Draft.Sound]
  · exact .rule _ _ (.rule _ _ (.exception _ (.rule _ _ (.rule _ _ (.leaf _ rfl)))))

end HeaderBridge.Outline
