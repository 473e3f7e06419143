import HeaderBridge.Proofs.Outline.Growth
import Mathlib.Data.List.Perm.Subperm

/-! # The links of an outline under construction

Whatever is opened, closed and added, and in whatever order, the two sides of
every link agree and a node hangs in one place at most. The links form a forest
as long as no node is hung below itself: nothing keeps a node that hangs nowhere
from being opened again inside its own tree.
-/

namespace HeaderBridge.Outline

open Grammar (Rule)

/-! ### Actions -/

/-- What can be done to an outline under construction, by itself or through a rule map. -/
inductive Action where
  | openNew (kind : Kind) (span : Option Span)
  | openExisting (id : Nat)
  | close
  | addLeaf (kind : Kind) (span : Option Span)
  | enter (rules : RuleMap) (rule : Rule) (span : Option Span)
  | leave (rules : RuleMap) (rule : Rule)

def Action.run : Action → Draft → Except Fault Draft
  | openNew kind span, d => do return (← d.openNew { kind, span }).2
  | openExisting id, d => d.openExisting id
  | close, d => .ok d.close.2
  | addLeaf kind span, d => do return (← d.addLeaf { kind, span }).2
  | enter m rule span, d => do return (← m.enter rule span d).2
  | leave m rule, d => m.leave rule d

def runActions (actions : List Action) (d : Draft) : Except Fault Draft :=
  actions.foldlM (fun d a => a.run d) d

/-- The link that is made when a node gets its place below the innermost open one,
as parent and child; a node that has its place already gets no other. -/
def Draft.link? (d : Draft) (id : Nat) : Option (Nat × Nat) :=
  match d.opened with
  | [] => none
  | top :: _ => if id = root ∨ (d.outline.parentOf id).isSome then none else some (top, id)

def Action.link? (d : Draft) : Action → Option (Nat × Nat)
  | openNew _ _ | addLeaf _ _ => d.link? d.outline.size
  | openExisting id => d.link? id
  | close | leave _ _ => none
  | enter m rule _ =>
    match m.target? rule with
    | none => none
    | some (.fresh tag) => if tag.fresh?.isSome then d.link? d.outline.size else none
    | some (.existing id) => d.link? id

/-! ### Going up and down -/

/-- Going up from the first node leads to the second. -/
inductive Under (o : Outline) : Nat → Nat → Prop where
  | refl (i : Nat) : Under o i i
  | up {i p j : Nat} : o.parentOf i = some p → Under o p j → Under o i j

/-- Going up from a node comes to an end after the given number of links. -/
inductive Climbs (o : Outline) : Nat → Nat → Prop where
  | top {i : Nat} : o.parentOf i = none → Climbs o i 0
  | up {i p n : Nat} : o.parentOf i = some p → Climbs o p n → Climbs o i (n + 1)

/-- Taking the first node of a list and putting its children in its place, again
and again, comes to an end with the given nodes taken. -/
inductive Unfolds (o : Outline) : List Nat → List Nat → Prop where
  | nil : Unfolds o [] []
  | cons {i : Nat} {is js : List Nat} :
      Unfolds o (o.childrenOf i ++ is) js → Unfolds o (i :: is) (i :: js)

/-- The two sides of all links agree, and the root hangs nowhere. -/
structure Linked (o : Outline) : Prop where
  mem_childrenOf : ∀ p c, c ∈ o.childrenOf p ↔ o.parentOf c = some p
  nodup : ∀ p, (o.childrenOf p).Nodup
  root : o.parentOf root = none

/-- Going up comes to an end from every node. -/
def Grounded (o : Outline) : Prop := ∀ i, ∃ n, Climbs o i n

/-- An action hangs a node below itself. -/
def Action.ClosesCircle (a : Action) (d : Draft) : Prop :=
  ∃ p c, a.link? d = some (p, c) ∧ d.outline.Under p c

/-- No action of a run hangs a node below itself. -/
def AvoidsCircles : List Action → Draft → Prop
  | [], _ => True
  | a :: as, d => ¬ a.ClosesCircle d ∧ ∀ d', a.run d = .ok d' → AvoidsCircles as d'

section Climbing

variable {o : Outline} {i j m n : Nat}

theorem lt_size_of_parentOf {p : Nat} (h : o.parentOf i = some p) : i < o.size := by
  by_contra hge
  simp [parentOf, get?_eq_none_iff.mpr (Nat.le_of_not_lt hge)] at h

theorem get_eq_error (h : o.get? i = none) : o.get i = .error (.outOfRange o.size i) := by
  simp [get, h]

theorem get?_of_get {e : Entry} (h : o.get i = .ok e) : o.get? i = some e := by
  cases hi : o.get? i with
  | none => simp [get_eq_error hi] at h
  | some t => rw [← Except.ok.inj ((get_eq_ok hi).symm.trans h)]

theorem lt_size_of_get {e : Entry} (h : o.get i = .ok e) : i < o.size := by
  by_contra hge
  simp [get_eq_error (get?_eq_none_iff.mpr (Nat.le_of_not_lt hge))] at h

theorem Climbs.unique (h : Climbs o i m) (h' : Climbs o i n) : m = n := by
  induction h generalizing n with
  | top hi =>
    cases h' with
    | top => rfl
    | up hp => simp [hi] at hp
  | up hi _ ih =>
    cases h' with
    | top hp => simp [hi] at hp
    | up hp hn =>
      obtain rfl := Option.some.inj (hi.symm.trans hp)
      rw [ih hn]

theorem Under.trans {k : Nat} (h : Under o i j) (h' : Under o j k) : Under o i k := by
  induction h with
  | refl => exact h'
  | up hp _ ih => exact .up hp (ih h')

theorem Under.climbs (h : Under o i j) (hi : Climbs o i n) : ∃ m, m ≤ n ∧ Climbs o j m := by
  induction h generalizing n with
  | refl => exact ⟨n, Nat.le_refl n, hi⟩
  | up hp _ ih =>
    cases hi with
    | top hnone => simp [hp] at hnone
    | up hp' hn =>
      obtain rfl := Option.some.inj (hp.symm.trans hp')
      obtain ⟨m, hm, hj⟩ := ih hn
      exact ⟨m, by omega, hj⟩

/-- Where going up comes to an end, no node is under one of its children. -/
theorem Grounded.not_under (h : Grounded o) {c p : Nat} (hc : o.parentOf c = some p) :
    ¬ Under o p c := by
  intro hu
  obtain ⟨n, hn⟩ := h p
  obtain ⟨m, hm, hclimb⟩ := hu.climbs hn
  have heq := hclimb.unique (.up hc hn)
  omega

/-- Two nodes above the same node are above each other in one order or the other. -/
theorem Under.linear {k : Nat} (h : Under o i j) (h' : Under o i k) :
    Under o j k ∨ Under o k j := by
  induction h with
  | refl => exact .inl h'
  | up hp hj ih =>
    cases h' with
    | refl => exact .inr (.up hp hj)
    | up hp' hk =>
      obtain rfl := Option.some.inj (hp.symm.trans hp')
      exact ih hk

theorem Climbs.exists_path (h : Climbs o i n) : ∃ l : List Nat, l.length = n ∧ l.Nodup ∧
    ∀ j ∈ l, j < o.size ∧ ∃ m, m ≤ n ∧ Climbs o j m := by
  induction h with
  | top => exact ⟨[], rfl, .nil, by simp⟩
  | @up i p n hp hn ih =>
    obtain ⟨l, hlen, hnodup, hl⟩ := ih
    refine ⟨i :: l, by simp [hlen], List.nodup_cons.mpr ⟨fun hi => ?_, hnodup⟩, ?_⟩
    · obtain ⟨-, m, hm, hclimb⟩ := hl i hi
      have heq := hclimb.unique (.up hp hn)
      omega
    · rintro j (_ | ⟨_, hj⟩)
      · exact ⟨lt_size_of_parentOf hp, _, Nat.le_refl _, .up hp hn⟩
      · obtain ⟨hlt, m, hm, hclimb⟩ := hl j hj
        exact ⟨hlt, m, by omega, hclimb⟩

theorem length_le_size {l : List Nat} (hl : l.Nodup) (h : ∀ j ∈ l, j < o.size) :
    l.length ≤ o.size := by
  have hsub : l ⊆ List.range o.size := fun j hj => List.mem_range.mpr (h j hj)
  simpa using (List.subperm_of_subset hl hsub).length_le

theorem Climbs.le_size (h : Climbs o i n) : n ≤ o.size := by
  obtain ⟨l, rfl, hnodup, hl⟩ := h.exists_path
  exact length_le_size hnodup fun j hj => (hl j hj).1

theorem Climbs.linksUp_eq (h : Climbs o i n) : ∀ m, n ≤ m → o.linksUp m i = n := by
  induction h with
  | top hi =>
    rintro (_ | m) _
    · rfl
    · rw [linksUp, hi]
  | up hp _ ih =>
    rintro (_ | m) hm
    · omega
    · rw [linksUp, hp]
      exact congrArg (· + 1) (ih m (by omega))

theorem Climbs.depth_eq (h : Climbs o i n) : o.depth i = n :=
  h.linksUp_eq o.size h.le_size

end Climbing

/-! ### Listing what is below a node -/

section Unfolding

variable {o : Outline} {is js : List Nat} {i x : Nat}

theorem Unfolds.append {is' js' : List Nat} (h : Unfolds o is js) (h' : Unfolds o is' js') :
    Unfolds o (is ++ is') (js ++ js') := by
  induction h with
  | nil => exact h'
  | cons _ ih => exact .cons (by simpa using ih)

theorem Unfolds.unfold_eq (h : Unfolds o is js) : ∀ n, js.length ≤ n → o.unfold n is = js := by
  induction h with
  | nil =>
    rintro (_ | n) _ <;> rfl
  | cons _ ih =>
    rintro (_ | n) hn
    · simp at hn
    · rw [unfold, ih n (by simpa using hn)]

theorem under_iff (hl : Linked o) : Under o x i ↔ x = i ∨ ∃ c ∈ o.childrenOf i, Under o x c := by
  constructor
  · intro h
    induction h with
    | refl => exact .inl rfl
    | @up x p i hp _ ih =>
      refine .inr ?_
      rcases ih with rfl | ⟨c, hc, hpc⟩
      · exact ⟨x, (hl.mem_childrenOf _ _).mpr hp, .refl x⟩
      · exact ⟨c, hc, .up hp hpc⟩
  · rintro (rfl | ⟨c, hc, hxc⟩)
    · exact .refl x
    · exact hxc.trans (.up ((hl.mem_childrenOf _ _).mp hc) (.refl i))

theorem Unfolds.mem_iff (hl : Linked o) (h : Unfolds o is js) :
    x ∈ js ↔ ∃ i ∈ is, Under o x i := by
  induction h with
  | nil => simp
  | @cons i is js _ ih =>
    rw [List.mem_cons, ih]
    simp only [List.mem_append, List.mem_cons, or_and_right, exists_or, exists_eq_left]
    rw [under_iff hl (i := i), or_assoc]

/-- Nothing is under two nodes of the list. -/
def Apart (o : Outline) (is : List Nat) : Prop :=
  is.Pairwise fun i j => ∀ x, ¬ (Under o x i ∧ Under o x j)

theorem apart_childrenOf (hl : Linked o) (hg : Grounded o) (i : Nat) :
    Apart o (o.childrenOf i) := by
  refine (hl.nodup i).imp_of_mem fun {a b} ha hb hne x => ?_
  rintro ⟨hxa, hxb⟩
  -- one of two different children would be under the other, and so their parent would
  have hpa := (hl.mem_childrenOf i a).mp ha
  have hpb := (hl.mem_childrenOf i b).mp hb
  have hstep : ∀ {c d : Nat}, o.parentOf c = some i → o.parentOf d = some i → c ≠ d →
      ¬ Under o c d := by
    rintro c d hc hd hcd (_ | ⟨hp, hu⟩)
    · exact hcd rfl
    · obtain rfl := Option.some.inj (hc.symm.trans hp)
      exact hg.not_under hd hu
  rcases hxa.linear hxb with hu | hu
  · exact hstep hpa hpb hne hu
  · exact hstep hpb hpa (Ne.symm hne) hu

theorem Unfolds.nodup (hl : Linked o) (hg : Grounded o) (h : Unfolds o is js) (ha : Apart o is) :
    js.Nodup := by
  induction h with
  | nil => exact .nil
  | @cons i is js hjs ih =>
    obtain ⟨hi, his⟩ := List.pairwise_cons.mp ha
    have hbelow : ∀ {c x : Nat}, c ∈ o.childrenOf i → Under o x c → Under o x i := fun hc hx =>
      (under_iff hl).mpr (.inr ⟨_, hc, hx⟩)
    refine List.nodup_cons.mpr ⟨fun hmem => ?_, ih ?_⟩
    · obtain ⟨j, hj, hij⟩ := (hjs.mem_iff hl).mp hmem
      rcases List.mem_append.mp hj with hj | hj
      · exact hg.not_under ((hl.mem_childrenOf i j).mp hj) hij
      · exact hi j hj i ⟨.refl i, hij⟩
    · refine List.pairwise_append.mpr ⟨apart_childrenOf hl hg i, his, fun c hc j hj x => ?_⟩
      rintro ⟨hxc, hxj⟩
      exact hi j hj x ⟨hbelow hc hxc, hxj⟩

/-- Below every node, going down comes to an end. The induction is on the number of
links that a way up can still gain. -/
theorem exists_unfolds (hl : Linked o) (hg : Grounded o) (i : Nat) :
    ∃ js, Unfolds o (o.childrenOf i) js := by
  have hdown : ∀ k i n, Climbs o i n → o.size - n = k → ∃ js, Unfolds o (o.childrenOf i) js := by
    intro k
    induction k with
    | zero =>
      intro i n hi hk
      cases hch : o.childrenOf i with
      | nil => exact ⟨[], .nil⟩
      | cons c cs =>
        have hc := (hl.mem_childrenOf i c).mp (by rw [hch]; exact List.mem_cons_self)
        have hle := (Climbs.up hc hi).le_size
        omega
    | succ k ih =>
      intro i n hi hk
      have hall : ∀ cs : List Nat, (∀ c ∈ cs, c ∈ o.childrenOf i) → ∃ js, Unfolds o cs js := by
        intro cs
        induction cs with
        | nil => exact fun _ => ⟨[], .nil⟩
        | cons c cs ihcs =>
          intro hcs
          have hc := (hl.mem_childrenOf i c).mp (hcs c List.mem_cons_self)
          obtain ⟨js, hjs⟩ := ih c (n + 1) (.up hc hi) (by omega)
          obtain ⟨js', hjs'⟩ := ihcs fun d hd => hcs d (List.mem_cons_of_mem c hd)
          exact ⟨_, .cons (hjs.append hjs')⟩
      exact hall _ fun c hc => hc
  obtain ⟨n, hn⟩ := hg i
  exact hdown _ i n hn rfl

theorem Unfolds.descendants_eq (hl : Linked o) (hg : Grounded o)
    (h : Unfolds o (o.childrenOf i) js) : o.descendants i = js := by
  refine h.unfold_eq o.size
    (length_le_size (h.nodup hl hg (apart_childrenOf hl hg i)) fun x hx => ?_)
  obtain ⟨c, hc, hxc⟩ := (h.mem_iff hl).mp hx
  cases hxc with
  | refl => exact lt_size_of_parentOf ((hl.mem_childrenOf i x).mp hc)
  | up hp => exact lt_size_of_parentOf hp

end Unfolding

/-! ### What an action does to the links -/

/-- Two outlines with the same links. -/
structure SameLinks (o o' : Outline) : Prop where
  parentOf : ∀ i, o'.parentOf i = o.parentOf i
  childrenOf : ∀ i, o'.childrenOf i = o.childrenOf i

/-- The second outline has one link more: a node that hung nowhere is the last child of another. -/
structure NewLink (o o' : Outline) (p c : Nat) : Prop where
  ne_root : c ≠ root
  free : o.parentOf c = none
  parentOf : ∀ i, o'.parentOf i = if i = c then some p else o.parentOf i
  childrenOf : ∀ i, o'.childrenOf i = if i = p then o.childrenOf i ++ [c] else o.childrenOf i

section Links

variable {o o' o'' : Outline} {p c : Nat}

theorem SameLinks.refl (o : Outline) : SameLinks o o := ⟨fun _ => rfl, fun _ => rfl⟩

theorem SameLinks.newLink (h : SameLinks o o') (h' : NewLink o' o'' p c) : NewLink o o'' p c where
  ne_root := h'.ne_root
  free := by rw [← h.parentOf, h'.free]
  parentOf i := by rw [h'.parentOf, h.parentOf]
  childrenOf i := by rw [h'.childrenOf, h.childrenOf]

theorem sameLinks_alloc (o : Outline) (kind : Kind) (span : Option Span) :
    SameLinks o (o.alloc { kind, span }).2 := by
  have hnone : o.get? o.size = none := get?_eq_none_iff.mpr (Nat.le_refl _)
  constructor <;> intro i <;> by_cases hi : i = o.size <;>
    simp [Outline.parentOf, Outline.childrenOf, get?_alloc, hi, hnone]

theorem append_eq_ok (h : o.append p c = .ok o') :
    c ≠ root ∧ o.parentOf c = none ∧ c < o.size ∧ p < o.size ∧
      ∀ i, o'.get? i = (o.get? i).map fun e => { e with
        parent := if c = i then some p else e.parent
        children := if p = i then e.children ++ [c] else e.children } := by
  by_cases hroot : c = root
  · simp [append, hroot] at h
  rw [append, if_neg hroot] at h
  obtain ⟨e, he, h⟩ := bind_eq_ok_iff.mp h
  have hc := get?_of_get he
  cases hfree : e.parent with
  | some q => simp [hfree] at h
  | none =>
    simp only [hfree] at h
    obtain ⟨t, ht, h⟩ := bind_eq_ok_iff.mp h
    obtain rfl := Except.ok.inj h
    refine ⟨hroot, by simp [Outline.parentOf, hc, hfree], lt_size_of_get he,
      by simpa using lt_size_of_get ht, fun i => ?_⟩
    by_cases hci : c = i <;> by_cases hpi : p = i <;>
      simp [get?_modify, hci, hpi, Function.comp_def]

theorem newLink_of_append (h : o.append p c = .ok o') : NewLink o o' p c := by
  obtain ⟨hroot, hfree, hc, hp, hget⟩ := append_eq_ok h
  refine ⟨hroot, hfree, fun i => ?_, fun i => ?_⟩
  · by_cases hic : i = c
    · subst hic
      obtain ⟨e, he⟩ := exists_get? hc
      simp [Outline.parentOf, hget, he]
    · cases he : o.get? i <;> simp [Outline.parentOf, hget, he, hic, Ne.symm hic]
  · by_cases hip : i = p
    · subst hip
      obtain ⟨e, he⟩ := exists_get? hp
      simp [Outline.childrenOf, hget, he]
    · cases he : o.get? i <;> simp [Outline.childrenOf, hget, he, hip, Ne.symm hip]

/-- The links between two outlines are as a link that may be made says. -/
def Relinks (link : Option (Nat × Nat)) (o o' : Outline) : Prop :=
  match link with
  | none => SameLinks o o'
  | some (p, c) => NewLink o o' p c

theorem SameLinks.relinks {link : Option (Nat × Nat)} (h : SameLinks o o')
    (h' : Relinks link o' o'') : Relinks link o o'' := by
  cases link with
  | none =>
    exact ⟨fun i => (h'.parentOf i).trans (h.parentOf i),
      fun i => (h'.childrenOf i).trans (h.childrenOf i)⟩
  | some l => exact h.newLink h'

end Links

section Actions

variable {d d' : Draft} {id : Nat}

theorem Draft.relinks_openExisting (h : d.openExisting id = .ok d') :
    Relinks (d.link? id) d.outline d'.outline := by
  obtain ⟨o, opened⟩ := d
  cases opened with
  | nil =>
    obtain rfl := Except.ok.inj h
    exact .refl o
  | cons top rest =>
    obtain ⟨attached, hattached, h⟩ := bind_eq_ok_iff.mp h
    have hplaced : attached = decide (id = root ∨ (o.parentOf id).isSome) := by
      by_cases hroot : id = root
      · simpa [isAttached, hroot] using hattached
      · cases hid : o.get? id with
        | none => simp [isAttached, hroot, get_eq_error hid] at hattached
        | some e => simpa [isAttached, hroot, get_eq_ok hid, parentOf, hid] using hattached.symm
    cases attached with
    | true =>
      obtain rfl := Except.ok.inj h
      simpa [link?, of_decide_eq_true hplaced.symm, Relinks] using SameLinks.refl o
    | false =>
      obtain ⟨o', ha, h⟩ := bind_eq_ok_iff.mp h
      obtain rfl := Except.ok.inj h
      simpa [link?, of_decide_eq_false hplaced.symm, Relinks] using newLink_of_append ha

theorem Draft.link?_congr (d : Draft) {o : Outline} (h : SameLinks d.outline o) :
    Draft.link? ⟨o, d.opened⟩ id = d.link? id := by
  simp only [link?, h.parentOf]

theorem Draft.relinks_openNew {kind : Kind} {span : Option Span}
    (h : d.openNew { kind, span } = .ok (id, d')) :
    Relinks (d.link? d.outline.size) d.outline d'.outline := by
  have halloc := sameLinks_alloc d.outline kind span
  obtain ⟨d'', ho, h⟩ := bind_eq_ok_iff.mp h
  obtain ⟨-, rfl⟩ := Prod.mk.inj (Except.ok.inj h)
  have hrelinks := relinks_openExisting ho
  exact halloc.relinks (d.link?_congr halloc ▸ hrelinks)

theorem Draft.relinks_addLeaf {kind : Kind} {span : Option Span} {leaf : Option Nat}
    (h : d.addLeaf { kind, span } = .ok (leaf, d')) :
    Relinks (d.link? d.outline.size) d.outline d'.outline := by
  have halloc := sameLinks_alloc d.outline kind span
  obtain ⟨o, opened⟩ := d
  cases opened with
  | nil =>
    obtain ⟨-, rfl⟩ := Prod.mk.inj (Except.ok.inj h)
    exact .refl o
  | cons top rest =>
    obtain ⟨z, hadd, h⟩ := bind_eq_ok_iff.mp h
    obtain ⟨o', ha, hz⟩ := bind_eq_ok_iff.mp hadd
    obtain rfl := Except.ok.inj hz
    obtain ⟨-, rfl⟩ := Prod.mk.inj (Except.ok.inj h)
    have hlink := halloc.newLink (newLink_of_append ha)
    simpa [link?, hlink.ne_root, hlink.free, Relinks] using hlink

theorem Draft.outline_close (d : Draft) : d.close.2.outline = d.outline := by
  unfold close
  split <;> rfl

theorem RuleMap.outline_leave {m : RuleMap} {rule : Rule} (h : m.leave rule d = .ok d') :
    d'.outline = d.outline := by
  have hclose := d.outline_close
  unfold leave at h
  split at h
  · obtain rfl := Except.ok.inj h
    rfl
  · next tag _ =>
    split at h
    · simp at h
    · next id e heq =>
      rw [heq] at hclose
      obtain ⟨entry, -, h⟩ := bind_eq_ok_iff.mp h
      by_cases htag : entry.kind.tag = tag
      · obtain rfl : e = d' := by simpa [htag] using h
        exact hclose
      · simp [htag] at h
  · split at h
    next found e heq =>
    rw [heq] at hclose
    split at h
    · obtain rfl := Except.ok.inj h
      exact hclose
    · simp at h

theorem Action.relinks {a : Action} (h : a.run d = .ok d') :
    Relinks (a.link? d) d.outline d'.outline := by
  cases a with
  | openNew kind span =>
    obtain ⟨z, hd, h⟩ := bind_eq_ok_iff.mp h
    obtain rfl := Except.ok.inj h
    exact d.relinks_openNew hd
  | openExisting id => exact d.relinks_openExisting h
  | close =>
    obtain rfl := Except.ok.inj h
    change SameLinks d.outline d.close.2.outline
    rw [d.outline_close]
    exact .refl _
  | addLeaf kind span =>
    obtain ⟨z, hd, h⟩ := bind_eq_ok_iff.mp h
    obtain rfl := Except.ok.inj h
    exact d.relinks_addLeaf hd
  | leave m rule =>
    change SameLinks d.outline d'.outline
    rw [RuleMap.outline_leave h]
    exact .refl _
  | enter m rule span =>
    obtain ⟨z, henter, h⟩ := bind_eq_ok_iff.mp h
    obtain rfl := Except.ok.inj h
    unfold RuleMap.enter at henter
    cases ht : m.target? rule with
    | none =>
      obtain rfl : (none, d) = z := by simpa [ht] using henter
      simpa [link?, ht, Relinks] using SameLinks.refl d.outline
    | some target =>
      cases target with
      | fresh tag =>
        cases hk : tag.fresh? with
        | none =>
          obtain rfl : (none, d) = z := by simpa [ht, hk] using henter
          simpa [link?, ht, hk, Relinks] using SameLinks.refl d.outline
        | some kind =>
          simp only [ht, hk] at henter
          obtain ⟨y, hd, hy⟩ := bind_eq_ok_iff.mp henter
          obtain rfl := Except.ok.inj hy
          simpa [link?, ht, hk] using d.relinks_openNew hd
      | existing id =>
        simp only [ht] at henter
        obtain ⟨y, hd, hy⟩ := bind_eq_ok_iff.mp henter
        obtain rfl := Except.ok.inj hy
        simpa [link?, ht] using d.relinks_openExisting hd

end Actions

/-! ### What a run does to the links -/

section Runs

variable {o o' : Outline} {p c : Nat}

theorem SameLinks.linked (h : SameLinks o o') (hl : Linked o) : Linked o' where
  mem_childrenOf q i := by rw [h.childrenOf, h.parentOf, hl.mem_childrenOf]
  nodup q := by rw [h.childrenOf]; exact hl.nodup q
  root := by rw [h.parentOf, hl.root]

theorem NewLink.linked (h : NewLink o o' p c) (hl : Linked o) : Linked o' where
  mem_childrenOf q i := by
    have hmem := hl.mem_childrenOf q i
    rw [h.childrenOf, h.parentOf]
    by_cases hic : i = c
    · -- a node that hung nowhere stood in no list
      subst hic
      rw [h.free] at hmem
      by_cases hqp : q = p <;> simp_all [eq_comm]
    · by_cases hqp : q = p <;> simp_all
  nodup q := by
    have hc : c ∉ o.childrenOf q := by simp [hl.mem_childrenOf, h.free]
    rw [h.childrenOf]
    split
    · exact List.nodup_append.mpr ⟨hl.nodup q, List.nodup_singleton c, by
        rintro i hi j hj rfl
        exact hc (List.mem_singleton.mp hj ▸ hi)⟩
    · exact hl.nodup q
  root := by rw [h.parentOf, if_neg (Ne.symm h.ne_root), hl.root]

theorem SameLinks.climbs (h : SameLinks o o') {i n : Nat} (hi : Climbs o i n) : Climbs o' i n := by
  induction hi with
  | top hp => exact .top (by rw [h.parentOf, hp])
  | up hp _ ih => exact .up (by rw [h.parentOf, hp]) ih

theorem SameLinks.symm (h : SameLinks o o') : SameLinks o' o :=
  ⟨fun i => (h.parentOf i).symm, fun i => (h.childrenOf i).symm⟩

theorem SameLinks.grounded_iff (h : SameLinks o o') : Grounded o' ↔ Grounded o :=
  ⟨fun hg i => (hg i).imp fun _ hn => h.symm.climbs hn,
    fun hg i => (hg i).imp fun _ hn => h.climbs hn⟩

namespace NewLink

variable (h : NewLink o o' p c)
include h

theorem parentOf_of_some {i q : Nat} (hi : o.parentOf i = some q) : o'.parentOf i = some q := by
  have hic : i ≠ c := by
    rintro rfl
    simp [h.free] at hi
  rw [h.parentOf, if_neg hic, hi]

theorem parentOf_child : o'.parentOf c = some p := by
  rw [h.parentOf, if_pos rfl]

theorem under {i j : Nat} (hi : Under o i j) : Under o' i j := by
  induction hi with
  | refl => exact .refl _
  | up hp _ ih => exact .up (h.parentOf_of_some hp) ih

theorem exists_climbs_before {i n : Nat} (hi : Climbs o' i n) : ∃ m, Climbs o i m := by
  induction hi with
  | @top i hp =>
    refine ⟨0, .top ?_⟩
    cases hq : o.parentOf i with
    | none => rfl
    | some q => simp [h.parentOf_of_some hq] at hp
  | @up i q n hp _ ih =>
    by_cases hic : i = c
    · subst hic
      exact ⟨0, .top h.free⟩
    · obtain ⟨m, hm⟩ := ih
      rw [h.parentOf, if_neg hic] at hp
      exact ⟨m + 1, .up hp hm⟩

theorem climbs_of_not_under {i n : Nat} (hi : Climbs o i n) (hu : ¬ Under o i c) :
    Climbs o' i n := by
  induction hi with
  | @top i hp =>
    have hic : i ≠ c := by
      rintro rfl
      exact hu (.refl i)
    exact .top (by rw [h.parentOf, if_neg hic, hp])
  | up hp _ ih => exact .up (h.parentOf_of_some hp) (ih fun hpc => hu (.up hp hpc))

/-- A new link keeps a way to the top from every node unless it closes a circle. -/
theorem grounded_iff : Grounded o' ↔ Grounded o ∧ ¬ Under o p c := by
  constructor
  · intro hg
    refine ⟨fun i => ?_, fun hu => hg.not_under h.parentOf_child (h.under hu)⟩
    obtain ⟨n, hn⟩ := hg i
    exact h.exists_climbs_before hn
  · rintro ⟨hg, hu⟩ i
    obtain ⟨k, hk⟩ := hg p
    have hchild : Climbs o' c (k + 1) := .up h.parentOf_child (h.climbs_of_not_under hk hu)
    obtain ⟨n, hn⟩ := hg i
    induction hn with
    | @top i hp =>
      by_cases hic : i = c
      · exact ⟨k + 1, hic ▸ hchild⟩
      · exact ⟨0, .top (by rw [h.parentOf, if_neg hic, hp])⟩
    | up hp _ ih =>
      obtain ⟨m, hm⟩ := ih
      exact ⟨m + 1, .up (h.parentOf_of_some hp) hm⟩

end NewLink

/-- One action keeps the two sides of the links in agreement, and the outline a forest
unless it closes a circle. -/
theorem Action.run_links {a : Action} {d d' : Draft} (h : a.run d = .ok d')
    (hl : Linked d.outline) :
    Linked d'.outline ∧ (Grounded d'.outline ↔ Grounded d.outline ∧ ¬ a.ClosesCircle d) := by
  have hrelinks := a.relinks h
  cases hlink : a.link? d with
  | none =>
    rw [hlink] at hrelinks
    have hno : ¬ a.ClosesCircle d := by
      rintro ⟨p, c, hpc, -⟩
      simp [hlink] at hpc
    exact ⟨SameLinks.linked hrelinks hl, by simp [SameLinks.grounded_iff hrelinks, hno]⟩
  | some l =>
    rw [hlink] at hrelinks
    have hcircle : a.ClosesCircle d ↔ Under d.outline l.1 l.2 := by
      constructor
      · rintro ⟨p, c, hpc, hu⟩
        obtain rfl := Option.some.inj (hlink.symm.trans hpc)
        exact hu
      · exact fun hu => ⟨l.1, l.2, hlink, hu⟩
    exact ⟨NewLink.linked hrelinks hl, by rw [NewLink.grounded_iff hrelinks, hcircle]⟩

theorem runActions_links {actions : List Action} : ∀ {d d' : Draft}, runActions actions d = .ok d' →
    Linked d.outline → Linked d'.outline ∧
      (Grounded d'.outline ↔ Grounded d.outline ∧ AvoidsCircles actions d) := by
  induction actions with
  | nil =>
    intro d d' h hl
    obtain rfl := Except.ok.inj h
    exact ⟨hl, by simp [AvoidsCircles]⟩
  | cons a as ih =>
    intro d d' h hl
    rw [runActions, List.foldlM_cons] at h
    obtain ⟨d₁, ha, h⟩ := bind_eq_ok_iff.mp h
    obtain ⟨hl₁, hg₁⟩ := a.run_links ha hl
    obtain ⟨hl₂, hg₂⟩ := ih h hl₁
    refine ⟨hl₂, ?_⟩
    rw [hg₂, hg₁, AvoidsCircles, and_assoc]
    simp [ha]

end Runs

theorem linked_empty : Linked empty ∧ Grounded empty := by
  have hparent : ∀ i, empty.parentOf i = none := by
    rintro (_ | i) <;> simp [parentOf, empty, get?]
  have hchildren : ∀ i, empty.childrenOf i = [] := by
    rintro (_ | i) <;> simp [childrenOf, empty, get?]
  exact ⟨⟨by simp [hparent, hchildren], by simp [hchildren], hparent _⟩,
    fun i => ⟨0, .top (hparent i)⟩⟩

/-- However an outline is built, a node stands in the list of another exactly if that
is its parent, no node stands in the lists twice, and the root has no parent. From
every node the ways up and down come to an end, after `depth` links and with the
`descendants` taken, exactly if no action hung a node below itself. -/
theorem runActions_forest {actions : List Action} {d : Draft}
    (h : runActions actions .start = .ok d) :
    (∀ p c, c ∈ d.outline.childrenOf p ↔ d.outline.parentOf c = some p) ∧
      ((List.range d.outline.size).flatMap d.outline.childrenOf).Nodup ∧
      d.outline.parentOf root = none ∧
      ((∀ i, d.outline.Climbs i (d.outline.depth i) ∧
          d.outline.Unfolds (d.outline.childrenOf i) (d.outline.descendants i)) ↔
        AvoidsCircles actions .start) := by
  obtain ⟨hl, hg⟩ := runActions_links h linked_empty.1
  rw [Draft.start, and_iff_right linked_empty.2] at hg
  refine ⟨hl.mem_childrenOf, ?_, hl.root, ?_⟩
  · refine List.nodup_flatMap.mpr ⟨fun p _ => hl.nodup p, List.nodup_range.imp fun {p q} hne => ?_⟩
    intro c hp hq
    rw [hl.mem_childrenOf] at hp hq
    exact hne (Option.some.inj (hp.symm.trans hq))
  · rw [← Draft.start] at hg
    rw [← hg]
    refine ⟨fun hall i => ⟨_, (hall i).1⟩, fun hgrounded i => ?_⟩
    obtain ⟨n, hn⟩ := hgrounded i
    obtain ⟨js, hjs⟩ := exists_unfolds hl hgrounded i
    rw [hn.depth_eq, hjs.descendants_eq hl hgrounded]
    exact ⟨hn, hjs⟩

theorem AvoidsCircles.cons {a : Action} {as : List Action} {d d' : Draft} (h : a.run d = .ok d')
    (ha : ∀ l ∈ a.link? d, d.outline.parentOf l.1 = none ∧ l.1 ≠ l.2) (has : AvoidsCircles as d') :
    AvoidsCircles (a :: as) d := by
  refine ⟨?_, fun e he => Except.ok.inj (h.symm.trans he) ▸ has⟩
  rintro ⟨p, c, hlink, hu⟩
  obtain ⟨htop, hne⟩ := ha (p, c) hlink
  cases hu with
  | refl => exact hne rfl
  | up hp => simp [htop] at hp

/-- A node that hung nowhere gets its place below the root when a rule opens it again. -/
theorem runActions_forest_late : ∃ d, runActions
      [.openNew .property none, .addLeaf (.identifier "x") none, .close, .openExisting root,
        .enter { targets := [(.propertyDeclaration, .existing 1)] } .propertyDeclaration none]
          .start = .ok d ∧
    (∀ i, d.outline.Climbs i (d.outline.depth i) ∧
      d.outline.Unfolds (d.outline.childrenOf i) (d.outline.descendants i)) ∧
    d.outline.descendants root = [1, 2] := by
  let d : Draft := ⟨⟨#[{ kind := .header, children := [1] },
    { kind := .property, parent := some root, children := [2] },
    { kind := .identifier "x", parent := some 1 }]⟩, [1, root]⟩
  have hrun : runActions [.openNew .property none, .addLeaf (.identifier "x") none, .close,
      .openExisting root, .enter { targets := [(.propertyDeclaration, .existing 1)] }
        .propertyDeclaration
        none] .start = .ok d := rfl
  refine ⟨d, hrun, (runActions_forest hrun).2.2.2.mpr ?_, by decide⟩
  exact .cons rfl (by decide) (.cons rfl (by decide) (.cons rfl (by decide) (.cons rfl (by decide)
    (.cons rfl (by decide) trivial))))

/-- A node that hangs nowhere is opened again while it is open, and hangs below itself. -/
theorem reopened_below_itself : ∃ d,
    runActions [.openNew .property none, .openExisting 1] .start = .ok d ∧
      d.outline.parentOf 1 = some 1 ∧ ¬ ∃ n, d.outline.Climbs 1 n := by
  let d : Draft :=
    ⟨⟨#[{ kind := .header }, { kind := .property, parent := some 1, children := [1] }]⟩, [1, 1]⟩
  have hparent : d.outline.parentOf 1 = some 1 := by decide
  refine ⟨d, rfl, hparent, ?_⟩
  rintro ⟨n, hn⟩
  -- every way up from the node goes on with a way up from it
  have heq := hn.unique (.up hparent hn)
  omega

end HeaderBridge.Outline
