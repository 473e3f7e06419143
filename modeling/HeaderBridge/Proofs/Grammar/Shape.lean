import HeaderBridge.Proofs.Grammar.Words

/-! # What a rule reads, gaps apart

Where gaps do not matter, the meaning of an expression is its shape: what is left
after the gap behind the match, and the nodes with only the texts of tokens. The
shape of a sequence is one shape after the other, with no gap between them.
-/

namespace HeaderBridge.Grammar

open HeaderBridge.Grammar.Expr (skipGap)

/-! ### Skeletons -/

/-- Whether nodes of the rule are known by their parts. Protocols are known by their text. -/
def Rule.isPlain (r : Rule) : Bool := r.kind = .branch && r ≠ .protocolName

mutual

/-- A node with its offsets forgotten, and its texts where the parts say it all. -/
def Node.skeleton : Node → Node
  | .mk r _ t ns => .mk r 0 (if r.isPlain then "" else t) (Node.skeletons ns)

def Node.skeletons : List Node → List Node
  | [] => []
  | n :: ns => n.skeleton :: Node.skeletons ns

end

theorem Node.skeletons_eq_map (ns : List Node) : Node.skeletons ns = ns.map Node.skeleton := by
  induction ns with
  | nil => rfl
  | cons n ns ih => rw [Node.skeletons, ih, List.map_cons]

theorem Node.skeleton_mk (r : Rule) (s : Nat) (t : String) (ns : List Node) :
    (Node.mk r s t ns).skeleton =
      .mk r 0 (if r.isPlain then "" else t) (ns.map Node.skeleton) := by
  rw [Node.skeleton, Node.skeletons_eq_map]

/-- The skeleton of a node over the skeletons of its parts. -/
abbrev Node.branch (r : Rule) (ns : List Node) : Node := .mk r 0 "" ns

theorem Node.skeleton_branch {r : Rule} (h : r.isPlain = true) (s : Nat) (t : String)
    (ns : List Node) : (Node.mk r s t ns).skeleton = .branch r (ns.map Node.skeleton) := by
  rw [skeleton_mk, h]
  rfl

theorem Node.skeleton_token {r : Rule} (h : r.kind = .token) (cs : List Char) :
    (Node.token r cs).skeleton = .token r cs := by
  rw [skeleton_mk, Rule.isPlain, h]
  rfl

theorem Node.skeleton_unplaced (n : Node) : n.unplaced.skeleton = n.skeleton := by
  obtain ⟨r, s, t, ns⟩ := n
  have hparts : ns.map (Node.skeleton ∘ Node.unplaced) = ns.map Node.skeleton :=
    List.map_congr_left fun x _ => x.skeleton_unplaced
  rw [unplaced_mk, skeleton_mk, skeleton_mk, List.map_map, hparts]

theorem Node.skeletons_unplaced (ns : List Node) :
    ns.map (Node.skeleton ∘ Node.unplaced) = ns.map Node.skeleton :=
  List.map_congr_left fun n _ => n.skeleton_unplaced

/-! ### Readings move ahead -/

namespace Expr

theorem skipBetween_suffix (mode : Mode) (cs : List Char) : skipBetween mode cs <:+ cs := by
  cases mode with
  | tight => exact List.suffix_refl cs
  | spaced => exact skipGap_suffix cs

end Expr

theorem Reading.andThen_assoc (x : Reading) (f g : List Char → Reading) :
    (x.andThen f).andThen g = x.andThen fun cs => (f cs).andThen g := by
  cases x with
  | none => rfl
  | some y =>
    simp only [andThen, Option.bind_some]
    cases hf : f y.1 with
    | none => rfl
    | some z =>
      simp only [Option.bind_some]
      cases g z.1 <;> simp

namespace Expr

variable {mode : Mode} {cs cs' : List Char} {ns : List Node}

/-- The expressions that may match where they stand. -/
def mayStay : Expr → Bool
  | start | finish | opt _ | many _ | notAhead _ => true
  | literal _ | char _ | .call _ | seq _ _ | choice _ _ => false

/-- How an expression is read, part by part: what is left after it, and its nodes. -/
inductive Reads (mode : Mode) : Expr → List Char → List Char → List Node → Prop where
  | literal (l cs : List Char) : Reads mode (.literal l) (l ++ cs) cs []
  | char {cls : CharClass} {d : Char} (h : cls.contains d = true) (cs : List Char) :
      Reads mode (.char cls) (d :: cs) cs []
  | stay {e : Expr} (he : e.mayStay = true) (cs : List Char) : Reads mode e cs cs []
  | call {r : Rule} {cs c : List Char} {ns : List Node} (h : r.reading mode cs = some (c, ns)) :
      Reads mode (.call r) cs c ns
  | seq {a b : Expr} {cs c₁ c : List Char} {ns ms : List Node} (ha : Reads mode a cs c₁ ns)
      (hb : Reads mode b (skipBetween mode c₁) c ms) : Reads mode (.seq a b) cs c (ns ++ ms)
  | left {a b : Expr} {cs c : List Char} {ns : List Node} (h : Reads mode a cs c ns) :
      Reads mode (.choice a b) cs c ns
  | right {a b : Expr} {cs c : List Char} {ns : List Node} (h : Reads mode b cs c ns) :
      Reads mode (.choice a b) cs c ns
  | opt {a : Expr} {cs c : List Char} {ns : List Node} (h : Reads mode a cs c ns) :
      Reads mode (.opt a) cs c ns
  | once {a : Expr} {cs c : List Char} {ns : List Node} (h : Reads mode a cs c ns) :
      Reads mode (.many a) cs c ns
  | more {a : Expr} {cs c₁ c : List Char} {ns ms : List Node} (h : Reads mode (.many a) cs c₁ ns)
      (ha : Reads mode a (skipBetween mode c₁) c ms) : Reads mode (.many a) cs c (ns ++ ms)

theorem reads_of_reading {e : Expr} (h : e.reading mode cs = some (cs', ns)) :
    Reads mode e cs cs' ns := by
  induction e generalizing cs cs' ns with
  | literal l =>
    rw [reading_literal, Option.ite_none_right_eq_some, Option.some.injEq, Prod.mk.injEq] at h
    obtain ⟨⟨t, rfl⟩, rfl, rfl⟩ := h
    rw [List.drop_left]
    exact .literal l t
  | char cls =>
    rw [reading_char] at h
    cases cs with
    | nil => cases h
    | cons d cs =>
      rw [readOne, Option.ite_none_right_eq_some, Option.some.injEq, Prod.mk.injEq] at h
      obtain ⟨hd, rfl, rfl⟩ := h
      exact .char hd cs
  | start =>
    obtain ⟨rfl, rfl⟩ := Prod.mk.inj (Option.some.inj (reading_start.symm.trans h))
    exact .stay rfl cs
  | finish =>
    rw [reading_finish, Option.ite_none_right_eq_some, Option.some.injEq, Prod.mk.injEq] at h
    obtain ⟨-, rfl, rfl⟩ := h
    exact .stay rfl cs
  | call r => exact .call (reading_call.symm.trans h)
  | seq a b iha ihb =>
    obtain ⟨cs₁, ns₁, ns₂, h₁, h₂, rfl⟩ := Reading.andThen_eq_some.mp (reading_seq.symm.trans h)
    exact .seq (iha h₁) (ihb h₂)
  | choice a b iha ihb =>
    rw [reading_choice, Option.or_eq_some_iff] at h
    exact h.elim (fun h => .left (iha h)) fun h => .right (ihb h.2)
  | opt a ih =>
    rw [reading_opt] at h
    cases ha : a.reading mode cs with
    | none =>
      rw [ha] at h
      obtain ⟨rfl, rfl⟩ := Prod.mk.inj (Option.some.inj h)
      exact .stay rfl cs
    | some y =>
      rw [ha] at h
      exact .opt (ih (ha.trans h))
  | many a ih =>
    rw [reading_many] at h
    cases ha : a.reading mode cs with
    | none =>
      rw [ha] at h
      obtain ⟨rfl, rfl⟩ := Prod.mk.inj (Option.some.inj h)
      exact .stay rfl cs
    | some y =>
      rw [ha] at h
      obtain ⟨rfl, rfl⟩ := Prod.mk.inj (Option.some.inj h)
      exact readRounds_keeps (fun hc hs => .more hc (ih hs)) (Reads.once (ih ha))
  | notAhead a _ =>
    rw [reading_notAhead, Option.ite_none_left_eq_some] at h
    obtain ⟨rfl, rfl⟩ := Prod.mk.inj (Option.some.inj h.2)
    exact .stay rfl cs

theorem Reads.suffix {e : Expr} (h : Reads mode e cs cs' ns) : cs' <:+ cs := by
  induction h with
  | literal l cs => exact List.suffix_append l cs
  | char => exact List.suffix_cons ..
  | stay => exact List.suffix_refl _
  | call h => exact Rule.reading_suffix h
  | seq _ _ iha ihb => exact ihb.trans ((skipBetween_suffix mode _).trans iha)
  | left _ ih | right _ ih | opt _ ih | once _ ih => exact ih
  | more _ _ ih iha => exact iha.trans ((skipBetween_suffix mode _).trans ih)

theorem reading_suffix (e : Expr) (h : e.reading mode cs = some (cs', ns)) : cs' <:+ cs :=
  (reads_of_reading h).suffix

theorem Reads.length_lt {e : Expr} (he : e.mayBeEmpty = false) (h : Reads mode e cs cs' ns) :
    cs'.length < cs.length := by
  induction h with
  | literal l cs =>
    have hpos : 0 < l.length := List.length_pos_iff.mpr (by simpa [mayBeEmpty] using he)
    rw [List.length_append]
    omega
  | char => exact Nat.lt_succ_self _
  | @stay e hstay => cases e <;> simp [mayStay, mayBeEmpty] at hstay he
  | call h => exact Rule.reading_length_lt he h
  | @seq a b cs c₁ c ns ms ha hb iha ihb =>
    have hle₁ := ha.suffix.length_le
    have hle₂ := (skipBetween_suffix mode c₁).length_le
    have hle₃ := hb.suffix.length_le
    simp only [mayBeEmpty, Bool.and_eq_false_iff] at he
    rcases he with he | he
    · have hlt := iha he
      omega
    · have hlt := ihb he
      omega
  | left _ ih | right _ ih =>
    simp only [mayBeEmpty, Bool.or_eq_false_iff] at he
    exact ih (by simp [he])
  | opt | once | more => cases he

theorem reading_length_lt (e : Expr) (he : e.mayBeEmpty = false)
    (h : e.reading mode cs = some (cs', ns)) : cs'.length < cs.length :=
  (reads_of_reading h).length_lt he

inductive Rounds (a : Expr) : List Char → List Char → List Node → Prop where
  | done {cs : List Char} (h : a.reading .spaced (skipGap cs) = none) : Rounds a cs cs []
  | more {cs c₁ c : List Char} {ns ms : List Node}
      (h : a.reading .spaced (skipGap cs) = some (c₁, ns)) (hrest : Rounds a c₁ c ms) :
      Rounds a cs c (ns ++ ms)

theorem rounds_readRounds {a : Expr} (ha : a.mayBeEmpty = false) (cs : List Char) (ns : List Node) :
    ∃ c ms, readRounds (fun cs => a.reading .spaced (skipGap cs)) cs ns = (c, ns ++ ms) ∧
      Rounds a cs c ms := by
  fun_induction readRounds (fun cs => a.reading .spaced (skipGap cs)) cs ns with
  | case1 cs ns hs => exact ⟨cs, [], by simp, .done hs⟩
  | case2 cs ns c₁ ns₁ hs hlt ih =>
    obtain ⟨c, ms, hread, hrest⟩ := ih
    exact ⟨c, ns₁ ++ ms, by simpa using hread, .more hs hrest⟩
  | case3 cs ns c₁ ns₁ hs hlt =>
    have hlt' := reading_length_lt a ha hs
    have hle := (skipGap_suffix cs).length_le
    omega

theorem reading_many_cases {a : Expr} (ha : a.mayBeEmpty = false)
    (h : (many a).reading .spaced cs = some (cs', ns)) :
    a.reading .spaced cs = none ∧ cs' = cs ∧ ns = [] ∨ ∃ c₁ ns₁ ns₂,
      a.reading .spaced cs = some (c₁, ns₁) ∧ Rounds a c₁ cs' ns₂ ∧ ns = ns₁ ++ ns₂ := by
  rw [reading_many] at h
  cases hfirst : a.reading .spaced cs with
  | none =>
    rw [hfirst] at h
    obtain ⟨rfl, rfl⟩ := Prod.mk.inj (Option.some.inj h)
    exact .inl ⟨rfl, rfl, rfl⟩
  | some y =>
    rw [hfirst] at h
    obtain ⟨c, ms, hread, hrest⟩ := rounds_readRounds ha y.1 y.2
    obtain ⟨rfl, rfl⟩ := Prod.mk.inj (hread.symm.trans (Option.some.inj h))
    exact .inr ⟨y.1, y.2, ms, rfl, hrest, rfl⟩

end Expr

/-- What a rule with a node over its parts reads is the text of the node. -/
theorem Rule.reading_branch_eq_some {r : Rule} (hr : r.kind = .branch) {cs cs' : List Char}
    {ns : List Node} (h : r.reading .spaced cs = some (cs', ns)) :
    ∃ x ms, cs = x ++ cs' ∧ r.body.reading .spaced cs = some (cs', ms) ∧
      ns = [.mk r 0 (.ofList x) ms] := by
  rw [Rule.reading_branch hr] at h
  obtain ⟨⟨cs₁, ms⟩, hbody, hy⟩ := Option.map_eq_some_iff.mp h
  obtain ⟨rfl, rfl⟩ := Prod.mk.inj hy
  obtain ⟨x, rfl⟩ := Expr.reading_suffix _ hbody
  exact ⟨x, ms, rfl, hbody, by simp⟩

/-! ### Shapes -/

/-- What an expression reads up to gaps: what is left after the gap behind the match, and the
skeletons of the nodes. -/
def Expr.shape (e : Expr) (cs : List Char) : Reading :=
  (e.reading .spaced cs).map fun y => (skipGap y.1, y.2.map Node.skeleton)

namespace Expr

variable {a b e : Expr} {r : Rule} {cs cs' : List Char} {ns : List Node}

theorem shape_of_reading (h : e.reading .spaced cs = some (cs', ns)) :
    e.shape cs = some (skipGap cs', ns.map Node.skeleton) := by
  rw [shape, h, Option.map_some]

theorem shape_eq_none : e.shape cs = none ↔ e.reading .spaced cs = none :=
  Option.map_eq_none_iff

theorem solid_of_shape (h : e.shape cs = some (cs', ns)) : Solid cs' := by
  obtain ⟨y, -, hy⟩ := Option.map_eq_some_iff.mp h
  obtain rfl := congrArg Prod.fst hy
  exact solid_skipGap _

theorem shape_length_lt (he : e.mayBeEmpty = false) (h : e.shape cs = some (cs', ns)) :
    cs'.length < cs.length := by
  obtain ⟨y, hr, hy⟩ := Option.map_eq_some_iff.mp h
  obtain rfl := congrArg Prod.fst hy
  exact Nat.lt_of_le_of_lt (skipGap_suffix y.1).length_le (reading_length_lt e he hr)

theorem shape_literal {l : List Char} :
    (literal l).shape cs = if l <+: cs then some (skipGap (cs.drop l.length), []) else none := by
  rw [shape, reading_literal]
  split <;> rfl

theorem shape_branch (h : r.isPlain = true) : (Expr.call r).shape cs =
    (r.body.shape cs).map fun y => (y.1, [.branch r y.2]) := by
  have hkind : r.kind = .branch := by simp_all [Rule.isPlain]
  rw [shape, shape, reading_call, Rule.reading_branch hkind, Reading.named, Option.map_map,
    Option.map_map]
  congr 1
  funext y
  simp [Node.skeleton_branch h]

theorem shape_seq : (seq a b).shape cs = (a.shape cs).andThen b.shape := by
  rw [shape, shape, reading_seq]
  cases ha : a.reading .spaced cs with
  | none => rfl
  | some y =>
    rw [Option.map_some, Reading.some_andThen, Reading.some_andThen, shape, skipBetween]
    cases hb : b.reading .spaced (skipGap y.1) <;> simp

theorem shape_seq_assoc {c : Expr} : (seq (seq a b) c).shape cs = (seq a (seq b c)).shape cs := by
  rw [shape_seq, shape_seq, shape_seq, Reading.andThen_assoc]
  congr 1
  funext cs
  rw [shape_seq]

theorem shape_choice : (choice a b).shape cs = (a.shape cs).or (b.shape cs) := by
  rw [shape, shape, shape, reading_choice]
  cases a.reading .spaced cs <;> rfl

theorem shape_opt (h : Solid cs) : (opt a).shape cs = some ((a.shape cs).getD (cs, [])) := by
  rw [shape, shape, reading_opt]
  cases a.reading .spaced cs with
  | none => simp [h.skipGap]
  | some y => rfl

/-- All rounds of an expression that can be read, and what is left after them. -/
def rounds (a : Expr) (cs : List Char) : List Char × List Node := readRounds a.shape cs []

theorem rounds_of_none (h : a.shape cs = none) : a.rounds cs = (cs, []) := by
  rw [rounds, readRounds_of_none h]

theorem readRounds_nodes_append {step : List Char → Reading} (cs : List Char) (ns ms : List Node) :
    readRounds step cs (ns ++ ms) =
      ((readRounds step cs ms).1, ns ++ (readRounds step cs ms).2) := by
  fun_induction readRounds step cs ms with
  | case1 cs ms hs => rw [readRounds_of_none hs]
  | case2 cs ms cs' ms' hs hlt ih => rw [readRounds_of_some hs hlt, List.append_assoc, ih]
  | case3 cs ms cs' ms' hs hlt =>
    rw [readRounds, hs]
    simp only [hlt, if_false]

theorem rounds_of_some (ha : a.mayBeEmpty = false) (h : a.shape cs = some (cs', ns)) :
    a.rounds cs = ((a.rounds cs').1, ns ++ (a.rounds cs').2) := by
  rw [rounds, readRounds_of_some h (shape_length_lt ha h), List.nil_append, ← List.append_nil ns,
    readRounds_nodes_append, List.append_nil]
  rfl

theorem readRounds_shape (ha : a.mayBeEmpty = false) (cs : List Char) (ns : List Node) :
    readRounds a.shape (skipGap cs) (ns.map Node.skeleton) =
      (skipGap (readRounds (fun cs => a.reading .spaced (skipGap cs)) cs ns).1,
        (readRounds (fun cs => a.reading .spaced (skipGap cs)) cs ns).2.map Node.skeleton) := by
  fun_induction readRounds (fun cs => a.reading .spaced (skipGap cs)) cs ns with
  | case1 cs ns hs => rw [readRounds_of_none (shape_eq_none.mpr hs)]
  | case2 cs ns cs' ns' hs hlt ih =>
    have hshape := shape_of_reading hs
    rw [readRounds_of_some hshape (shape_length_lt ha hshape), ← List.map_append, ih]
  | case3 cs ns cs' ns' hs hlt =>
    have hlt' := reading_length_lt a ha hs
    have hle := (skipGap_suffix cs).length_le
    omega

theorem shape_many (ha : a.mayBeEmpty = false) (h : Solid cs) :
    (many a).shape cs = some (a.rounds cs) := by
  rw [shape, reading_many, rounds]
  cases hr : a.reading .spaced cs with
  | none =>
    rw [readRounds_of_none (shape_eq_none.mpr hr)]
    simp [h.skipGap]
  | some y =>
    have hshape := shape_of_reading hr
    rw [readRounds_of_some hshape (shape_length_lt ha hshape), List.nil_append, readRounds_shape ha]
    rfl

end Expr

end HeaderBridge.Grammar
