import Mathlib.Data.List.Infix
import HeaderBridge.Proofs.Grammar.Joining

/-! # Texts with a line behind them

An audited region is closed by a line of its own. A reading of a text is a reading
of the text with that line behind it, unless it comes to the end of the text. This
module tells what an expression does there from the form of the expression.
-/

namespace HeaderBridge.Grammar

open HeaderBridge.Grammar.Expr

/-- The line that closes an audited region. -/
def closingLine : List Char := '\n' :: "NS_ASSUME_NONNULL_END\n".toList

theorem head?_closingLine : closingLine.head? = some '\n' := rfl

variable {mode : Mode} {r : Rule} {e : Expr} {cs c : List Char} {f : Char}

/-! ### Gaps before the line -/

/-- The line is behind what the gap at the beginning of a text leaves, if that is not all of it. -/
theorem skipGap_append_line (cs : List Char) : skipGap (cs ++ closingLine) =
    if skipGap cs = [] then skipGap closingLine else skipGap cs ++ closingLine := by
  induction cs using gap_induction with
  | hsolid cs h =>
    rw [h.skipGap]
    by_cases hnil : cs = []
    · rw [if_pos hnil, hnil, List.nil_append]
    · rw [if_neg hnil, (h.append hnil (by decide) (by decide)).skipGap]
  | hstep cs cs' h ih =>
    obtain ⟨x, rfl, -, ⟨hstep, -⟩ | ⟨b, rfl, hb, hline⟩⟩ := gapStep?_split h
    · rw [List.append_assoc, skipGap_of_step (hstep _), ih, skipGap_of_step (hstep _)]
    · have hstep : gapStep? ('/' :: '/' :: b ++ cs' ++ closingLine) =
          some (cs' ++ closingLine) := by
        rw [List.append_assoc]
        refine gapStep?_line hb fun d hd => ?_
        cases cs' with
        | nil =>
          rw [List.nil_append, head?_closingLine] at hd
          obtain rfl := Option.some.inj hd
          rfl
        | cons e cs' => exact hline d hd
      rw [skipGap_of_step hstep, ih, skipGap_of_step h]

theorem skipBetween_append_line (h : skipBetween mode cs ≠ []) :
    skipBetween mode (cs ++ closingLine) = skipBetween mode cs ++ closingLine := by
  cases mode with
  | tight => rfl
  | spaced =>
    rw [skipBetween] at h
    rw [skipBetween, skipBetween, skipGap_append_line, if_neg h]

theorem skipBetween_append_line_suffix (h : skipBetween mode cs = []) :
    skipBetween mode (cs ++ closingLine) <:+ closingLine := by
  cases mode with
  | tight =>
    obtain rfl : cs = [] := h
    exact List.suffix_refl closingLine
  | spaced =>
    rw [skipBetween] at h
    rw [skipBetween, skipGap_append_line, if_pos h]
    exact skipGap_suffix closingLine

/-! ### Rules and their bodies -/

/-- The nodes that a rule makes of a reading of its body. -/
def Rule.wrap (mode : Mode) (r : Rule) (cs : List Char) (y : List Char × List Node) : List Node :=
  match r.kind, mode with
  | .branch, .spaced | .token, .spaced =>
    [.mk r 0 (.ofList (cs.take (cs.length - y.1.length))) y.2]
  | _, _ => y.2

theorem Rule.reading_eq_map (mode : Mode) (r : Rule) (cs : List Char) :
    r.reading mode cs =
      (r.body.reading (r.within mode) cs).map fun y => (y.1, r.wrap mode cs y) := by
  have hsame : ∀ x : Reading, x = x.map fun y => (y.1, y.2) := fun x => Option.map_id'.symm
  rw [Rule.reading_eq]
  unfold within wrap
  cases r.kind <;> cases mode <;> first | rfl | exact hsame _

theorem Rule.wrap_append_line (mode : Mode) (r : Rule) (cs c : List Char) (ns : List Node) :
    r.wrap mode (cs ++ closingLine) (c ++ closingLine, ns) = r.wrap mode cs (c, ns) := by
  have htake : (cs ++ closingLine).take ((cs ++ closingLine).length - (c ++ closingLine).length) =
      cs.take (cs.length - c.length) := by
    rw [List.length_append, List.length_append, Nat.add_sub_add_right,
      List.take_append_of_le_length (Nat.sub_le _ _)]
  unfold wrap
  rw [htake]

/-! ### Expressions that refuse the line -/

/-- No part of the line can be read, as far as can be told from the form of the expression. -/
def Expr.refusesIf (rule : Rule → Bool) : Expr → Bool
  | literal l => closingLine.tails.all fun t => !l.isPrefixOf t
  | char cls => closingLine.all fun c => !cls.contains c
  | start | finish | opt _ | many _ | notAhead _ => false
  | .call r => rule r
  | seq a b => a.refusesIf rule || b.refusesIf rule
  | choice a b => a.refusesIf rule && b.refusesIf rule

def Rule.refuses : Nat → Rule → Bool
  | 0, _ => false
  | n + 1, r => r.body.refusesIf (Rule.refuses n)

/-- No part of the line can be read. -/
def Expr.refuses (e : Expr) : Bool := e.refusesIf (Rule.refuses 8)

theorem Expr.reading_of_refusesIf {rule : Rule → Bool}
    (hrule : ∀ r, rule r = true → ∀ mode cs, cs <:+ closingLine → r.reading mode cs = none)
    (he : e.refusesIf rule = true) (hcs : cs <:+ closingLine) : e.reading mode cs = none := by
  induction e generalizing cs with
  | literal l =>
    rw [refusesIf, List.all_eq_true] at he
    have hno := he cs ((List.mem_tails cs closingLine).mpr hcs)
    rw [reading_literal, if_neg]
    intro hprefix
    rw [List.isPrefixOf_iff_prefix.mpr hprefix] at hno
    cases hno
  | char cls =>
    rw [refusesIf, List.all_eq_true] at he
    cases cs with
    | nil => rfl
    | cons d cs =>
      have hno := he d (hcs.subset List.mem_cons_self)
      rw [reading_char, readOne, if_neg (by simpa using hno)]
  | call r =>
    rw [reading_call]
    exact hrule r he mode cs hcs
  | seq a b iha ihb =>
    rw [refusesIf, Bool.or_eq_true] at he
    rw [reading_seq]
    cases ha : a.reading mode cs with
    | none => rfl
    | some y =>
      rcases he with he | he
      · rw [iha he hcs] at ha
        cases ha
      · rw [Reading.some_andThen, ihb he]
        · rfl
        · exact (skipBetween_suffix mode y.1).trans ((reading_suffix a ha).trans hcs)
  | choice a b iha ihb =>
    rw [refusesIf, Bool.and_eq_true] at he
    rw [reading_choice, iha he.1 hcs, ihb he.2 hcs]
    rfl
  | start | finish | opt _ | many _ | notAhead _ => simp [refusesIf] at he

theorem Rule.reading_of_refuses (n : Nat) (hr : r.refuses n = true) (mode : Mode)
    (hcs : cs <:+ closingLine) : r.reading mode cs = none := by
  induction n generalizing r mode cs with
  | zero => cases hr
  | succ n ih =>
    rw [Rule.reading_eq_map,
      Expr.reading_of_refusesIf (fun r hr mode cs hcs => ih hr mode hcs) hr hcs]
    rfl

theorem Expr.reading_of_refuses (he : e.refuses = true) (hcs : cs <:+ closingLine) :
    e.reading mode cs = none :=
  reading_of_refusesIf (fun _ hr mode _ hcs => Rule.reading_of_refuses 8 hr mode hcs) he hcs

/-! ### Expressions that read every text -/

/-- Every text can be read, as far as can be told from the form of the expression. -/
def Expr.totalIf (rule : Rule → Bool) : Expr → Bool
  | literal _ | char _ | finish | notAhead _ => false
  | start | opt _ | many _ => true
  | .call r => rule r
  | seq a b => a.totalIf rule && b.totalIf rule
  | choice a b => a.totalIf rule || b.totalIf rule

def Rule.total : Nat → Rule → Bool
  | 0, _ => false
  | n + 1, r => r.body.totalIf (Rule.total n)

def Expr.total (e : Expr) : Bool := e.totalIf (Rule.total 8)

theorem Expr.isSome_reading_of_totalIf {rule : Rule → Bool}
    (hrule : ∀ r, rule r = true → ∀ mode cs, (r.reading mode cs).isSome = true)
    (he : e.totalIf rule = true) (cs : List Char) : (e.reading mode cs).isSome = true := by
  induction e generalizing cs with
  | start => rw [reading_start, Option.isSome_some]
  | opt a => rw [reading_opt, Option.isSome_some]
  | many a =>
    rw [reading_many]
    cases a.reading mode cs <;> rfl
  | call r =>
    rw [reading_call]
    exact hrule r he mode cs
  | seq a b iha ihb =>
    rw [totalIf, Bool.and_eq_true] at he
    obtain ⟨⟨c, ns⟩, hy⟩ := Option.isSome_iff_exists.mp (iha he.1 cs)
    rw [reading_seq, hy, Reading.some_andThen, Option.isSome_map]
    exact ihb he.2 _
  | choice a b iha ihb =>
    rw [totalIf, Bool.or_eq_true] at he
    rw [reading_choice, Option.isSome_or, Bool.or_eq_true]
    exact he.imp (iha · cs) (ihb · cs)
  | literal _ | char _ | finish | notAhead _ => simp [totalIf] at he

theorem Rule.isSome_reading_of_total (n : Nat) (hr : r.total n = true) (mode : Mode)
    (cs : List Char) : (r.reading mode cs).isSome = true := by
  induction n generalizing r mode cs with
  | zero => cases hr
  | succ n ih =>
    rw [Rule.reading_eq_map, Option.isSome_map]
    exact Expr.isSome_reading_of_totalIf (fun r hr mode cs => ih hr mode cs) hr cs

theorem Expr.isSome_reading_of_total (he : e.total = true) (cs : List Char) :
    (e.reading mode cs).isSome = true :=
  isSome_reading_of_totalIf (fun _ hr mode cs => Rule.isSome_reading_of_total 8 hr mode cs) he cs

/-! ### Expressions that do not begin with a character -/

/-- Nothing is read before the given character, as far as can be told from the form of the
expression. -/
def Expr.missesIf (f : Char) (rule : Rule → Bool) : Expr → Bool
  | literal l => l.head? ≠ some f
  | char cls => !cls.contains f
  | start | finish | notAhead _ => true
  | .call r => rule r
  | seq a b => a.missesIf f rule && (!a.mayBeEmpty || b.missesIf f rule)
  | choice a b => a.missesIf f rule && b.missesIf f rule
  | opt a | many a => a.missesIf f rule

def Rule.misses (f : Char) : Nat → Rule → Bool
  | 0, _ => false
  | n + 1, r => r.body.missesIf f (Rule.misses f n)

def Expr.misses (f : Char) (e : Expr) : Bool := e.missesIf f (Rule.misses f 8)

/-- No gap begins with the character. -/
def isSolid (f : Char) : Bool := !isGapBlank f && f ≠ '/'

theorem skipBetween_cons (hf : isSolid f = true) : skipBetween mode (f :: cs) = f :: cs := by
  cases mode with
  | tight => rfl
  | spaced =>
    simp only [isSolid, Bool.and_eq_true, Bool.not_eq_true', decide_eq_true_eq] at hf
    exact (solid_cons hf.1 hf.2).skipGap

theorem Expr.rest_of_missesIf (hf : isSolid f = true) {rule : Rule → Bool}
    (hrule : ∀ r, rule r = true → ∀ mode cs c ns,
      r.reading mode (f :: cs) = some (c, ns) → c = f :: cs)
    (he : e.missesIf f rule = true) {ns : List Node}
    (h : e.reading mode (f :: cs) = some (c, ns)) : c = f :: cs := by
  replace h := reads_of_reading h
  generalize hzs : f :: cs = zs at h ⊢
  induction h with
  | literal l zs =>
    cases l with
    | nil => rfl
    | cons g l =>
      obtain ⟨rfl, -⟩ := List.cons.inj hzs
      simp [missesIf] at he
  | char hd =>
    obtain ⟨rfl, -⟩ := List.cons.inj hzs
    simp [missesIf, hd] at he
  | stay => rfl
  | call h =>
    subst hzs
    exact hrule _ he mode _ _ _ h
  | seq ha hb iha ihb =>
    rw [missesIf, Bool.and_eq_true, Bool.or_eq_true] at he
    obtain rfl := iha he.1 hzs
    rcases he.2 with hempty | hmiss
    · exact absurd (ha.length_lt (by simpa using hempty)) (Nat.lt_irrefl _)
    · rw [← hzs, skipBetween_cons hf] at ihb
      exact (ihb hmiss rfl).trans hzs
  | left _ ih | right _ ih =>
    rw [missesIf, Bool.and_eq_true] at he
    exact ih (by simp [he]) hzs
  | opt _ ih | once _ ih => exact ih he hzs
  | more h ha ih iha =>
    obtain rfl := ih he hzs
    rw [← hzs, skipBetween_cons hf] at iha
    exact (iha he rfl).trans hzs

theorem Rule.rest_of_misses (hf : isSolid f = true) (n : Nat) (hr : r.misses f n = true)
    (mode : Mode) {ns : List Node} (h : r.reading mode (f :: cs) = some (c, ns)) : c = f :: cs := by
  induction n generalizing r mode cs c ns with
  | zero => cases hr
  | succ n ih =>
    rw [Rule.reading_eq_map] at h
    obtain ⟨⟨c₁, ns₁⟩, hbody, hy⟩ := Option.map_eq_some_iff.mp h
    obtain ⟨rfl, -⟩ := Prod.mk.inj hy
    exact Expr.rest_of_missesIf hf (fun r hr mode cs c ns => ih hr mode) hr hbody

theorem Expr.rest_of_misses (hf : isSolid f = true) (he : e.misses f = true) {ns : List Node}
    (h : e.reading mode (f :: cs) = some (c, ns)) : c = f :: cs :=
  rest_of_missesIf hf (fun _ hr mode _ _ _ => Rule.rest_of_misses hf 8 hr mode) he h

/-- The character that every reading begins with, if the form of the expression gives it. -/
def Expr.firstChar? : Expr → Option Char
  | literal (f :: _) => some f
  | seq a _ => a.firstChar?
  | _ => none

theorem Expr.head?_of_firstChar? (he : e.firstChar? = some f)
    (h : (e.reading mode cs).isSome = true) : cs.head? = some f := by
  induction e with
  | literal l =>
    cases l with
    | nil => cases he
    | cons g l =>
      obtain rfl := Option.some.inj he
      rw [reading_literal] at h
      split at h
      · next hl =>
        obtain ⟨t, rfl⟩ := hl
        rfl
      · cases h
  | seq a b iha _ =>
    rw [reading_seq] at h
    cases ha : a.reading mode cs with
    | none =>
      rw [ha] at h
      cases h
    | some y => exact iha he (by rw [ha]; rfl)
  | _ => cases he

/-! ### Expressions that do not see the line -/

/-- A reading without gaps ends before the line, as far as can be told from the form of the
expression. -/
def Expr.settledIf (rule : Rule → Bool) : Expr → Bool
  | literal l => '\n' ∉ l
  | char cls => !cls.contains '\n'
  | start => true
  | finish => false
  | .call r => rule r
  | seq a b | choice a b => a.settledIf rule && b.settledIf rule
  | opt a | many a | notAhead a => a.settledIf rule

def Rule.settled : Nat → Rule → Bool
  | 0, _ => false
  | n + 1, r => r.body.settledIf (Rule.settled n)

def Expr.settled (e : Expr) : Bool := e.settledIf (Rule.settled 8)

/-- What is read of a text, with the line behind it. -/
def Reading.withLine (x : Reading) : Reading := x.map fun y => (y.1 ++ closingLine, y.2)

theorem literal_prefix_append_line {l : List Char} (hl : '\n' ∉ l) :
    l <+: cs ++ closingLine ↔ l <+: cs := by
  constructor
  · rintro ⟨t, ht⟩
    rcases List.append_eq_append_iff.mp ht with ⟨x, rfl, -⟩ | ⟨x, rfl, hx⟩
    · exact List.prefix_append l x
    · cases x with
      | nil => simp
      | cons d x =>
        have hd := congrArg List.head? hx
        rw [head?_closingLine] at hd
        obtain rfl := Option.some.inj hd
        simp at hl
  · exact fun h => h.trans (List.prefix_append cs closingLine)

theorem reading_literal_append_line {l : List Char} (hl : '\n' ∉ l) :
    (literal l).reading mode (cs ++ closingLine) = ((literal l).reading mode cs).withLine := by
  rw [reading_literal, reading_literal]
  by_cases h : l <+: cs
  · rw [if_pos ((literal_prefix_append_line hl).mpr h), if_pos h, Reading.withLine, Option.map_some,
      List.drop_append_of_le_length h.length_le]
  · rw [if_neg (mt (literal_prefix_append_line hl).mp h), if_neg h]
    rfl

theorem readRounds_append_line {step : List Char → Reading}
    (h : ∀ cs, step (cs ++ closingLine) = (step cs).withLine) (cs : List Char) (ns : List Node) :
    readRounds step (cs ++ closingLine) ns =
      ((readRounds step cs ns).1 ++ closingLine, (readRounds step cs ns).2) := by
  fun_induction readRounds step cs ns with
  | case1 cs ns hs =>
    rw [readRounds, h, hs]
    rfl
  | case2 cs ns cs' ns' hs hlt ih =>
    rw [readRounds, h, hs]
    simp only [Reading.withLine, Option.map_some, List.length_append, Nat.add_lt_add_iff_right, hlt,
      if_true]
    exact ih
  | case3 cs ns cs' ns' hs hlt =>
    rw [readRounds, h, hs]
    simp only [Reading.withLine, Option.map_some, List.length_append, Nat.add_lt_add_iff_right, hlt,
      if_false]

theorem Expr.reading_of_settledIf {rule : Rule → Bool} (hrule : ∀ r, rule r = true → ∀ cs,
      r.reading .tight (cs ++ closingLine) = (r.reading .tight cs).withLine)
    (he : e.settledIf rule = true) (cs : List Char) :
    e.reading .tight (cs ++ closingLine) = (e.reading .tight cs).withLine := by
  induction e generalizing cs with
  | literal l => exact reading_literal_append_line (by simpa [settledIf] using he)
  | char cls =>
    have hno : cls.contains '\n' = false := by simpa [settledIf] using he
    cases cs with
    | nil =>
      rw [List.nil_append, closingLine, reading_char, readOne, hno]
      rfl
    | cons d cs =>
      rw [List.cons_append, reading_char, reading_char, readOne, readOne]
      cases cls.contains d <;> rfl
  | start =>
    rw [reading_start, reading_start]
    rfl
  | finish => cases he
  | call r =>
    rw [reading_call, reading_call]
    exact hrule r he cs
  | seq a b iha ihb =>
    rw [settledIf, Bool.and_eq_true] at he
    rw [reading_seq, reading_seq, iha he.1]
    cases a.reading .tight cs with
    | none => rfl
    | some y =>
      obtain ⟨c, ns⟩ := y
      simp only [Reading.withLine, Option.map_some, Reading.some_andThen, skipBetween, ihb he.2,
        Option.map_map]
      rfl
  | choice a b iha ihb =>
    rw [settledIf, Bool.and_eq_true] at he
    rw [reading_choice, reading_choice, iha he.1, ihb he.2]
    cases a.reading .tight cs <;> rfl
  | opt a ih =>
    rw [reading_opt, reading_opt, ih he]
    cases a.reading .tight cs <;> rfl
  | many a ih =>
    rw [reading_many, reading_many, ih he]
    cases a.reading .tight cs with
    | none => rfl
    | some y =>
      simp only [Reading.withLine, Option.map_some, skipBetween]
      rw [readRounds_append_line (fun cs => ih he cs)]
  | notAhead a ih =>
    rw [reading_notAhead, reading_notAhead, ih he]
    cases a.reading .tight cs <;> rfl

theorem Rule.reading_of_settled (n : Nat) (hr : r.settled n = true) (cs : List Char) :
    r.reading .tight (cs ++ closingLine) = (r.reading .tight cs).withLine := by
  induction n generalizing r cs with
  | zero => cases hr
  | succ n ih =>
    rw [Rule.reading_tight, Rule.reading_tight]
    exact Expr.reading_of_settledIf (fun r hr cs => ih hr cs) hr cs

theorem Expr.reading_of_settled (he : e.settled = true) (cs : List Char) :
    e.reading .tight (cs ++ closingLine) = (e.reading .tight cs).withLine :=
  reading_of_settledIf (fun _ hr cs => Rule.reading_of_settled 8 hr cs) he cs

end HeaderBridge.Grammar
