import Mathlib.Data.List.TakeWhile
import HeaderBridge.Proofs.Grammar.Reading

/-! # Blanks and comments

Between tokens stands a gap: blanks, block comments and line comments. A gap that
something solid follows is a gap before any text; only a line comment at the end
of a text is not closed.
-/

namespace HeaderBridge.Grammar

/-! ### Single characters -/

def readOne (p : Char → Bool) : List Char → Reading
  | c :: cs => if p c then some (cs, []) else none
  | [] => none

variable {p q : Char → Bool} {mode : Mode} {cs cs' g : List Char} {c : Char}

theorem readOne_or :
    (readOne p cs).or (readOne q cs) = readOne (fun c => p c || q c) cs := by
  cases cs with
  | nil => rfl
  | cons c cs => cases hp : p c <;> simp [readOne, hp]

theorem length_lt_of_readOne {ns : List Node} (h : readOne p cs = some (cs', ns)) :
    cs'.length < cs.length := by
  cases cs with
  | nil => simp [readOne] at h
  | cons c cs =>
    simp only [readOne, Option.ite_none_right_eq_some, Option.some.injEq, Prod.mk.injEq] at h
    simp [h.2.1]

theorem readRounds_readOne (p : Char → Bool) (cs : List Char) (ns : List Node) :
    readRounds (readOne p) cs ns = (cs.dropWhile p, ns) := by
  induction cs with
  | nil => rw [readRounds]; rfl
  | cons c cs ih =>
    rw [readRounds]
    cases hp : p c <;> simp [readOne, hp, ih]

namespace Expr

theorem reading_char (cls : CharClass) : (char cls).reading mode cs = readOne cls.contains cs := by
  cases cs <;> rfl

theorem reading_literal_singleton (a : Char) :
    (literal [a]).reading mode cs = readOne (· == a) cs := by
  cases cs with
  | nil => rfl
  | cons c cs => simp [reading_literal, readOne, eq_comm (a := a)]

theorem reading_many_tight {a : Expr}
    (h : ∀ cs cs' ns, a.reading .tight cs = some (cs', ns) → cs'.length < cs.length) :
    (many a).reading .tight cs = some (readRounds (a.reading .tight) cs []) := by
  rw [reading_many]
  cases ha : a.reading .tight cs with
  | none => rw [readRounds_of_none ha]
  | some y =>
    rw [readRounds_of_some ha (h _ _ _ ha), List.nil_append]
    rfl

theorem reading_many_readOne {a : Expr} (h : ∀ cs, a.reading .tight cs = readOne p cs) :
    (many a).reading .tight cs = some (cs.dropWhile p, []) := by
  have hstep : a.reading .tight = readOne p := funext h
  rw [reading_many_tight, hstep, readRounds_readOne]
  intro cs cs' ns hr
  rw [h] at hr
  exact length_lt_of_readOne hr

theorem reading_any_unless {a : Expr}
    (h : ∀ cs, (a.reading .tight cs).isSome = (readOne p cs).isSome) :
    (seq (notAhead a) (char .any)).reading .tight cs = readOne (!p ·) cs := by
  simp only [reading_seq, reading_notAhead, h, reading_char]
  cases cs with
  | nil => simp [readOne, skipBetween]
  | cons c cs => cases hp : p c <;> simp [readOne, hp, skipBetween, CharClass.contains]

end Expr

/-! ### The pieces of a gap -/

def isGapBlank (c : Char) : Bool := c == ' ' || (c == '\t' || (c == '\r' || c == '\n'))

def isNewline (c : Char) : Bool := c == '\n' || c == '\r'

theorem isGapBlank_of_isNewline (h : isNewline c = true) : isGapBlank c = true := by
  simp only [isNewline, Bool.or_eq_true, beq_iff_eq] at h
  rcases h with rfl | rfl <;> rfl

/-- What is left after the next end of a block comment. -/
def afterBlock : List Char → Option (List Char)
  | '*' :: '/' :: cs => some cs
  | _ :: cs => afterBlock cs
  | [] => none

def gapStep? : List Char → Option (List Char)
  | '/' :: '*' :: cs => afterBlock cs
  | '/' :: '/' :: cs => some (cs.dropWhile (!isNewline ·))
  | c :: cs => if isGapBlank c then some cs else none
  | [] => none

theorem Rule.whitespace_reading : Rule.whitespace.reading .tight cs = readOne isGapBlank cs := by
  have hbody : Rule.whitespace.body = .choice (.literal [' '])
      (.choice (.literal ['\t']) (.choice (.literal ['\r']) (.literal ['\n']))) := rfl
  rw [reading_tight, hbody]
  simp only [Expr.reading_choice, Expr.reading_literal_singleton, readOne_or]
  rfl

def insideBlock : Expr := .seq (.notAhead (.literal ['*', '/'])) (.char .any)

theorem insideBlock_reading : insideBlock.reading .tight cs =
    if ['*', '/'] <+: cs then none else readOne (fun _ => true) cs := by
  rw [insideBlock, Expr.reading_seq, Expr.reading_notAhead, Expr.reading_literal]
  cases cs with
  | nil => rfl
  | cons c cs =>
    by_cases h : ['*', '/'] <+: c :: cs
    · simp [h]
    · simp [h, Expr.skipBetween, Expr.reading_char, readOne, CharClass.contains]

theorem readRounds_insideBlock (cs : List Char) (ns : List Node) :
    ∃ ds, readRounds (insideBlock.reading .tight) cs ns = (ds, ns) ∧
      (Expr.literal ['*', '/']).reading .tight ds = (afterBlock cs).map (·, []) := by
  fun_induction afterBlock cs with
  | case1 cs =>
    refine ⟨'*' :: '/' :: cs, ?_, by simp [Expr.reading_literal]⟩
    rw [readRounds, insideBlock_reading, if_pos (by simp)]
  | case2 c cs hne ih =>
    obtain ⟨ds, hr, hd⟩ := ih
    have h : ¬ ['*', '/'] <+: c :: cs := by
      rintro ⟨t, ht⟩
      simp only [List.cons_append, List.nil_append, List.cons.injEq] at ht
      exact hne t ht.1.symm ht.2.symm
    refine ⟨ds, ?_, hd⟩
    rw [readRounds, insideBlock_reading, if_neg h]
    simpa [readOne] using hr
  | case3 =>
    refine ⟨[], ?_, rfl⟩
    rw [readRounds, insideBlock_reading]
    rfl

theorem newline_isSome :
    (Expr.newline.reading .tight cs).isSome = (readOne isNewline cs).isSome := by
  have h : Expr.newline =
      .choice (.literal ['\n']) (.choice (.literal ['\r', '\n']) (.literal ['\r'])) :=
    rfl
  rw [h, Expr.reading_choice, Expr.reading_choice, Expr.reading_literal_singleton,
    Expr.reading_literal_singleton, Expr.reading_literal]
  cases cs with
  | nil => rfl
  | cons c cs =>
    simp only [readOne, isNewline, Bool.or_eq_true, beq_iff_eq]
    by_cases hn : c = '\n'
    · simp [hn]
    · by_cases hr : c = '\r'
      · simp [hr]
      · simp [hn, hr, eq_comm]

theorem Rule.comment_reading : Rule.comment.reading .tight cs =
    if ['/', '*'] <+: cs then (afterBlock (cs.drop 2)).map (·, [])
    else if ['/', '/'] <+: cs then some ((cs.drop 2).dropWhile (!isNewline ·), [])
    else none := by
  have hbody : Rule.comment.body = .choice
      (.seq (.seq (.literal ['/', '*']) (.many insideBlock)) (.literal ['*', '/']))
      (.seq (.literal ['/', '/']) (.many (.seq (.notAhead Expr.newline) (.char .any)))) := rfl
  have hline : ∀ cs, (Expr.many (.seq (.notAhead Expr.newline) (.char .any))).reading .tight cs =
      some (cs.dropWhile (!isNewline ·), []) := fun cs =>
    Expr.reading_many_readOne fun cs => Expr.reading_any_unless fun _ => newline_isSome
  have hblock : ∀ cs, ∃ ds, (Expr.many insideBlock).reading .tight cs = some (ds, []) ∧
      (Expr.literal ['*', '/']).reading .tight ds = (afterBlock cs).map (·, []) := by
    intro cs
    obtain ⟨ds, hr, hd⟩ := readRounds_insideBlock cs []
    refine ⟨ds, ?_, hd⟩
    rw [Expr.reading_many_tight, hr]
    intro cs cs' ns h
    rw [insideBlock_reading] at h
    split at h
    · simp at h
    · exact length_lt_of_readOne h
  obtain ⟨ds, hr, hd⟩ := hblock (cs.drop 2)
  have hfirst : (Expr.seq (.seq (.literal ['/', '*']) (.many insideBlock))
      (.literal ['*', '/'])).reading .tight cs =
        if ['/', '*'] <+: cs then (afterBlock (cs.drop 2)).map (·, []) else none := by
    rw [Expr.reading_seq, Expr.reading_seq, Expr.reading_literal]
    by_cases h : ['/', '*'] <+: cs
    · simp only [h, if_true, Reading.some_nil_andThen, Expr.skipBetween, List.length_cons,
        List.length_nil, hr, hd]
    · simp [h]
  rw [reading_tight, hbody, Expr.reading_choice, hfirst, Expr.reading_seq, Expr.reading_literal]
  by_cases hb : ['/', '*'] <+: cs
  · have hl : ¬ ['/', '/'] <+: cs := by
      obtain ⟨t, rfl⟩ := hb
      simp
    simp [hb, hl]
  · by_cases hl : ['/', '/'] <+: cs <;> simp [hb, hl, Expr.skipBetween, hline]

theorem gapStep?_reading :
    (Rule.whitespace.reading .tight cs).or (Rule.comment.reading .tight cs) =
      (gapStep? cs).map (·, []) := by
  rw [Rule.whitespace_reading, Rule.comment_reading]
  fun_cases gapStep? cs with
  | case1 cs => simp [readOne, isGapBlank]
  | case2 cs => simp [readOne, isGapBlank]
  | case3 c cs h₁ h₂ hc => simp [readOne, hc]
  | case4 c cs h₁ h₂ hc =>
    have hb : ¬ ['/', '*'] <+: c :: cs := by
      rintro ⟨t, ht⟩
      obtain ⟨rfl, rfl⟩ := List.cons.inj ht
      exact h₁ t rfl rfl
    have hl : ¬ ['/', '/'] <+: c :: cs := by
      rintro ⟨t, ht⟩
      obtain ⟨rfl, rfl⟩ := List.cons.inj ht
      exact h₂ t rfl rfl
    simp [readOne, hc, hb, hl]
  | case5 => rfl

/-! ### Where a text ends -/

/-- Where a reader of a text stands: between comments, after a slash, or in a comment, of a block
comment perhaps after a star. -/
inductive Spot where
  | code | slash | line | block | star
  deriving DecidableEq

/-- Where one more character leads. -/
def Spot.next : Spot → Char → Spot
  | code, c => if c = '/' then slash else code
  | slash, c => if c = '/' then line else if c = '*' then block else code
  | line, c => if isNewline c then code else line
  | block, c => if c = '*' then star else block
  | star, c => if c = '/' then code else if c = '*' then star else block

def Spot.after (s : Spot) (cs : List Char) : Spot := cs.foldl Spot.next s

@[simp] theorem Spot.after_nil (s : Spot) : s.after [] = s := rfl

@[simp] theorem Spot.after_cons (s : Spot) (c : Char) (cs : List Char) :
    s.after (c :: cs) = (s.next c).after cs := rfl

@[simp] theorem Spot.after_append (s : Spot) (cs ds : List Char) :
    s.after (cs ++ ds) = (s.after cs).after ds :=
  List.foldl_append

theorem Spot.code_after (h : '/' ∉ cs) : Spot.code.after cs = .code := by
  induction cs with
  | nil => rfl
  | cons c cs ih =>
    rw [List.mem_cons, not_or] at h
    rw [after_cons, next, if_neg (Ne.symm h.1), ih h.2]

theorem Spot.line_after (h : ∀ c ∈ cs, isNewline c = false) : Spot.line.after cs = .line := by
  induction cs with
  | nil => rfl
  | cons c cs ih =>
    rw [after_cons, next, h c (by simp)]
    exact ih fun c hc => h c (List.mem_cons_of_mem _ hc)

/-! ### Gaps -/

theorem afterBlock_split (h : afterBlock cs = some cs') :
    ∃ x, cs = x ++ cs' ∧ x ≠ [] ∧ (∀ zs, afterBlock (x ++ zs) = some zs) ∧
      Spot.block.after x = .code := by
  fun_induction afterBlock cs with
  | case1 cs =>
    obtain rfl := Option.some.inj h
    exact ⟨['*', '/'], rfl, by simp, fun _ => rfl, rfl⟩
  | case2 c cs hne ih =>
    obtain ⟨x, rfl, hxne, hx, hspot⟩ := ih h
    obtain ⟨d, x, rfl⟩ := List.exists_cons_of_ne_nil hxne
    -- a star before the slash would have been the end
    have hd : c = '*' → d ≠ '/' := fun hc hd => hne (x ++ cs') hc (by simp [hd])
    refine ⟨c :: d :: x, rfl, by simp, fun zs => ?_, ?_⟩
    · rw [List.cons_append, afterBlock]
      · exact hx zs
      · intro t hc ht
        exact hd hc (List.cons.inj ht).1
    · rw [← hspot]
      by_cases hc : c = '*'
      · simp [Spot.next, hc, hd hc]
      · simp [Spot.next, hc]
  | case3 => simp at h

theorem gapStep?_cons_of_ne (h : c ≠ '/') :
    gapStep? (c :: cs) = if isGapBlank c then some cs else none := by
  rw [gapStep?] <;> simp_all

theorem gapStep?_blank (h : isGapBlank c = true) : gapStep? (c :: cs) = some cs := by
  have hc : c ≠ '/' := by rintro rfl; simp [isGapBlank] at h
  rw [gapStep?_cons_of_ne hc, if_pos h]

theorem gapStep?_line {b : List Char} (hb : ∀ c ∈ b, isNewline c = false)
    (h : ∀ c ∈ cs.head?, isNewline c = true) : gapStep? ('/' :: '/' :: (b ++ cs)) = some cs := by
  have hcs : cs.dropWhile (!isNewline ·) = cs := by
    cases cs with
    | nil => rfl
    | cons c cs => simp_all
  rw [gapStep?, List.dropWhile_append_of_pos (by simpa using hb), hcs]

/-- One step over a gap passes a piece that is a step before any text, or a line comment up to
the end of its line. -/
theorem gapStep?_split (h : gapStep? cs = some cs') : ∃ x, cs = x ++ cs' ∧ x ≠ [] ∧
      ((∀ zs, gapStep? (x ++ zs) = some zs) ∧ Spot.code.after x = .code ∨
      ∃ b, x = '/' :: '/' :: b ∧ (∀ c ∈ b, isNewline c = false) ∧
        ∀ c ∈ cs'.head?, isNewline c = true) := by
  fun_cases gapStep? cs with
  | case1 cs =>
    obtain ⟨x, rfl, -, hx, hspot⟩ := afterBlock_split (by simpa [gapStep?] using h)
    exact ⟨'/' :: '*' :: x, rfl, by simp, .inl ⟨fun zs => hx zs, hspot⟩⟩
  | case2 cs =>
    obtain rfl : cs.dropWhile (!isNewline ·) = cs' := by simpa [gapStep?] using h
    refine ⟨'/' :: '/' :: cs.takeWhile (!isNewline ·), ?_, by simp, .inr ⟨_, rfl, ?_, ?_⟩⟩
    · simp [List.takeWhile_append_dropWhile]
    · intro c hc
      simpa using List.mem_takeWhile_imp hc
    · intro c hc
      have := List.head?_dropWhile_not (!isNewline ·) cs
      rw [Option.mem_def.mp hc] at this
      simpa using this
  | case3 c cs h₁ h₂ hc =>
    rw [gapStep?_blank hc] at h
    obtain rfl := Option.some.inj h
    have hslash : c ≠ '/' := by rintro rfl; simp [isGapBlank] at hc
    exact ⟨[c], rfl, by simp, .inl ⟨fun zs => gapStep?_blank hc, by simp [Spot.next, hslash]⟩⟩
  | case4 c cs h₁ h₂ hc => simp_all [gapStep?]
  | case5 => simp [gapStep?] at h

theorem gapStep?_length_lt (h : gapStep? cs = some cs') : cs'.length < cs.length := by
  obtain ⟨x, rfl, hx, -⟩ := gapStep?_split h
  have := List.length_pos_iff.mpr hx
  simp only [List.length_append]
  omega

/-- The text does not begin with a blank or a comment. -/
def Solid (cs : List Char) : Prop := gapStep? cs = none

theorem solid_nil : Solid [] := rfl

theorem solid_cons (hb : isGapBlank c = false) (hs : c ≠ '/') : Solid (c :: cs) := by
  rw [Solid, gapStep?_cons_of_ne hs, hb]
  rfl

open HeaderBridge.Grammar.Expr (skipGap)

theorem skipGap_of_step (h : gapStep? cs = some cs') : skipGap cs = skipGap cs' := by
  rw [skipGap, readRounds]
  simp only [gapStep?_reading, h, Option.map_some, gapStep?_length_lt h, if_true]
  rw [skipGap]
  simp only [gapStep?_reading, List.append_nil]

theorem Solid.skipGap (h : Solid cs) : skipGap cs = cs := by
  rw [Expr.skipGap, readRounds_of_none]
  rw [gapStep?_reading, h]
  rfl

theorem gap_induction {P : List Char → Prop} (hsolid : ∀ cs, Solid cs → P cs)
    (hstep : ∀ cs cs', gapStep? cs = some cs' → P cs' → P cs) (cs : List Char) : P cs := by
  cases h : gapStep? cs with
  | none => exact hsolid cs h
  | some cs' => exact hstep cs cs' h (gap_induction hsolid hstep cs')
termination_by cs.length
decreasing_by exact gapStep?_length_lt h

theorem solid_skipGap (cs : List Char) : Solid (skipGap cs) := by
  induction cs using gap_induction with
  | hsolid cs h => rwa [h.skipGap]
  | hstep cs cs' h ih => rwa [skipGap_of_step h]

@[simp] theorem skipGap_skipGap (cs : List Char) : skipGap (skipGap cs) = skipGap cs :=
  (solid_skipGap cs).skipGap

@[simp] theorem skipGap_nil : skipGap [] = [] := solid_nil.skipGap

theorem solid_of_skipGap_eq (h : skipGap cs = cs) : Solid cs :=
  h ▸ solid_skipGap cs

theorem skipGap_suffix (cs : List Char) : skipGap cs <:+ cs := by
  induction cs using gap_induction with
  | hsolid cs h => simp [h.skipGap]
  | hstep cs cs' h ih =>
    obtain ⟨x, rfl, -⟩ := gapStep?_split h
    rw [skipGap_of_step h]
    exact ih.trans (List.suffix_append x cs')

/-- The text is a gap before any other. -/
def IsGap (g : List Char) : Prop := ∀ zs, skipGap (g ++ zs) = skipGap zs

theorem IsGap.nil : IsGap [] := fun _ => rfl

theorem IsGap.append {g' : List Char} (h : IsGap g) (h' : IsGap g') : IsGap (g ++ g') := by
  intro zs
  rw [List.append_assoc, h, h']

theorem IsGap.blank : IsGap [' '] := fun _ => skipGap_of_step (gapStep?_blank rfl)

theorem IsGap.skipGap_eq_nil (h : IsGap g) : skipGap g = [] := by
  simpa using h []

/-- What stands before something solid is a gap before any text. -/
theorem isGap_of_skipGap (h : skipGap (g ++ cs) = cs) (hne : cs ≠ []) : IsGap g := by
  induction hn : g.length using Nat.strongRecOn generalizing g with | ind n ih => ?_
  subst hn
  by_cases hg : g = []
  · exact hg ▸ IsGap.nil
  cases hs : gapStep? (g ++ cs) with
  | none =>
    rw [Solid.skipGap hs] at h
    simp [hg] at h
  | some ds =>
    obtain ⟨x, hx, hxne, hcase⟩ := gapStep?_split hs
    rw [skipGap_of_step hs] at h
    obtain ⟨g', hg'⟩ : cs <:+ ds := h ▸ skipGap_suffix ds
    obtain rfl : g = x ++ g' := by
      rw [← hg', ← List.append_assoc] at hx
      exact List.append_cancel_right hx
    have hlen : g'.length < (x ++ g').length := by
      have := List.length_pos_iff.mpr hxne
      simp only [List.length_append]
      omega
    have hgap : IsGap g' := ih _ hlen (hg' ▸ h) rfl
    rcases hcase with ⟨hx, -⟩ | ⟨b, rfl, hb, hd⟩
    · intro zs
      rw [List.append_assoc, skipGap_of_step (hx _), hgap]
    · -- the line ends inside the gap, since what is solid does not begin with a line ending
      cases g' with
      | nil =>
        obtain rfl : cs = ds := hg'
        obtain ⟨c, cs, rfl⟩ := List.exists_cons_of_ne_nil hne
        have hblank := isGapBlank_of_isNewline (hd c rfl)
        have hsolid := solid_of_skipGap_eq h
        rw [Solid, gapStep?_blank hblank] at hsolid
        simp at hsolid
      | cons c g' =>
        intro zs
        have hstep : gapStep? ('/' :: '/' :: (b ++ (c :: g' ++ zs))) = some (c :: g' ++ zs) :=
          gapStep?_line hb (by simpa [← hg'] using hd)
        rw [show '/' :: '/' :: b ++ c :: g' ++ zs = '/' :: '/' :: (b ++ (c :: g' ++ zs)) by simp,
          skipGap_of_step hstep, hgap]

theorem skipGap_line {b : List Char} (hb : ∀ c ∈ b, isNewline c = false) (c : Char) (zs : List Char)
    (hc : isNewline c = true) : skipGap ('/' :: '/' :: (b ++ c :: zs)) = skipGap zs := by
  rw [skipGap_of_step (gapStep?_line hb (by simpa using hc)),
    skipGap_of_step (gapStep?_blank (isGapBlank_of_isNewline hc))]

/-- A text of blanks and comments is a gap before any text unless it ends in a line comment. -/
theorem isGap_iff_spot (h : skipGap g = []) : IsGap g ↔ Spot.code.after g = .code := by
  induction hn : g.length using Nat.strongRecOn generalizing g with | ind n ih => ?_
  subst hn
  cases hs : gapStep? g with
  | none =>
    rw [Solid.skipGap hs] at h
    subst h
    exact ⟨fun _ => rfl, fun _ => IsGap.nil⟩
  | some g' =>
    have hlt := gapStep?_length_lt hs
    rw [skipGap_of_step hs] at h
    obtain ⟨x, rfl, -, ⟨hx, hspot⟩ | ⟨b, rfl, hb, hd⟩⟩ := gapStep?_split hs
    · rw [Spot.after_append, hspot, ← ih _ hlt h rfl]
      refine forall_congr' fun zs => ?_
      rw [List.append_assoc, skipGap_of_step (hx _)]
    · cases g' with
      | nil =>
        -- an open line comment swallows whatever follows
        have hline : Spot.code.after ('/' :: '/' :: b ++ []) = .line := by
          simp [Spot.next, Spot.line_after hb]
        rw [hline]
        refine iff_of_false (fun hgap => ?_) (by simp)
        have hstep : gapStep? ('/' :: '/' :: (b ++ ['a'] ++ [])) = some [] :=
          gapStep?_line (fun c hc => by
            rcases List.mem_append.mp hc with hc | hc
            · exact hb c hc
            · obtain rfl := List.mem_singleton.mp hc
              rfl) (by simp)
        have hswallow := hgap ['a']
        rw [show '/' :: '/' :: b ++ [] ++ ['a'] = '/' :: '/' :: (b ++ ['a'] ++ []) by simp,
          skipGap_of_step hstep, (solid_cons (c := 'a') rfl (by decide)).skipGap] at hswallow
        simp at hswallow
      | cons c g' =>
        have hc : isNewline c = true := hd c rfl
        have hblank := isGapBlank_of_isNewline hc
        rw [skipGap_of_step (gapStep?_blank hblank)] at h
        have hlen : g'.length < ('/' :: '/' :: b ++ c :: g').length := by
          simp only [List.length_append, List.length_cons]
          omega
        have hspot : Spot.code.after ('/' :: '/' :: b ++ c :: g') = Spot.code.after g' := by
          simp [Spot.next, Spot.line_after hb, hc]
        rw [hspot, ← ih _ hlen h rfl]
        refine forall_congr' fun zs => ?_
        rw [show '/' :: '/' :: b ++ c :: g' ++ zs = '/' :: '/' :: (b ++ c :: (g' ++ zs)) by simp,
          skipGap_line hb c _ hc]

end HeaderBridge.Grammar
