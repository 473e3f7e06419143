import HeaderBridge.Proofs.Grammar.Results

/-! # What a match consumes

A match moves the cursor over a first part of the text that is left, and the
text between the two cursors is that part. Rules that are not listed as possibly
empty move it over at least one character.
-/

namespace HeaderBridge.Grammar

open Matcher

/-! ### Bytes -/

def bytes : List Char → Nat
  | [] => 0
  | c :: cs => c.utf8Size + bytes cs

@[simp] theorem bytes_nil : bytes [] = 0 := rfl

@[simp] theorem bytes_cons (c : Char) (cs : List Char) : bytes (c :: cs) = c.utf8Size + bytes cs :=
  rfl

@[simp] theorem bytes_append (cs ds : List Char) : bytes (cs ++ ds) = bytes cs + bytes ds := by
  induction cs with
  | nil => simp
  | cons c cs ih => rw [List.cons_append, bytes_cons, bytes_cons, ih, Nat.add_assoc]

theorem utf8ByteSize_ofList (cs : List Char) : (String.ofList cs).utf8ByteSize = bytes cs := by
  induction cs with
  | nil => rfl
  | cons c cs ih =>
    rw [String.ofList_cons, String.utf8ByteSize_append, String.utf8ByteSize_singleton, ih,
      bytes_cons]

theorem bytes_le_of_suffix {cs ds : List Char} (h : cs <:+ ds) : bytes cs ≤ bytes ds := by
  obtain ⟨t, rfl⟩ := h
  rw [bytes_append]
  exact Nat.le_add_left _ _

theorem takeBytes_append (cs ds : List Char) : takeBytes (bytes cs) (cs ++ ds) = cs := by
  induction cs with
  | nil => cases ds <;> simp [takeBytes]
  | cons c cs ih =>
    have hpos := c.utf8Size_pos
    have hne : c.utf8Size + bytes cs ≠ 0 := by omega
    rw [bytes_cons, List.cons_append, takeBytes, if_neg hne, Nat.add_sub_cancel_left, ih]

/-! ### Cursors -/

namespace Cursor

theorem skip?_eq (cs : List Char) (c : Cursor) : skip? cs c =
    if cs <+: c.rest then some ⟨c.rest.drop cs.length, c.offset + bytes cs⟩ else none := by
  induction cs generalizing c with
  | nil => simp [skip?]
  | cons a as ih =>
    obtain ⟨rest, p⟩ := c
    cases rest with
    | nil => simp [skip?]
    | cons b bs =>
      rw [skip?]
      by_cases hab : a = b
      · subst hab
        simp [ih, Nat.add_assoc]
      · simp [hab]

/-- The second cursor lies behind a first part of the text that is left at the first. -/
def Ahead (c c' : Cursor) : Prop :=
  ∃ cs, c.rest = cs ++ c'.rest ∧ c'.offset = c.offset + bytes cs

variable {c c' c'' : Cursor}

theorem Ahead.refl (c : Cursor) : c.Ahead c := ⟨[], rfl, rfl⟩

theorem Ahead.trans (h : c.Ahead c') (h' : c'.Ahead c'') : c.Ahead c'' := by
  obtain ⟨cs, hr, ho⟩ := h
  obtain ⟨ds, hr', ho'⟩ := h'
  exact ⟨cs ++ ds, by rw [hr, hr', List.append_assoc], by rw [ho', ho, bytes_append]; omega⟩

theorem Ahead.length_le (h : c.Ahead c') : c'.rest.length ≤ c.rest.length := by
  obtain ⟨cs, hr, -⟩ := h
  simp [hr]

theorem Ahead.of_skip? {cs : List Char} (h : skip? cs c = some c') : c.Ahead c' := by
  rw [skip?_eq] at h
  split at h
  · rename_i hpre
    obtain rfl := Option.some.inj h
    obtain ⟨ds, hds⟩ := hpre
    exact ⟨cs, by simp [← hds], rfl⟩
  · simp at h

theorem Ahead.of_step? {cls : CharClass} (h : step? cls c = some c') : c.Ahead c' := by
  obtain ⟨rest, p⟩ := c
  cases rest with
  | nil => simp [step?] at h
  | cons b bs =>
    simp only [step?] at h
    split at h
    · obtain rfl := Option.some.inj h
      exact ⟨[b], rfl, by simp⟩
    · simp at h

/-- The text between two cursors is the part that lies between them. -/
theorem textTo_eq (h : c.Ahead c') :
    c.textTo c' = String.ofList (c.rest.take (c.rest.length - c'.rest.length)) := by
  obtain ⟨cs, hr, ho⟩ := h
  have hlen : c.rest.length - c'.rest.length = cs.length := by simp [hr]
  rw [textTo, ho, Nat.add_sub_cancel_left, hlen, hr, takeBytes_append, List.take_left]

end Cursor

/-! ### Matches move ahead -/

/-- The end of a match lies ahead of its start. -/
def Moves : Cursor → Cursor → List Node → Prop := fun c c' _ => c.Ahead c'

theorem Moves.composable : Composable Moves where
  refl := Cursor.Ahead.refl
  trans := Cursor.Ahead.trans

theorem Expr.eval_moves {call : Mode → Rule → Matcher} {n : Nat} {mode : Mode}
    (hcall : ∀ mode r, Results Moves (call mode r)) (e : Expr) :
    Results Moves (e.eval call n mode) :=
  eval_results Moves.composable (fun _ _ _ => .of_skip?) (fun _ _ _ => .of_step?)
    (hcall _ _) (hcall _ _) e fun r _ => hcall mode r

/-- A property of the matches of all bodies that does not look at the nodes is one
of the matches of all rules. -/
theorem Rule.run_results {R : Cursor → Cursor → Prop} {n : Nat} {mode : Mode} {r : Rule}
    (h : ∀ mode, Results (fun c c' _ => R c c') (r.body.eval (Rule.run n) n mode)) :
    Results (fun c c' _ => R c c') (r.run (n + 1) mode) := by
  intro c f c' ns f' hm
  have hnamed : ∀ mode, Matcher.named r (r.body.eval (Rule.run n) n mode) c f = .matched c' ns f' →
      R c c' := by
    intro mode hm
    obtain ⟨ms, hms, -⟩ := Matcher.named_matched.mp hm
    exact h mode hms
  cases hk : r.kind <;> cases mode <;> simp only [Rule.run, hk] at hm <;>
    first | exact h _ hm | exact hnamed _ hm

theorem Rule.run_moves (n : Nat) (mode : Mode) (r : Rule) : Results Moves (r.run n mode) := by
  induction n generalizing mode r with
  | zero => intro c f c' ns f' h; simp [Rule.run] at h
  | succ n ih => exact run_results fun mode => Expr.eval_moves ih r.body

/-! ### Matches that are never empty -/

/-- The rules that can match the empty text. -/
def Rule.mayBeEmpty : Rule → Bool
  | .endOfInput | .translationUnit | .protocolDeclarationList | .interfaceDeclarationList => true
  | _ => false

/-- Whether an expression can match the empty text, as far as can be told from its form. -/
def Expr.mayBeEmpty : Expr → Bool
  | literal cs => cs.isEmpty
  | char _ => false
  | start | finish | opt _ | many _ | notAhead _ => true
  | .call r => r.mayBeEmpty
  | seq a b => a.mayBeEmpty && b.mayBeEmpty
  | choice a b => a.mayBeEmpty || b.mayBeEmpty

/-- The end of a match has less text left than its start. -/
def Shrinks : Cursor → Cursor → List Node → Prop := fun c c' _ => c'.rest.length < c.rest.length

theorem Cursor.length_lt_of_step? {cls : CharClass} {c c' : Cursor} (h : step? cls c = some c') :
    c'.rest.length < c.rest.length := by
  obtain ⟨rest, p⟩ := c
  cases rest with
  | nil => simp [step?] at h
  | cons b bs =>
    simp only [step?] at h
    split at h
    · obtain rfl := Option.some.inj h
      simp
    · simp at h

theorem Cursor.length_lt_of_skip? {cs : List Char} {c c' : Cursor} (h : skip? cs c = some c')
    (hne : cs ≠ []) : c'.rest.length < c.rest.length := by
  rw [skip?_eq] at h
  split at h
  · rename_i hpre
    obtain rfl := Option.some.inj h
    have hlen := hpre.length_le
    have hpos := List.length_pos_iff.mpr hne
    simp only [List.length_drop]
    omega
  · simp at h

theorem Expr.eval_shrinks {call : Mode → Rule → Matcher} {n : Nat} {mode : Mode}
    (hmoves : ∀ mode r, Results Moves (call mode r))
    (hcall : ∀ r, r.mayBeEmpty = false → Results Shrinks (call mode r)) (e : Expr)
    (he : e.mayBeEmpty = false) : Results Shrinks (e.eval call n mode) := by
  induction e with
  | literal l =>
    intro c f c' ns f' h
    obtain ⟨hs, -, -⟩ := ofStep_matched.mp h
    exact Cursor.length_lt_of_skip? hs (by simpa [mayBeEmpty] using he)
  | char cls =>
    intro c f c' ns f' h
    obtain ⟨hs, -, -⟩ := ofStep_matched.mp h
    exact Cursor.length_lt_of_step? hs
  | call r => exact hcall r he
  | seq a b iha ihb =>
    intro c f c' ns f' h
    obtain ⟨c₁, ns₁, f₁, ns₂, h₁, h₂, -⟩ := andThen_matched.mp h
    obtain ⟨c₂, ns₃, f₂, ns₄, h₃, h₄, -⟩ := andThen_matched.mp h₂
    have hm₁ := (eval_moves hmoves a h₁).length_le
    have hm₂ := (between_results _ _ Moves.composable (hmoves _ _) (hmoves _ _) h₃).length_le
    have hm₃ := (eval_moves hmoves b h₄).length_le
    -- one of the two parts cannot be empty
    simp only [mayBeEmpty, Bool.and_eq_false_iff] at he
    simp only [Shrinks]
    rcases he with he | he
    · have hlt : c₁.rest.length < c.rest.length := iha he h₁
      omega
    · have hlt : c'.rest.length < c₂.rest.length := ihb he h₄
      omega
  | choice a b iha ihb =>
    simp only [mayBeEmpty, Bool.or_eq_false_iff] at he
    exact (iha he.1).orElse (ihb he.2)
  | start | finish | opt _ | many _ | notAhead _ => simp [mayBeEmpty] at he

theorem Rule.mayBeEmpty_body (r : Rule) (h : r.mayBeEmpty = false) : r.body.mayBeEmpty = false := by
  have hall : ∀ r ∈ Rule.all, r.mayBeEmpty = false → r.body.mayBeEmpty = false := by decide
  exact forall_of_all hall r h

/-- A rule that is not listed as possibly empty consumes a character. -/
theorem Rule.run_shrinks (n : Nat) (mode : Mode) (r : Rule) (hr : r.mayBeEmpty = false) :
    Results Shrinks (r.run n mode) := by
  induction n generalizing mode r with
  | zero => intro c f c' ns f' h; simp [Rule.run] at h
  | succ n ih =>
    exact run_results fun mode => Expr.eval_shrinks (fun mode r => run_moves n mode r)
      (fun r hr => ih mode r hr) r.body (r.mayBeEmpty_body hr)

end HeaderBridge.Grammar
