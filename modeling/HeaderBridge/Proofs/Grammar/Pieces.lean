import HeaderBridge.Proofs.Grammar.Shape
import HeaderBridge.Text.Blank

/-! # Spellings put together from pieces

A text spells an expression before a kind of texts if there the expression reads
exactly this text and gives the same nodes. Spellings are put together: one after
the other with a gap between them, or as a list with commas.
-/

namespace HeaderBridge.Grammar

open HeaderBridge.Grammar.Expr (skipGap)

variable {cs cs' zs x g : List Char} {c : Char}

/-! ### Characters of tokens -/

theorem isGapBlank_of_isIdentChar (h : isIdentChar c = true) : isGapBlank c = false := by
  by_contra hc
  simp only [isGapBlank, Bool.not_eq_false, Bool.or_eq_true, beq_iff_eq] at hc
  rcases hc with rfl | rfl | rfl | rfl <;> simp [isIdentChar, Char.isAlphanum] at h

theorem ne_slash_of_isIdentChar (h : isIdentChar c = true) : c ≠ '/' := by
  rintro rfl
  simp [isIdentChar, Char.isAlphanum] at h

/-- The text begins with neither a blank nor a slash, so it is solid whatever follows. -/
def Firm (x : List Char) : Prop := ∃ c ∈ x.head?, isGapBlank c = false ∧ c ≠ '/'

theorem Firm.ne_nil (h : Firm x) : x ≠ [] := by
  rintro rfl
  simp [Firm] at h

theorem Firm.append (h : Firm x) (zs : List Char) : Firm (x ++ zs) := by
  obtain ⟨c, hc, hb⟩ := h
  exact ⟨c, by cases x <;> simp_all, hb⟩

theorem Firm.solid (h : Firm x) : Solid x := by
  obtain ⟨c, hc, hb, hs⟩ := h
  cases x with
  | nil => simp at hc
  | cons d x =>
    obtain rfl : d = c := by simpa using hc
    exact solid_cons hb hs

theorem firm_of_isIdentChar (h : isIdentChar c = true) : Firm (c :: x) :=
  ⟨c, rfl, isGapBlank_of_isIdentChar h, ne_slash_of_isIdentChar h⟩

theorem firm_of_startsIdent (h : startsIdent cs = true) : Firm cs := by
  cases cs with
  | nil => simp [startsIdent] at h
  | cons c cs =>
    exact firm_of_isIdentChar (isIdentChar_of_isIdentStart (by simpa [startsIdent] using h))

theorem firm_of_identRun_ne_nil (h : identRun cs ≠ []) : Firm cs := by
  cases cs with
  | nil => exact absurd rfl h
  | cons c cs =>
    by_cases hc : isIdentChar c = true
    · exact firm_of_isIdentChar hc
    · simp [identRun, hc] at h

theorem IsGap.skipGap_append_firm (hg : IsGap g) (hx : Firm x) (zs : List Char) :
    skipGap (g ++ (x ++ zs)) = x ++ zs := by
  rw [hg, (hx.append zs).solid.skipGap]

theorem IsGap.skipGap_append_cons (hg : IsGap g) (hb : isGapBlank c = false) (hs : c ≠ '/')
    (zs : List Char) : skipGap (g ++ c :: zs) = c :: zs := by
  rw [hg, (solid_cons hb hs).skipGap]

theorem IsGap.ends (hg : IsGap g) (hne : g ≠ []) (zs : List Char) : Ends (g ++ zs) := by
  obtain ⟨c, g, rfl⟩ := List.exists_cons_of_ne_nil hne
  intro d hd
  obtain rfl : c = d := by simpa using hd
  by_contra hc
  have hsolid := (firm_of_isIdentChar (x := g) (by simpa using hc)).solid.skipGap
  rw [hg.skipGap_eq_nil] at hsolid
  simp at hsolid

theorem IsGap.ends_cons (hg : IsGap g) (hc : isIdentChar c = false) (zs : List Char) :
    Ends (g ++ c :: zs) := by
  by_cases hne : g = []
  · subst hne
    intro d hd
    obtain rfl : c = d := by simpa using hd
    exact hc
  · exact hg.ends hne _

theorem exists_gap_append (h : skipGap cs = x) (hx : x ≠ []) : ∃ g, cs = g ++ x ∧ IsGap g := by
  obtain ⟨g, hg⟩ := skipGap_suffix cs
  rw [h] at hg
  exact ⟨g, hg.symm, isGap_of_skipGap (by rw [hg, h]) hx⟩

theorem toNat_of_isIdentChar (h : isIdentChar c = true) : 36 ≤ c.toNat ∧ c.toNat ≤ 122 := by
  unfold isIdentChar Char.isAlphanum Char.isAlpha Char.isUpper Char.isLower Char.isDigit at h
  simp only [Bool.or_eq_true, Bool.and_eq_true, decide_eq_true_eq, beq_iff_eq,
    UInt32.le_iff_toNat_le, ge_iff_le] at h
  change (((65 ≤ c.toNat ∧ c.toNat ≤ 90) ∨ (97 ≤ c.toNat ∧ c.toNat ≤ 122)) ∨
    (48 ≤ c.toNat ∧ c.toNat ≤ 57)) ∨ c = '_' ∨ c = '$' at h
  rcases h with ((h | h) | h) | rfl | rfl
  · omega
  · omega
  · omega
  · decide
  · decide

theorem isBlank_of_isIdentChar (h : isIdentChar c = true) : Text.isBlank c = false := by
  obtain ⟨hlo, hhi⟩ := toNat_of_isIdentChar h
  simp only [Text.isBlank, Bool.or_eq_false_iff, Bool.and_eq_false_iff, decide_eq_false_iff_not]
  omega

/-- The text leads out of all comments, and it ends with a character that is not blank. -/
structure Neat (x : List Char) : Prop where
  spot : Spot.code.after x = .code
  last : ∃ c ∈ x.getLast?, Text.isBlank c = false

theorem Neat.append {y : List Char} (hx : Spot.code.after x = .code) (hy : Neat y) :
    Neat (x ++ y) := by
  obtain ⟨c, hc, hb⟩ := hy.last
  refine ⟨by rw [Spot.after_append, hx, hy.spot], c, ?_, hb⟩
  rw [Option.mem_def] at hc ⊢
  rw [List.getLast?_append, hc]
  rfl

theorem IsGap.spot (h : IsGap g) : Spot.code.after g = .code :=
  (isGap_iff_spot h.skipGap_eq_nil).mp h

theorem neat_of_isIdentChar (h : ∀ c ∈ x, isIdentChar c = true) (hne : x ≠ []) : Neat x := by
  refine ⟨Spot.code_after fun hs => ?_, x.getLast hne, List.getLast?_eq_some_getLast hne, ?_⟩
  · exact absurd rfl (ne_slash_of_isIdentChar (h _ hs))
  · exact isBlank_of_isIdentChar (h _ (List.getLast_mem hne))

theorem Neat.between_angles {h : List Char} (hx : Neat x) (hg : IsGap g) (hh : IsGap h) :
    Neat ('<' :: (g ++ (x ++ (h ++ ['>'])))) := by
  have hclose : Neat ['>'] := ⟨rfl, '>', rfl, rfl⟩
  exact (((hclose.append hh.spot).append hx.spot).append hg.spot).append (x := ['<']) rfl

/-! ### Shapes of tokens -/

namespace Expr

theorem shape_identifier : (Expr.call .identifier).shape cs =
    if startsIdent cs then some (skipGap (identRest cs), [.token .identifier (identRun cs)])
    else none := by
  rw [shape, reading_call, Rule.identifier_reading]
  by_cases h : startsIdent cs = true
  · simp [h, Node.skeleton_token (r := .identifier) rfl]
  · simp [h]

theorem shape_keyword {r : Rule} (hr : r.isKeyword = true) : (Expr.call r).shape cs =
    if String.ofList (identRun cs) ∈ r.spellings then
      some (skipGap (identRest cs), [.token r (identRun cs)])
    else none := by
  have hkind : r.kind = .token := by
    cases r <;> simp only [Rule.isKeyword, Bool.false_eq_true] at hr <;> rfl
  rw [shape, reading_call, Rule.keyword_reading hr]
  by_cases h : String.ofList (identRun cs) ∈ r.spellings
  · simp [h, Node.skeleton_token hkind]
  · simp [h]

theorem shape_typePrefix : (Expr.call .typePrefix).shape cs =
    (prefixRule? (.ofList (identRun cs))).map fun r =>
      (skipGap (identRest cs), [.token r (identRun cs)]) := by
  rw [shape, reading_call, Rule.typePrefix_reading]
  cases h : prefixRule? (.ofList (identRun cs)) with
  | none => rfl
  | some r =>
    have hkind : r.kind = .token := by
      have hmem := List.mem_of_find?_eq_some h
      simp only [List.mem_cons, List.not_mem_nil, or_false] at hmem
      rcases hmem with rfl | rfl | rfl <;> rfl
    simp [Node.skeleton_token hkind]

theorem shape_pointerQualifier :
    (Expr.call .pointerQualifier).shape = (Expr.call .typePrefix).shape := by
  funext cs
  rw [shape, shape, reading_call, reading_call, Rule.pointerQualifier_reading]

end Expr

/-! ### Spellings -/

/-- Before the texts of a kind, the text is what the expression reads, and it leaves the given
nodes. -/
def Expr.Spells (e : Expr) (F : List Char → Prop) (x : List Char) (ns : List Node) : Prop :=
  ∀ zs, F zs → e.shape (x ++ zs) = some (skipGap zs, ns)

namespace Expr

variable {a b e : Expr} {F : List Char → Prop} {x y g : List Char} {ns ms : List Node}

theorem Spells.mono {G : List Char → Prop} (h : e.Spells F x ns) (hG : ∀ zs, G zs → F zs) :
    e.Spells G x ns := fun zs hz => h zs (hG zs hz)

theorem Spells.branch {r : Rule} (hr : r.isPlain = true) (h : r.body.Spells F x ns) :
    (Expr.call r).Spells F x [.branch r ns] := by
  intro zs hz
  rw [shape_branch hr, h zs hz]
  rfl

theorem Spells.seq {G : List Char → Prop} (ha : a.Spells G x ns) (hg : IsGap g) (hy : Firm y)
    (hb : b.Spells F y ms) (hG : ∀ zs, F zs → G (g ++ (y ++ zs))) :
    (seq a b).Spells F (x ++ (g ++ y)) (ns ++ ms) := by
  intro zs hz
  rw [shape_seq, List.append_assoc, List.append_assoc, ha _ (hG zs hz),
    hg.skipGap_append_firm hy, Reading.some_andThen, hb zs hz]
  rfl

theorem Spells.opt (h : e.Spells F x ns) (hx : Firm x) : (opt e).Spells F x ns := by
  intro zs hz
  rw [shape_opt (hx.append zs).solid, h zs hz]
  rfl

/-! ### Brackets -/

theorem shape_singleton (c d : Char) (ds : List Char) :
    (literal [c]).shape (d :: ds) = if d = c then some (skipGap ds, []) else none := by
  rw [shape_literal]
  by_cases h : d = c
  · simp [h]
  · simp [h, Ne.symm h]

/-- The character that every match begins with, where it is easily seen. -/
def opening? : Expr → Option Char
  | literal (c :: _) => some c
  | seq a _ => a.opening?
  | _ => none

theorem shape_none_of_opening (he : e.opening? = some c) (h : cs.head? ≠ some c) :
    e.shape cs = none := by
  induction e with
  | literal l =>
    cases l with
    | nil => simp [opening?] at he
    | cons d l =>
      obtain rfl : d = c := by simpa [opening?] using he
      rw [shape_literal, if_neg]
      rintro ⟨t, rfl⟩
      simp at h
  | seq a b iha _ => rw [shape_seq, iha he, Reading.none_andThen]
  | _ => simp [opening?] at he

theorem shape_call_none {r : Rule} (hr : r.isPlain = true) (ho : r.body.opening? = some c)
    (h : cs.head? ≠ some c) : (Expr.call r).shape cs = none := by
  rw [shape_branch hr, shape_none_of_opening ho h]
  rfl

def enclosed (o c : Char) (e : Expr) : Expr := .seq (.seq (.literal [o]) e) (.literal [c])

theorem shape_enclosed (o c : Char) (ds : List Char) : (enclosed o c e).shape (o :: ds) =
    (e.shape (skipGap ds)).andThen (literal [c]).shape := by
  rw [enclosed, shape_seq, shape_seq, shape_singleton, if_pos rfl, Reading.some_nil_andThen]

theorem Spells.enclosed {o : Char} {G : List Char → Prop} {h : List Char} (he : e.Spells F x ns)
    (hc : Firm [c]) (hg : IsGap g) (hx : Firm x) (hh : IsGap h) (hF : ∀ zs, F (h ++ c :: zs)) :
    (enclosed o c e).Spells G (o :: (g ++ (x ++ (h ++ [c])))) ns := by
  intro zs _
  have hclose := hh.skipGap_append_firm hc zs
  rw [List.singleton_append] at hclose
  have happ : o :: (g ++ (x ++ (h ++ [c]))) ++ zs = o :: (g ++ (x ++ (h ++ c :: zs))) := by simp
  rw [happ, shape_enclosed, hg.skipGap_append_firm hx, he _ (hF zs), hclose, Reading.some_andThen,
    shape_singleton, if_pos rfl]
  simp

/-- A reading that ends with a closing bracket ends exactly there. -/
theorem reading_closed (h : (Expr.seq e (.literal [c])).reading .spaced cs = some (cs', ns)) :
    e.shape cs = some (c :: cs', ns.map Node.skeleton) := by
  rw [reading_seq, Reading.andThen_eq_some] at h
  obtain ⟨cs₁, ns₁, ns₂, h₁, h₂, rfl⟩ := h
  rw [reading_literal, Option.ite_none_right_eq_some, Option.some.injEq, Prod.mk.injEq] at h₂
  obtain ⟨⟨ds, hds⟩, rfl, rfl⟩ := h₂
  rw [shape_of_reading h₁]
  simp only [skipBetween] at hds ⊢
  simp [← hds]

theorem shape_opened {o : Char} {y : List Char × List Node}
    (h : (Expr.seq (.literal [o]) e).shape cs = some y) :
    ∃ ds, cs = o :: ds ∧ e.shape (skipGap ds) = some y := by
  cases cs with
  | nil => simp [shape_seq, shape_literal] at h
  | cons d ds =>
    rw [shape_seq, shape_singleton] at h
    by_cases hd : d = o
    · rw [if_pos hd, Reading.some_nil_andThen] at h
      exact ⟨ds, by rw [hd], h⟩
    · simp [hd] at h

/-! ### Lists with commas -/

def sepBy (e : Expr) : Expr := .seq e (.many (.seq (.literal [',']) e))

theorem shape_comma (d : Char) (ds : List Char) : (Expr.seq (.literal [',']) e).shape (d :: ds) =
    if d = ',' then e.shape (skipGap ds) else none := by
  rw [shape_seq, shape_singleton]
  by_cases h : d = ',' <;> simp [h]

theorem shape_sepBy (h : e.shape cs = some (cs', ns)) :
    (sepBy e).shape cs = some (((Expr.seq (.literal [',']) e).rounds cs').1,
      ns ++ ((Expr.seq (.literal [',']) e).rounds cs').2) := by
  rw [sepBy, shape_seq, h, Reading.some_andThen, shape_many rfl (solid_of_shape h)]
  rfl

theorem shape_sepBy_none (h : e.shape cs = none) : (sepBy e).shape cs = none := by
  rw [sepBy, shape_seq, h]
  rfl

theorem shape_sepBy_last (h : e.shape cs = some (cs', ns))
    (hend : ∀ ds, cs' = ',' :: ds → e.shape (skipGap ds) = none) :
    (sepBy e).shape cs = some (cs', ns) := by
  have hround : (Expr.seq (.literal [',']) e).shape cs' = none := by
    cases cs' with
    | nil => rw [shape_seq, shape_literal]; rfl
    | cons d ds =>
      rw [shape_comma]
      split
      · exact hend ds (by simp_all)
      · rfl
  rw [shape_sepBy h, rounds_of_none hround, List.append_nil]

theorem shape_sepBy_comma {ds : List Char} (h : e.shape cs = some (',' :: ds, ns))
    (hmore : (sepBy e).shape (skipGap ds) = some (cs', ms)) :
    (sepBy e).shape cs = some (cs', ns ++ ms) := by
  cases hd : e.shape (skipGap ds) with
  | none => simp [shape_sepBy_none hd] at hmore
  | some y =>
    have hround : (Expr.seq (.literal [',']) e).shape (',' :: ds) = some (y.1, y.2) := by
      rw [shape_comma, if_pos rfl, hd]
    rw [shape_sepBy hd, Option.some.injEq, Prod.mk.injEq] at hmore
    rw [shape_sepBy h, rounds_of_some rfl hround, hmore.1, hmore.2]

theorem shape_sepBy_andThen_none {ds : List Char} {next : List Char → Reading}
    (h : e.shape cs = some (',' :: ds, ns)) (hstop : next (',' :: ds) = none)
    (hmore : ((sepBy e).shape (skipGap ds)).andThen next = none) :
    ((sepBy e).shape cs).andThen next = none := by
  cases hlist : (sepBy e).shape (skipGap ds) with
  | none =>
    have he : e.shape (skipGap ds) = none := by
      by_contra he
      obtain ⟨y, hy⟩ := Option.ne_none_iff_exists'.mp he
      simp [shape_sepBy hy] at hlist
    rw [shape_sepBy_last h (fun ds hds => by rwa [← (List.cons.inj hds).2]), Reading.some_andThen,
      hstop, Option.map_none]
  | some y =>
    rw [hlist, Reading.some_andThen, Option.map_eq_none_iff] at hmore
    rw [shape_sepBy_comma h hlist, Reading.some_andThen, hmore, Option.map_none]

theorem shape_sepBy_cases (h : (sepBy e).shape cs = some (cs', ns)) :
    e.shape cs = some (cs', ns) ∨ ∃ ds ns₁ ns₂, e.shape cs = some (',' :: ds, ns₁) ∧
      (sepBy e).shape (skipGap ds) = some (cs', ns₂) ∧ ns = ns₁ ++ ns₂ := by
  cases he : e.shape cs with
  | none => simp [shape_sepBy_none he] at h
  | some y =>
    obtain ⟨cs₁, ns₁⟩ := y
    by_cases hmore : ∃ ds y, cs₁ = ',' :: ds ∧ e.shape (skipGap ds) = some y
    · obtain ⟨ds, y, rfl, hd⟩ := hmore
      rw [shape_sepBy_comma he (shape_sepBy hd), Option.some.injEq, Prod.mk.injEq] at h
      refine .inr ⟨ds, ns₁, _, rfl, ?_, h.2.symm⟩
      rw [← h.1]
      exact shape_sepBy hd
    · refine .inl ?_
      rw [← h, shape_sepBy_last he]
      intro ds hds
      by_contra hd
      exact hmore ⟨ds, _, hds, (Option.ne_none_iff_exists'.mp hd).choose_spec⟩

end Expr

/-- Elements with commas between them. Each element satisfies a property before what follows it,
and the last one before the given text. -/
inductive Separated (Q : List Char → List Char → List Node → Prop) (r : List Char) :
    List (List Char) → List Char → List Node → Prop where
  | one {x : List Char} {ns : List Node} : Q r x ns → Separated Q r [x] x ns
  | cons {x g h y : List Char} {xs : List (List Char)} {ns ms : List Node} :
      Q (g ++ ',' :: (h ++ (y ++ r))) x ns → IsGap g → IsGap h → Separated Q r xs y ms →
      Separated Q r (x :: xs) (x ++ (g ++ ',' :: (h ++ y))) (ns ++ ms)

namespace Separated

variable {Q : List Char → List Char → List Node → Prop} {e : Expr} {xs : List (List Char)}
  {r x : List Char} {ns : List Node}

theorem firm (hQ : ∀ r x ns, Q r x ns → Firm x) (h : Separated Q r xs x ns) : Firm x := by
  cases h with
  | one hx => exact hQ _ _ _ hx
  | cons hx hg hh hy => exact (hQ _ _ _ hx).append _

theorem map {R : List Char → List Char → List Node → Prop} (h : Separated Q r xs x ns)
    (hR : ∀ y ∈ xs, ∃ ms, ∀ r, R r y ms) : ∃ ms, Separated R r xs x ms := by
  induction h with
  | one hx =>
    obtain ⟨ms, hms⟩ := hR _ List.mem_cons_self
    exact ⟨ms, .one (hms r)⟩
  | cons hx hg hh hy ih =>
    obtain ⟨ms, hms⟩ := hR _ List.mem_cons_self
    obtain ⟨ms', hms'⟩ := ih fun y hy => hR y (by simp [hy])
    exact ⟨ms ++ ms', .cons (hms _) hg hh hms'⟩

theorem neat (hQ : ∀ r x ns, Q r x ns → Neat x) (h : Separated Q r xs x ns) : Neat x := by
  induction h with
  | one hx => exact hQ _ _ _ hx
  | cons hx hg hh hy ih =>
    have hcomma := (ih.append hh.spot).append (x := [',']) rfl
    exact (hcomma.append hg.spot).append (hQ _ _ _ hx).spot

theorem spells {F : List Char → List Char → Prop}
    (hQ : ∀ r x ns, Q r x ns → Firm x ∧ e.Spells (F r) x ns)
    (hF : ∀ g y r zs, IsGap g → F r zs → F (g ++ ',' :: (y ++ r)) (g ++ ',' :: (y ++ zs)))
    (h : Separated Q r xs x ns) :
    (Expr.sepBy e).Spells
      (fun zs => F r zs ∧ ∀ ds, skipGap zs = ',' :: ds → e.shape (skipGap ds) = none) x ns := by
  intro zs hz
  induction h with
  | one hx => exact Expr.shape_sepBy_last ((hQ _ _ _ hx).2 zs hz.1) hz.2
  | @cons x g h y xs ns ms hx hg hh hy ih =>
    have hfollow := hF g (h ++ y) r zs hg hz.1
    simp only [List.append_assoc] at hfollow
    have hfirst := (hQ _ _ _ hx).2 _ hfollow
    rw [hg.skipGap_append_cons rfl (by decide)] at hfirst
    rw [show x ++ (g ++ ',' :: (h ++ y)) ++ zs = x ++ (g ++ ',' :: (h ++ (y ++ zs))) by simp]
    refine Expr.shape_sepBy_comma hfirst ?_
    rw [hh.skipGap_append_firm (hy.firm fun r x ns hx => (hQ r x ns hx).1)]
    exact ih

/-- A list that is read consists of such elements if each element does. -/
theorem of_shape {P : List Char → Prop} {n : Nat} (hP : ∀ ds, P (',' :: ds))
    (hfirm : ∀ r x ns, Q r x ns → Firm x)
    (hQ : ∀ ds ds' ns, ds.length ≤ n → Solid ds → e.shape ds = some (ds', ns) → P ds' →
      ∃ x r, ds = x ++ r ∧ skipGap r = ds' ∧ Q r x ns)
    (hn : cs.length ≤ n) (hcs : Solid cs)
    (h : (Expr.sepBy e).shape cs = some (cs', ns)) (hend : P cs') :
    ∃ xs x r, cs = x ++ r ∧ skipGap r = cs' ∧ Separated Q r xs x ns := by
  induction hlen : cs.length using Nat.strongRecOn generalizing cs ns with | ind k ih => ?_
  subst hlen
  rcases Expr.shape_sepBy_cases h with h | ⟨ds, ns₁, ns₂, h₁, h₂, rfl⟩
  · obtain ⟨x, r, rfl, hr, hx⟩ := hQ cs cs' ns hn hcs h hend
    exact ⟨[x], x, r, rfl, hr, .one hx⟩
  · obtain ⟨x, r, rfl, hr, hx⟩ := hQ cs _ ns₁ hn hcs h₁ (hP ds)
    obtain ⟨g, rfl, hg⟩ := exists_gap_append hr (by simp)
    have hle := (skipGap_suffix ds).length_le
    have hlt : (skipGap ds).length < (x ++ (g ++ ',' :: ds)).length := by
      simp only [List.length_append, List.length_cons]
      omega
    obtain ⟨xs, y, r, hy, hend, hsep⟩ := ih _ hlt (by omega) (solid_skipGap ds) h₂ rfl
    have hne : y ++ r ≠ [] := List.append_ne_nil_of_left_ne_nil (hsep.firm hfirm).ne_nil _
    obtain ⟨h, rfl, hh⟩ := exists_gap_append hy hne
    exact ⟨x :: xs, _, r, by simp, hend, .cons hx hg hh hsep⟩

end Separated

end HeaderBridge.Grammar
