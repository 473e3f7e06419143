import HeaderBridge.Proofs.Grammar.Specifiers

/-! # Type arguments

A type argument is a specifier with words around it and stars behind it. It is
read as such wherever arguments end, and at the end of a text it is a complete
type name with the same parts.
-/

namespace HeaderBridge.Grammar

open HeaderBridge.Grammar.Expr (skipGap)

variable {cs zs x y g : List Char} {ns : List Node}

/-! ### Words before and behind a type -/

/-- Words before a type, with the gap behind them. -/
inductive Lead : List Char → List Node → Prop where
  | none : Lead [] []
  | words {w g : List Char} {ns : List Node} : Words w ns → IsGap g → g ≠ [] → Lead (w ++ g) ns

inductive Trail : List Char → List Node → Prop where
  | none : Trail [] []
  | words {g w : List Char} {ns : List Node} : IsGap g → Words w ns → Trail (g ++ w) ns

/-- The second text does not go on the last word of the first. -/
def Apart (x zs : List Char) : Prop := ∀ c ∈ x.getLast?, isIdentChar c = true → Ends zs

theorem Apart.of_append (h : Apart (x ++ y) zs) : Apart y zs := by
  intro c hc
  refine h c ?_
  rw [Option.mem_def] at hc ⊢
  simp [List.getLast?_append, hc]

theorem Apart.append (h : Apart y zs) (hy : y ≠ []) : Apart (x ++ y) zs := by
  intro c hc
  refine h c ?_
  rwa [Option.mem_def, List.getLast?_append, Option.or_of_isSome (by simpa using hy)] at hc

theorem Apart.cons {d : Char} (h : Apart y zs) (hd : isIdentChar d = false) :
    Apart (d :: y) zs := by
  by_cases hy : y = []
  · subst hy
    intro c hc hident
    obtain rfl : d = c := by simpa using hc
    rw [hd] at hident
    simp at hident
  · exact h.append (x := [d]) hy

theorem Words.getLast (h : Words x ns) : ∃ c ∈ x.getLast?, isIdentChar c = true := by
  have hword : ∀ {w : List Char} {r : Rule}, prefixRule? (.ofList w) = some r →
      ∃ c ∈ w.getLast?, isIdentChar c = true := by
    intro w r hw
    obtain ⟨hchars, hstart, -⟩ := prefixRule?_spelling hw
    have hne := (firm_of_startsIdent hstart).ne_nil
    exact ⟨w.getLast hne, List.getLast?_eq_some_getLast hne, hchars _ (List.getLast_mem hne)⟩
  induction h with
  | one hw => exact hword hw
  | cons hw hg hne hy ih =>
    obtain ⟨c, hc, hident⟩ := ih
    refine ⟨c, ?_, hident⟩
    rw [Option.mem_def] at hc ⊢
    simp [List.getLast?_append, hc]

theorem Words.neat (h : Words x ns) : Neat x := by
  have hword : ∀ {w : List Char} {r : Rule}, prefixRule? (.ofList w) = some r → Neat w := by
    intro w r hw
    obtain ⟨hchars, hstart, -⟩ := prefixRule?_spelling hw
    exact neat_of_isIdentChar hchars (firm_of_startsIdent hstart).ne_nil
  induction h with
  | one hw => exact hword hw
  | cons hw hg hne hy ih => exact (ih.append hg.spot).append (hword hw).spot

theorem Words.startsIdent (h : Words x ns) : startsIdent x = true := by
  cases h with
  | one hw => exact (prefixRule?_spelling hw).2.1
  | cons hw => exact startsIdent_append (prefixRule?_spelling hw).2.1 _

open HeaderBridge.Grammar.Expr

theorem Lead.shape {l z : List Char} (h : Lead l ns) (hz : Firm z)
    (hword : prefixRule? (.ofList (identRun z)) = .none) :
    (Expr.many (.call .typePrefix)).shape (l ++ z) = some (z, ns) := by
  cases h with
  | none =>
    have hnone : (Expr.call .typePrefix).shape z = .none := by
      rw [shape_typePrefix, hword]
      rfl
    rw [List.nil_append, shape_many rfl hz.solid, rounds_of_none hnone]
  | @words w g ns hw hg hne =>
    have hskip := hg.skipGap_append_firm hz []
    rw [List.append_nil] at hskip
    have hrounds := hw.rounds (hg.ends hne z) (by rwa [NoWord, hskip])
    rw [List.append_assoc, shape_many rfl (hw.firm.append _).solid, hrounds, hskip]

theorem Trail.rounds {t : List Char} (h : Trail t ns) (hz : Apart t zs) (hword : NoWord zs) :
    (Expr.call .typePrefix).rounds (skipGap (t ++ zs)) = (skipGap zs, ns) := by
  cases h with
  | none =>
    apply rounds_of_none
    rw [shape_typePrefix, List.nil_append, hword]
    rfl
  | @words g w ns hg hw =>
    obtain ⟨c, hc, hident⟩ := hw.getLast
    have hends : Ends zs := hz.of_append c hc hident
    rw [List.append_assoc, hg.skipGap_append_firm hw.firm, hw.rounds hends hword]

def Expr.base : Expr :=
  .seq (.seq (.many (.call .typePrefix)) (.call .typeSpecifier)) (.many (.call .typePrefix))

theorem base_spells {F G : List Char → Prop} {l s t : List Char} {lns sns tns : List Node}
    (hl : Lead l lns) (hs : (Expr.call .typeSpecifier).Spells F s sns) (hfirm : Firm s)
    (ht : Trail t tns) (hF : ∀ zs, G zs → F (t ++ zs))
    (hrun : ∀ zs, G zs → prefixRule? (.ofList (identRun (s ++ (t ++ zs)))) = .none)
    (hG : ∀ zs, G zs → Apart t zs ∧ NoWord zs) :
    base.Spells G (l ++ (s ++ t)) (lns ++ sns ++ tns) := by
  intro zs hz
  have happ : l ++ (s ++ t) ++ zs = l ++ (s ++ (t ++ zs)) := by simp
  have htrail := ht.rounds (hG zs hz).1 (hG zs hz).2
  rw [happ, base, shape_seq, shape_seq, hl.shape (hfirm.append _) (hrun zs hz),
    Reading.some_andThen, hs _ (hF zs hz), Option.map_some, Reading.some_andThen,
    shape_many rfl (solid_skipGap _), htrail]
  simp

/-! ### Stars -/

def NoStar (zs : List Char) : Prop := (skipGap zs).head? ≠ some '*'

/-- Stars, each with the words behind it. -/
inductive Stars : List Char → List Node → Prop where
  | one {t : List Char} {ts : List Node} : Trail t ts → Stars ('*' :: t) [.branch .pointerLevel ts]
  | cons {t g y : List Char} {ts ns : List Node} : Trail t ts → IsGap g → Stars y ns →
      Stars ('*' :: (t ++ (g ++ y))) (.branch .pointerLevel ts :: ns)

theorem Stars.exists_cons (h : Stars x ns) : ∃ y, x = '*' :: y := by
  cases h <;> exact ⟨_, rfl⟩

theorem Stars.firm (h : Stars x ns) : Firm x := by
  obtain ⟨y, rfl⟩ := h.exists_cons
  exact ⟨'*', rfl, rfl, by decide⟩

theorem Stars.snoc {t : List Char} {ts : List Node} (h : Stars x ns) (hg : IsGap g)
    (ht : Trail t ts) : Stars (x ++ (g ++ '*' :: t)) (ns ++ [.branch .pointerLevel ts]) := by
  induction h with
  | one hx => simpa using Stars.cons hx hg (.one ht)
  | cons hx hk hy ih => simpa using Stars.cons hx hk ih

theorem Stars.rule (h : Stars x ns) : ∀ m ∈ ns, m.rule = .pointerLevel := by
  induction h with
  | one => simp [Node.rule]
  | cons _ _ _ ih => simpa [Node.rule] using ih

namespace Expr

theorem shape_pointerLevel (cs : List Char) : (Expr.call .pointerLevel).shape ('*' :: cs) =
    some (((Expr.call .typePrefix).rounds (skipGap cs)).1,
      [.branch .pointerLevel ((Expr.call .typePrefix).rounds (skipGap cs)).2]) := by
  have hbody : Rule.pointerLevel.body = .seq (.literal ['*']) (.many (.call .pointerQualifier)) :=
    rfl
  have hrounds : (Expr.call .pointerQualifier).rounds = (Expr.call .typePrefix).rounds := by
    funext cs
    rw [rounds, rounds, shape_pointerQualifier]
  rw [shape_branch rfl, hbody, shape_seq, shape_singleton, if_pos rfl, Reading.some_nil_andThen,
    shape_many rfl (solid_skipGap cs), hrounds]
  rfl

theorem shape_many1 {a : Expr} (ha : a.mayBeEmpty = false) {y : List Char × List Node}
    (h : a.shape cs = some y) : (many1 a).shape cs = some (a.rounds cs) := by
  rw [many1, shape_seq, h, Reading.some_andThen, shape_many ha (solid_of_shape h),
    rounds_of_some ha h]
  rfl

theorem shape_pointer_none (h : cs.head? ≠ some '*') : (Expr.call .pointer).shape cs = none := by
  have hbody : Rule.pointer.body = many1 (.call .pointerLevel) := rfl
  rw [shape_branch rfl, hbody, many1, shape_seq, shape_call_none rfl rfl h]
  rfl

end Expr

theorem Stars.rounds (h : Stars x ns) (hz : Apart x zs) (hword : NoWord zs) (hstar : NoStar zs) :
    (Expr.call .pointerLevel).rounds (x ++ zs) = (skipGap zs, ns) := by
  induction h with
  | @one t ts ht =>
    have htrail : Apart t zs := hz.of_append (x := ['*'])
    have hlevel := shape_pointerLevel (t ++ zs)
    rw [ht.rounds htrail hword] at hlevel
    rw [List.cons_append, rounds_of_some rfl hlevel, rounds_of_none (shape_call_none rfl rfl hstar)]
    rfl
  | @cons t g y ts ns ht hg hy ih =>
    obtain ⟨y', hy'⟩ := hy.exists_cons
    have hskip := hg.skipGap_append_firm hy.firm zs
    have hends : Ends (g ++ (y ++ zs)) := by
      rw [hy']
      exact hg.ends_cons rfl _
    have hnoword : NoWord (g ++ (y ++ zs)) := by
      have hstop : Stop ['*'] (g ++ ('*' :: y' ++ zs)) :=
        stop_cons hg ⟨'*', rfl, rfl, by decide⟩ (by simp)
      rw [hy']
      exact hstop.noWord (by decide)
    have hrest : Apart y zs := (hz.of_append (x := '*' :: t)).of_append
    have hlevel := shape_pointerLevel (t ++ (g ++ (y ++ zs)))
    rw [ht.rounds (fun _ _ _ => hends) hnoword, hskip] at hlevel
    have happ : '*' :: (t ++ (g ++ y)) ++ zs = '*' :: (t ++ (g ++ (y ++ zs))) := by simp
    rw [happ, rounds_of_some rfl hlevel, ih hrest]
    rfl

theorem Stars.spells (h : Stars x ns) :
    (Expr.call .pointer).Spells (fun zs => Apart x zs ∧ NoWord zs ∧ NoStar zs) x
      [.branch .pointer ns] := by
  rintro zs ⟨hz, hword, hstar⟩
  have hbody : Rule.pointer.body = many1 (.call .pointerLevel) := rfl
  have hrounds := h.rounds hz hword hstar
  obtain ⟨y, rfl⟩ := h.exists_cons
  rw [List.cons_append] at hrounds ⊢
  rw [shape_branch rfl, hbody, shape_many1 rfl (shape_pointerLevel _), hrounds]
  rfl

/-! ### What an argument is made of -/

theorem busy_of_next {w : List Char} {c : Char} (hw : ∀ c ∈ w, isIdentChar c = true) (hg : IsGap g)
    (hy : Firm (c :: y)) (hends : g ≠ [] ∨ isIdentChar c = false) (hcomma : c ≠ ',')
    (hangle : c ≠ '>') : Busy (w ++ (g ++ c :: y)) := by
  intro zs
  have hrest : Ends (g ++ (c :: y ++ zs)) := by
    rcases hends with hne | hc
    · exact hg.ends hne _
    · exact hg.ends_cons hc _
  refine ⟨c, y ++ zs, ?_, hcomma, hangle⟩
  rw [show w ++ (g ++ c :: y) ++ zs = w ++ (g ++ (c :: y ++ zs)) by simp, identRest_append hw hrest,
    hg.skipGap_append_firm hy]
  rfl

theorem busy_of_startsIdent {w : List Char} (hw : ∀ c ∈ w, isIdentChar c = true) (hg : IsGap g)
    (hne : g ≠ []) (hy : startsIdent y = true) : Busy (w ++ (g ++ y)) := by
  cases y with
  | nil => simp [startsIdent] at hy
  | cons c y =>
    have hc : isIdentChar c = true := isIdentChar_of_isIdentStart (by simpa [startsIdent] using hy)
    refine busy_of_next hw hg (firm_of_isIdentChar hc) (.inl hne) ?_ ?_ <;>
    · rintro rfl
      simp [isIdentChar, Char.isAlphanum] at hc

theorem Busy.append (h : Busy x) (y : List Char) : Busy (x ++ y) := by
  intro zs
  rw [List.append_assoc]
  exact h (y ++ zs)

abbrev typeStops : List Char := ['*', ',', '>', ')', '(', '[']

structure BaseSpelling (x : List Char) (ns : List Node) : Prop where
  start : startsIdent x = true
  spells : base.Spells (Stop typeStops) x ns
  busy : IsIdent x ∨ Busy x
  neat : Neat x

theorem Rule.abstractDeclarator_body : Rule.abstractDeclarator.body = .choice (.seq (.call .pointer)
    (.choice (.call .abstractBlockDeclarator) (.many (.call .declaratorSuffix))))
    (.choice (.call .abstractBlockDeclarator) (Expr.many1 (.call .declaratorSuffix))) := rfl

theorem Rule.typeArgument_body : Rule.typeArgument.body = .seq Expr.base (.opt (.call .pointer)) :=
  rfl

namespace Expr

theorem shape_abstract_none (hstar : cs.head? ≠ some '*') (hround : cs.head? ≠ some '(')
    (hsquare : cs.head? ≠ some '[') : (Expr.call .abstractDeclarator).shape cs = none := by
  rw [shape_branch rfl, Rule.abstractDeclarator_body, shape_choice, shape_choice, shape_seq,
    shape_pointer_none hstar, shape_call_none rfl rfl hround, many1, shape_seq,
    shape_call_none rfl rfl hsquare]
  rfl

theorem typeName_base (hx : BaseSpelling x ns) :
    (Expr.call .typeName).Spells (fun zs => skipGap zs = []) x [.typeName ns []] := by
  intro zs hz
  have hbody : Rule.typeName.body =
      .seq (.call .specifierQualifierList) (.opt (.call .abstractDeclarator)) := rfl
  have hlist := (hx.spells.branch (r := .specifierQualifierList) rfl) zs (stop_nil hz)
  rw [shape_branch rfl, hbody, shape_seq, hlist, Reading.some_andThen, shape_opt (solid_skipGap _),
    hz, shape_abstract_none (by simp) (by simp) (by simp)]
  rfl

end Expr

theorem Stop.endsPointer {S : List Char} (h : Stop S zs) (hS : ∀ c ∈ S, isIdentChar c = false)
    (hstar : '*' ∉ S) (x : List Char) : Apart x zs ∧ NoWord zs ∧ NoStar zs :=
  ⟨fun _ _ _ => h.ends hS, h.noWord hS, fun hc => hstar (h '*' hc)⟩

theorem Stars.neat (h : Stars x ns) : Neat x := by
  have hlevel : ∀ {t : List Char} {ts : List Node}, Trail t ts → Neat ('*' :: t) := by
    intro t ts ht
    cases ht with
    | none => exact ⟨rfl, '*', rfl, rfl⟩
    | words hg hw => exact (hw.neat.append hg.spot).append (x := ['*']) rfl
  induction h with
  | one ht => exact hlevel ht
  | cons ht hg hy ih => exact (ih.append hg.spot).append (hlevel ht).spot

theorem abstract_pointer (h : Stars x ns) :
    (Expr.call .abstractDeclarator).Spells (fun zs => skipGap zs = []) x
      [.branch .abstractDeclarator [.branch .pointer ns]] := by
  intro zs hz
  have hstop : Stop [] zs := stop_nil hz
  rw [shape_branch rfl, Rule.abstractDeclarator_body, shape_choice, shape_seq,
    h.spells zs (hstop.endsPointer (by simp) (by simp) x), hz, Reading.some_andThen, shape_choice,
    shape_call_none rfl rfl (by simp), shape_many rfl solid_nil,
    rounds_of_none (shape_call_none rfl rfl (by simp))]
  rfl

theorem argument_of_base (hx : BaseSpelling x ns) : ArgumentText x [.branch .typeArgument ns] := by
  refine ⟨firm_of_startsIdent hx.start, fun zs hz => ?_, hx.busy, hx.neat,
    ns, [], by simp, .inl rfl, typeName_base hx⟩
  have hstar : (skipGap zs).head? ≠ some '*' := fun h => by simpa using hz '*' h
  rw [shape_branch rfl, Rule.typeArgument_body, shape_seq, hx.spells zs (hz.mono (by simp)),
    Reading.some_andThen, shape_opt (solid_skipGap _), shape_pointer_none hstar]
  simp

theorem argument_of_pointer {ms : List Node} (hx : BaseSpelling x ns) (hg : IsGap g)
    (hy : Stars y ms) :
    ArgumentText (x ++ (g ++ y)) [.branch .typeArgument (ns ++ [.branch .pointer ms])] := by
  obtain ⟨y', hy'⟩ := hy.exists_cons
  have hstop : ∀ zs, Stop typeStops (g ++ (y ++ zs)) := by
    intro zs
    rw [hy']
    exact stop_cons hg ⟨'*', rfl, rfl, by decide⟩ (by simp)
  refine ⟨(firm_of_startsIdent hx.start).append _, ?_, ?_,
    (hy.neat.append hg.spot).append hx.neat.spot, ns, [.branch .pointer ms], rfl, .inr ⟨ms,
      rfl⟩, ?_⟩
  · have hpointer := hy.spells.mono fun zs (hz : Stop [',', '>'] zs) =>
      hz.endsPointer (by decide) (by decide) y
    exact (hx.spells.seq hg hy.firm (hpointer.opt hy.firm) fun zs _ => hstop zs).branch rfl
  · rcases hx.busy with hident | hbusy
    · subst hy'
      exact .inr (busy_of_next hident.chars hg hy.firm (.inr rfl) (by decide) (by decide))
    · exact .inr (hbusy.append _)
  · have hbase := hx.spells.branch (r := .specifierQualifierList) rfl
    exact (hbase.seq hg hy.firm ((abstract_pointer hy).opt hy.firm) fun zs _ => hstop zs).branch rfl

end HeaderBridge.Grammar
