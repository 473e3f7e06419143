import HeaderBridge.Proofs.Grammar.Pieces

/-! # Type specifiers

What a type specifier reads depends on its own text and on little of what comes
after it: whether an identifier, a scalar or a list of words goes on. Before any
text that goes on with no more, the same text is read again in the same way.
-/

namespace HeaderBridge.Grammar

open HeaderBridge.Grammar.Expr (skipGap)

variable {cs zs x g i : List Char} {ns : List Node}

/-! ### What may follow -/

/-- The next token is not a word that may stand around a type. -/
def NoWord (zs : List Char) : Prop := prefixRule? (.ofList (identRun (skipGap zs))) = none

/-- The next token begins with one of the given characters, or there is none. -/
def Stop (S : List Char) (zs : List Char) : Prop := ∀ c ∈ (skipGap zs).head?, c ∈ S

/-- The second text goes on with nothing that the first does not go on with. -/
structure NoMore (r zs : List Char) : Prop where
  ends : Ends r → Ends zs
  scalar : scalarRound? r = none → scalarRound? zs = none
  word : NoWord r → NoWord zs
  ident : startsIdent (skipGap r) = false → startsIdent (skipGap zs) = false

def NoAngle (zs : List Char) : Prop := (skipGap zs).head? ≠ some '<'

theorem Stop.mono {S T : List Char} (h : Stop S zs) (hST : ∀ c ∈ S, c ∈ T) : Stop T zs :=
  fun c hc => hST c (h c hc)

theorem stop_cons {S : List Char} {c : Char} (hg : IsGap g) (hc : Firm [c]) (hS : c ∈ S) :
    Stop S (g ++ c :: zs) := by
  rw [Stop, show c :: zs = [c] ++ zs from rfl, hg.skipGap_append_firm hc]
  simpa using hS

theorem stop_nil {S : List Char} (hg : skipGap g = []) : Stop S g := by
  simp [Stop, hg]

theorem isGap_of_isSpaceOrTab {b : List Char} (hb : ∀ c ∈ b, isSpaceOrTab c = true) : IsGap b := by
  induction b with
  | nil => exact IsGap.nil
  | cons c b ih =>
    have hc : isGapBlank c = true := by
      have := hb c (by simp)
      simp only [isSpaceOrTab, Bool.or_eq_true, beq_iff_eq] at this
      rcases this with rfl | rfl <;> rfl
    intro ws
    rw [List.cons_append, skipGap_of_step (gapStep?_blank hc)]
    exact ih (fun c hc => hb c (List.mem_cons_of_mem _ hc)) ws

theorem scalarRound?_eq_some {zs' : List Char} (h : scalarRound? zs = some zs') :
    ∃ b, zs = b ++ skipGap zs ∧ (∀ c ∈ b, isSpaceOrTab c = true) ∧ b ≠ [] ∧
      String.ofList (identRun (skipGap zs)) ∈ Rule.primitiveWord.spellings := by
  simp only [scalarRound?, Option.ite_none_right_eq_some, Option.some.injEq] at h
  obtain ⟨⟨hhead, hw⟩, -⟩ := h
  have hfirm := firm_of_identRun_ne_nil (identRun_ne_nil_of_mem (by decide) hw)
  have hskip : skipGap zs = zs.dropWhile isSpaceOrTab := by
    have hgap : IsGap (zs.takeWhile isSpaceOrTab) :=
      isGap_of_isSpaceOrTab fun c hc => List.mem_takeWhile_imp hc
    have h := hgap (zs.dropWhile isSpaceOrTab)
    rwa [List.takeWhile_append_dropWhile, hfirm.solid.skipGap] at h
  rw [hskip]
  refine ⟨zs.takeWhile isSpaceOrTab, List.takeWhile_append_dropWhile.symm,
    fun c hc => List.mem_takeWhile_imp hc, fun hnil => ?_, hw⟩
  cases zs with
  | nil => simp at hhead
  | cons c zs => simp_all

theorem scalarRound?_eq_none
    (h : String.ofList (identRun (skipGap zs)) ∉ Rule.primitiveWord.spellings) :
    scalarRound? zs = none := by
  by_contra hne
  obtain ⟨cs', hround⟩ := Option.ne_none_iff_exists'.mp hne
  obtain ⟨-, -, -, -, hw⟩ := scalarRound?_eq_some hround
  exact h hw

section Stop

variable {S : List Char} (hS : ∀ c ∈ S, isIdentChar c = false) (h : Stop S zs)
include hS h

theorem Stop.identRun_eq_nil : identRun (skipGap zs) = [] := by
  cases hz : skipGap zs with
  | nil => rfl
  | cons c t => simp [identRun, hS c (h c (by simp [hz]))]

theorem Stop.ends : Ends zs := by
  intro c hc
  cases zs with
  | nil => simp at hc
  | cons d zs =>
    obtain rfl : d = c := by simpa using hc
    by_contra hd
    have hsolid := (firm_of_isIdentChar (x := zs) (by simpa using hd)).solid.skipGap
    exact hd (hS d (h d (by simp [hsolid])))

theorem Stop.noWord : NoWord zs := by
  rw [NoWord, h.identRun_eq_nil hS]
  decide

theorem Stop.scalar : scalarRound? zs = none := by
  apply scalarRound?_eq_none
  rw [h.identRun_eq_nil hS]
  decide

theorem Stop.ident : startsIdent (skipGap zs) = false := by
  cases hz : skipGap zs with
  | nil => rfl
  | cons c t =>
    have hc := hS c (h c (by simp [hz]))
    by_contra hs
    rw [isIdentChar_of_isIdentStart (by simpa [startsIdent] using hs)] at hc
    simp at hc

/-- A text that goes on with neither an identifier nor a word goes on with nothing more. -/
theorem Stop.noMore (r : List Char) : NoMore r zs :=
  ⟨fun _ => h.ends hS, fun _ => h.scalar hS, fun _ => h.noWord hS, fun _ => h.ident hS⟩

end Stop

theorem Stop.noAngle {S : List Char} (h : Stop S zs) (hangle : '<' ∉ S) : NoAngle zs :=
  fun hc => hangle (h '<' (by simp [hc]))

/-! ### Words around a type -/

inductive Words : List Char → List Node → Prop where
  | one {w : List Char} {r : Rule} : prefixRule? (.ofList w) = some r → Words w [.token r w]
  | cons {w g y : List Char} {r : Rule} {ns : List Node} : prefixRule? (.ofList w) = some r →
      IsGap g → g ≠ [] → Words y ns → Words (w ++ (g ++ y)) (.token r w :: ns)

theorem prefixRule?_spelling {w : List Char} {r : Rule} (h : prefixRule? (.ofList w) = some r) :
    (∀ c ∈ w, isIdentChar c = true) ∧ startsIdent w = true ∧
      String.ofList w ∉ Rule.primitiveWord.spellings := by
  have hall : ∀ r ∈ [Rule.arcBehaviourSpecifier, .nullabilitySpecifier, .typeQualifier],
      ∀ u ∈ r.spellings, (∀ c ∈ u.toList, isIdentChar c = true) ∧ startsIdent u.toList = true ∧
        u ∉ Rule.primitiveWord.spellings := by decide
  have hmem : String.ofList w ∈ r.spellings := by simpa using List.find?_some h
  simpa using hall r (List.mem_of_find?_eq_some h) _ hmem

theorem Words.firm (h : Words x ns) : Firm x := by
  cases h with
  | one hw => exact firm_of_startsIdent (prefixRule?_spelling hw).2.1
  | cons hw => exact (firm_of_startsIdent (prefixRule?_spelling hw).2.1).append _

open HeaderBridge.Grammar.Expr in
theorem Words.rounds (h : Words x ns) (hz : Ends zs) (hzw : NoWord zs) :
    (Expr.call .typePrefix).rounds (x ++ zs) = (skipGap zs, ns) := by
  induction h with
  | @one w r hw =>
    have hchars := (prefixRule?_spelling hw).1
    have hstop : (Expr.call .typePrefix).shape (skipGap zs) = none := by
      rw [shape_typePrefix, hzw]
      rfl
    have hfirst : (Expr.call .typePrefix).shape (w ++ zs) = some (skipGap zs, [.token r w]) := by
      rw [shape_typePrefix, identRun_append hchars hz, identRest_append hchars hz, hw]
      rfl
    rw [rounds_of_some rfl hfirst, rounds_of_none hstop]
    rfl
  | @cons w g y r ns hw hg hne hy ih =>
    have hchars := (prefixRule?_spelling hw).1
    have hends := hg.ends hne (y ++ zs)
    have hfirst : (Expr.call .typePrefix).shape (w ++ (g ++ (y ++ zs))) =
        some (y ++ zs, [.token r w]) := by
      rw [shape_typePrefix, identRun_append hchars hends, identRest_append hchars hends, hw,
        hg.skipGap_append_firm hy.firm]
      rfl
    rw [List.append_assoc, List.append_assoc, rounds_of_some rfl hfirst, ih]
    rfl

theorem typePrefix_reading_eq_some {cs' : List Char}
    (h : (Expr.call .typePrefix).reading .spaced cs = some (cs', ns)) :
    ∃ r, prefixRule? (.ofList (identRun cs)) = some r ∧ cs' = identRest cs ∧
      ns = [.token r (identRun cs)] := by
  rw [Expr.reading_call, Rule.typePrefix_reading] at h
  obtain ⟨r, hr, hy⟩ := Option.map_eq_some_iff.mp h
  obtain ⟨rfl, rfl⟩ := Prod.mk.inj hy
  exact ⟨r, hr, rfl, rfl⟩

theorem skeleton_prefix {w : List Char} {r : Rule} (h : prefixRule? (.ofList w) = some r) :
    (Node.token r w).skeleton = .token r w := by
  have hmem := List.mem_of_find?_eq_some h
  simp only [List.mem_cons, List.not_mem_nil, or_false] at hmem
  rcases hmem with rfl | rfl | rfl <;> rfl

theorem words_of_rounds {cs' : List Char} {ms : List Node}
    (h : Expr.Rounds (.call .typePrefix) cs cs' ms) (hcs : Ends cs) :
    Ends cs' ∧ NoWord cs' ∧ (cs = cs' ∧ ms = [] ∨
      ∃ g y, cs = g ++ (y ++ cs') ∧ IsGap g ∧ g ≠ [] ∧ Words y (ms.map Node.skeleton)) := by
  induction h with
  | done h =>
    rw [Expr.reading_call, Rule.typePrefix_reading, Option.map_eq_none_iff] at h
    exact ⟨hcs, h, .inl ⟨rfl, rfl⟩⟩
  | @more cs c₁ cs' ns₁ ms h _ ih =>
    obtain ⟨r, hr, rfl, rfl⟩ := typePrefix_reading_eq_some h
    obtain ⟨hchars, hstart, -⟩ := prefixRule?_spelling hr
    have hrun := identRun_append_identRest (skipGap cs)
    have hne : identRun (skipGap cs) ≠ [] := (firm_of_startsIdent hstart).ne_nil
    have hskip : skipGap cs ≠ [] := by
      intro he
      simp [he, identRun] at hne
    obtain ⟨g, hg, hgap⟩ := exists_gap_append rfl hskip
    have hgne : g ≠ [] := by
      rintro rfl
      rw [List.nil_append] at hg
      rw [← hg] at hne
      obtain ⟨c, w, hcw⟩ := List.exists_cons_of_ne_nil hne
      have hc : c ∈ cs.head? := by
        rw [← identRun_append_identRest cs, hcw]
        rfl
      have := hchars c (by rw [← hg, hcw]; simp)
      rw [hcs c hc] at this
      simp at this
    obtain ⟨hends, hno, hcase⟩ := ih (ends_identRest _)
    refine ⟨hends, hno, .inr ?_⟩
    rcases hcase with ⟨rfl, rfl⟩ | ⟨h, y, hy, hh, hhne, hwords⟩
    · refine ⟨g, identRun (skipGap cs), by rw [hrun]; exact hg, hgap, hgne, ?_⟩
      rw [List.append_nil, List.map_singleton, skeleton_prefix hr]
      exact .one hr
    · refine ⟨g, identRun (skipGap cs) ++ (h ++ y), ?_, hgap, hgne, ?_⟩
      · rw [List.append_assoc, List.append_assoc, ← hy, hrun]
        exact hg
      · rw [List.singleton_append, List.map_cons, skeleton_prefix hr]
        exact .cons hr hh hhne hwords

/-- Words that are read are words up to the place where the reading ends. -/
theorem words_reading {cs' : List Char}
    (h : (Expr.many (.call .typePrefix)).reading .spaced cs = some (cs', ns)) :
    cs' = cs ∧ ns = [] ∧ prefixRule? (.ofList (identRun cs)) = none ∨
      ∃ x, cs = x ++ cs' ∧ Words x (ns.map Node.skeleton) ∧ Ends cs' ∧ NoWord cs' := by
  rcases Expr.reading_many_cases rfl h with ⟨hfirst, rfl, rfl⟩ | ⟨c₁, ns₁, ms, hfirst, hrounds, rfl⟩
  · rw [Expr.reading_call, Rule.typePrefix_reading, Option.map_eq_none_iff] at hfirst
    exact .inl ⟨rfl, rfl, hfirst⟩
  · obtain ⟨r, hr, rfl, rfl⟩ := typePrefix_reading_eq_some hfirst
    obtain ⟨hends, hno, hcase⟩ := words_of_rounds hrounds (ends_identRest cs)
    refine .inr ?_
    rcases hcase with ⟨hrest, rfl⟩ | ⟨g, y, hrest, hg, hne, hwords⟩
    · refine ⟨identRun cs, by rw [← hrest, identRun_append_identRest], ?_, hends, hno⟩
      rw [List.append_nil, List.map_singleton, skeleton_prefix hr]
      exact .one hr
    · refine ⟨identRun cs ++ (g ++ y), ?_, ?_, hends, hno⟩
      · rw [List.append_assoc, List.append_assoc, ← hrest, identRun_append_identRest]
      · rw [List.singleton_append, List.map_cons, skeleton_prefix hr]
        exact .cons hr hg hne hwords

/-! ### Kinds of specifiers -/

structure IsIdent (i : List Char) : Prop where
  start : startsIdent i = true
  chars : ∀ c ∈ i, isIdentChar c = true

theorem IsIdent.firm (h : IsIdent i) : Firm i := firm_of_startsIdent h.start

theorem IsIdent.neat (h : IsIdent i) : Neat i := neat_of_isIdentChar h.chars h.firm.ne_nil

theorem startsIdent_append (h : startsIdent x = true) (zs : List Char) :
    startsIdent (x ++ zs) = true := by
  cases x with
  | nil => simp [startsIdent] at h
  | cons c x => simpa [startsIdent] using h

theorem isIdent_identRun (h : startsIdent cs = true) : IsIdent (identRun cs) := by
  refine ⟨?_, fun c hc => isIdentChar_of_mem_identRun hc⟩
  cases cs with
  | nil => simp [startsIdent] at h
  | cons c cs =>
    have hc : isIdentStart c = true := by simpa [startsIdent] using h
    simp [identRun, isIdentChar_of_isIdentStart hc, startsIdent, hc]

theorem scalarStarts_spelling {w : List Char} (h : String.ofList w ∈ scalarStarts) :
    (∀ c ∈ w, isIdentChar c = true) ∧ startsIdent w = true := by
  have hall : ∀ u ∈ scalarStarts, (∀ c ∈ u.toList, isIdentChar c = true) ∧
      startsIdent u.toList = true := by decide
  simpa using hall _ h

theorem tagKeyword_spelling {w : List Char} (h : String.ofList w ∈ Rule.tagKeyword.spellings) :
    (∀ c ∈ w, isIdentChar c = true) ∧ startsIdent w = true ∧ String.ofList w ∉ scalarStarts := by
  have hall : ∀ u ∈ Rule.tagKeyword.spellings, (∀ c ∈ u.toList, isIdentChar c = true) ∧
      startsIdent u.toList = true ∧ u ∉ scalarStarts := by decide
  simpa using hall _ h

theorem Rule.genericsSpecifier_body : Rule.genericsSpecifier.body =
    .seq (.seq (.seq (.literal ['<']) (.call .typeArgument))
      (.many (.seq (.literal [',']) (.call .typeArgument)))) (.literal ['>']) := rfl

theorem Rule.typeSpecifier_body : Rule.typeSpecifier.body =
    .choice (.call .primitiveType) (.choice (.call .taggedTypeSpecifier)
      (.choice (.call .genericTypeSpecifier) (.call .identifier))) := rfl

namespace Expr

theorem identifier_spells (h : IsIdent i) :
    (Expr.call .identifier).Spells Ends i [.token .identifier i] := by
  intro zs hz
  rw [shape_identifier, if_pos (startsIdent_append h.start zs), identRun_append h.chars hz,
    identRest_append h.chars hz]

theorem shape_primitiveType_none (h : String.ofList (identRun cs) ∉ scalarStarts) :
    (Expr.call .primitiveType).shape cs = none := by
  rw [shape_eq_none, reading_call, Rule.primitiveType_reading, if_neg h]

def angles : Expr := .choice (enclosed '<' '>' (.call .protocolList)) (.call .genericsSpecifier)

theorem shape_generics : (Expr.call .genericsSpecifier).shape cs =
    ((enclosed '<' '>' (sepBy (.call .typeArgument))).shape cs).map
      fun y => (y.1, [.branch .genericsSpecifier y.2]) := by
  rw [shape_branch rfl, Rule.genericsSpecifier_body, enclosed, sepBy, shape_seq, shape_seq_assoc,
    ← shape_seq]

theorem shape_angles_none (h : cs.head? ≠ some '<') : angles.shape cs = none := by
  rw [angles, shape_choice, shape_none_of_opening rfl h, shape_call_none rfl rfl h]
  rfl

theorem shape_typeSpecifier : (Expr.call .typeSpecifier).shape cs =
    (((Expr.call .primitiveType).shape cs).or (((Expr.call .taggedTypeSpecifier).shape cs).or
      (((Expr.call .genericTypeSpecifier).shape cs).or ((Expr.call .identifier).shape cs)))).map
        fun y => (y.1, [.branch .typeSpecifier y.2]) := by
  rw [shape_branch rfl, Rule.typeSpecifier_body, shape_choice, shape_choice, shape_choice]

theorem shape_tagged : (Expr.call .taggedTypeSpecifier).shape cs =
    ((Expr.seq (.call .tagKeyword) (.call .identifier)).shape cs).map
      fun y => (y.1, [.branch .taggedTypeSpecifier y.2]) :=
  shape_branch rfl

theorem shape_tagged_none (h : String.ofList (identRun cs) ∈ Rule.tagKeyword.spellings →
    startsIdent (skipGap (identRest cs)) = false) :
    (Expr.call .taggedTypeSpecifier).shape cs = none := by
  rw [shape_tagged, shape_seq, shape_keyword rfl]
  split
  · rw [Reading.some_andThen, shape_identifier, h ‹_›]
    rfl
  · rfl

theorem shape_generic : (Expr.call .genericTypeSpecifier).shape cs =
    ((Expr.seq (.call .identifier) angles).shape cs).map
      fun y => (y.1, [.branch .genericTypeSpecifier y.2]) :=
  shape_branch rfl

theorem scalar_spells {w : List Char} (hw : String.ofList w ∈ scalarStarts) (hx : ScalarTail x) :
    (Expr.call .typeSpecifier).Spells (fun zs => Ends zs ∧ scalarRound? zs = none) (w ++ x)
      [.branch .typeSpecifier [.token .primitiveType (w ++ x)]] := by
  rintro zs ⟨hz, hnone⟩
  have hchars := (scalarStarts_spelling hw).1
  have hends := hx.ends_append hz
  have hread : (Expr.call .primitiveType).reading .spaced (w ++ x ++ zs) =
      some (zs, [.token .primitiveType (w ++ x)]) := by
    rw [reading_call, Rule.primitiveType_reading]
    have hrun : identRun (w ++ x ++ zs) = w := by
      rw [List.append_assoc, identRun_append hchars hends]
    have hrest : identRest (w ++ x ++ zs) = x ++ zs := by
      rw [List.append_assoc, identRest_append hchars hends]
    rw [hrun, hrest, if_pos hw, hx.scalarRest_append hz hnone, Reading.named_some]
  rw [shape_typeSpecifier, shape_of_reading hread]
  rfl

theorem tagged_spells {k : List Char} (hk : String.ofList k ∈ Rule.tagKeyword.spellings)
    (hg : IsGap g) (hne : g ≠ []) (hi : IsIdent i) :
    (Expr.call .typeSpecifier).Spells Ends (k ++ (g ++ i)) [.branch .typeSpecifier
      [.branch .taggedTypeSpecifier [.token .tagKeyword k, .token .identifier i]]] := by
  intro zs hz
  obtain ⟨hchars, -, hscalar⟩ := tagKeyword_spelling hk
  have hends := hg.ends hne (i ++ zs)
  have happ : k ++ (g ++ i) ++ zs = k ++ (g ++ (i ++ zs)) := by simp
  have hrun := identRun_append hchars hends
  have hkeyword : (Expr.call .tagKeyword).shape (k ++ (g ++ (i ++ zs))) =
      some (i ++ zs, [.token .tagKeyword k]) := by
    rw [shape_keyword rfl, hrun, if_pos hk, identRest_append hchars hends,
      hg.skipGap_append_firm hi.firm]
  rw [happ, shape_typeSpecifier, shape_primitiveType_none (by rwa [hrun]), shape_tagged, shape_seq,
    hkeyword, Reading.some_andThen, identifier_spells hi zs hz]
  rfl

theorem generic_spells {a : List Char} (hi : IsIdent i) (hscalar : String.ofList i ∉ scalarStarts)
    (hg : IsGap g) (ha : angles.Spells (fun _ => True) ('<' :: a) ns) :
    (Expr.call .typeSpecifier).Spells (fun _ => True) (i ++ (g ++ '<' :: a)) [.branch .typeSpecifier
      [.branch .genericTypeSpecifier (.token .identifier i :: ns)]] := by
  intro zs hz
  have hangle : Firm ('<' :: a) := ⟨'<', rfl, rfl, by decide⟩
  have happ : i ++ (g ++ '<' :: a) ++ zs = i ++ (g ++ ('<' :: a ++ zs)) := by simp
  have hends : Ends (g ++ ('<' :: a ++ zs)) := hg.ends_cons rfl _
  have hskip := hg.skipGap_append_firm hangle zs
  have htag : (Expr.call .taggedTypeSpecifier).shape (i ++ (g ++ ('<' :: a ++ zs))) = none := by
    apply shape_tagged_none
    intro _
    rw [identRest_append hi.chars hends, hskip]
    rfl
  rw [happ, shape_typeSpecifier, shape_primitiveType_none (by rwa [identRun_append hi.chars hends]),
    htag, shape_generic, shape_seq, identifier_spells hi _ hends, hskip, Reading.some_andThen,
    ha zs trivial]
  rfl

theorem name_spells (hi : IsIdent i) (hscalar : String.ofList i ∉ scalarStarts) :
    (Expr.call .typeSpecifier).Spells
      (fun zs => Ends zs ∧ NoAngle zs ∧ (String.ofList i ∈ Rule.tagKeyword.spellings →
        startsIdent (skipGap zs) = false)) i
      [.branch .typeSpecifier [.token .identifier i]] := by
  rintro zs ⟨hends, hangle, htag⟩
  have hrun := identRun_append hi.chars hends
  have hrest := identRest_append hi.chars hends
  rw [shape_typeSpecifier, shape_primitiveType_none (by rwa [hrun]),
    shape_tagged_none (by rwa [hrun, hrest]), shape_generic, shape_seq,
    identifier_spells hi _ hends, Reading.some_andThen, shape_angles_none hangle]
  rfl

end Expr

/-! ### What stands between angle brackets -/

/-- The identifier at the start of the text is followed by neither a comma nor a closing bracket. -/
def Busy (x : List Char) : Prop :=
  ∀ zs, ∃ c t, skipGap (identRest (x ++ zs)) = c :: t ∧ c ≠ ',' ∧ c ≠ '>'

structure ProtocolText (x : List Char) (ns : List Node) : Prop where
  ident : IsIdent x
  nodes : ns = [.mk .protocolName 0 (.ofList x) [.token .identifier x]]

def Node.typeName (base declarator : List Node) : Node :=
  .branch .typeName (.branch .specifierQualifierList base ::
    if declarator.isEmpty then [] else [.branch .abstractDeclarator declarator])

/-- A type argument: one word, or something that cannot be taken for the name of a protocol. At
the end of a text it is a complete type name. -/
structure ArgumentText (x : List Char) (ns : List Node) : Prop where
  firm : Firm x
  spells : (Expr.call .typeArgument).Spells (Stop [',', '>']) x ns
  busy : IsIdent x ∨ Busy x
  neat : Neat x
  whole : ∃ base declarator, ns = [.branch .typeArgument (base ++ declarator)] ∧
    (declarator = [] ∨ ∃ ms, declarator = [.branch .pointer ms]) ∧
    (Expr.call .typeName).Spells (fun zs => skipGap zs = []) x [.typeName base declarator]

namespace Expr

theorem shape_protocolName : (Expr.call .protocolName).shape cs =
    if startsIdent cs then some (skipGap (identRest cs),
      [.mk .protocolName 0 (.ofList (identRun cs)) [.token .identifier (identRun cs)]])
    else none := by
  have hbody : Rule.protocolName.body = .call .identifier := rfl
  rw [shape, reading_call, Rule.reading_branch rfl, hbody, reading_call, Rule.identifier_reading]
  by_cases h : startsIdent cs = true
  · have hnamed := Reading.named_some .protocolName (identRun cs) (identRest cs)
      [.token .identifier (identRun cs)]
    rw [identRun_append_identRest] at hnamed
    rw [if_pos h, if_pos h, hnamed]
    simp [Node.skeleton_mk, Rule.isPlain, Rule.kind]
  · simp [h, Reading.named]

theorem protocolName_spells (h : ProtocolText x ns) :
    (Expr.call .protocolName).Spells Ends x ns := by
  intro zs hz
  rw [shape_protocolName, if_pos (startsIdent_append h.ident.start zs),
    identRun_append h.ident.chars hz, identRest_append h.ident.chars hz, h.nodes]

theorem protocols_spell {xs : List (List Char)} {h r : List Char}
    (hx : Separated (fun _ => ProtocolText) r xs x ns) (hg : IsGap g) (hh : IsGap h) :
    (enclosed '<' '>' (.call .protocolList)).Spells (fun _ => True)
      ('<' :: (g ++ (x ++ (h ++ ['>'])))) [.branch .protocolList ns] := by
  have hfirm := hx.firm fun _ _ _ hx => hx.ident.firm
  have hlist := hx.spells (F := fun _ => Ends)
    (fun _ x ns hx => ⟨hx.ident.firm, protocolName_spells hx⟩) fun g y r zs hg _ =>
      hg.ends_cons rfl _
  refine Spells.enclosed (hlist.branch rfl) ⟨'>', rfl, rfl, by decide⟩ hg hfirm hh fun zs => ?_
  refine ⟨hh.ends_cons rfl zs, fun ds hds => ?_⟩
  rw [hh.skipGap_append_cons rfl (by decide)] at hds
  simp at hds

theorem angles_protocols {xs : List (List Char)} {h r : List Char}
    (hx : Separated (fun _ => ProtocolText) r xs x ns) (hg : IsGap g) (hh : IsGap h) :
    angles.Spells (fun _ => True) ('<' :: (g ++ (x ++ (h ++ ['>']))))
    [.branch .protocolList ns] := by
  intro zs hz
  rw [angles, shape_choice, protocols_spell hx hg hh zs hz]
  rfl

theorem shape_protocols_busy (hx : Busy x) (zs : List Char) :
    ((sepBy (.call .protocolName)).shape (x ++ zs)).andThen (literal ['>']).shape = none := by
  obtain ⟨c, t, hskip, hcomma, hangle⟩ := hx zs
  cases hname : (Expr.call .protocolName).shape (x ++ zs) with
  | none => rw [shape_sepBy_none hname, Reading.none_andThen]
  | some y =>
    obtain ⟨cs', ns⟩ := y
    have hrest : cs' = c :: t := by
      rw [shape_protocolName, hskip, Option.ite_none_right_eq_some, Option.some.injEq,
        Prod.mk.injEq] at hname
      exact hname.2.1.symm
    subst hrest
    rw [shape_sepBy_last hname fun ds hds => absurd (List.cons.inj hds).1 hcomma,
      Reading.some_andThen, shape_singleton, if_neg hangle]
    rfl

/-- A list with an element that is not one word is no list of protocols. -/
theorem shape_protocols_none {xs : List (List Char)} {r : List Char}
    (hx : Separated (fun _ => ArgumentText) r xs x ns) (hbusy : ∃ y ∈ xs, ¬ IsIdent y)
    (zs : List Char) :
    ((sepBy (.call .protocolName)).shape (x ++ zs)).andThen (literal ['>']).shape = none := by
  induction hx generalizing zs with
  | @one x ns hx =>
    obtain ⟨y, hy, hnot⟩ := hbusy
    obtain rfl : y = x := by simpa using hy
    exact shape_protocols_busy (hx.busy.resolve_left hnot) zs
  | @cons x g h y xs ns ms hx hg hh hy ih =>
    rcases hx.busy with hident | hbusy'
    · have hrest : ∃ y ∈ xs, ¬ IsIdent y := by
        obtain ⟨z, hz, hnot⟩ := hbusy
        rcases List.mem_cons.mp hz with rfl | hz
        · exact absurd hident hnot
        · exact ⟨z, hz, hnot⟩
      have hname := protocolName_spells ⟨hident, rfl⟩ (g ++ ',' :: (h ++ (y ++ zs)))
        (hg.ends_cons rfl _)
      rw [hg.skipGap_append_cons rfl (by decide)] at hname
      rw [show x ++ (g ++ ',' :: (h ++ y)) ++ zs = x ++ (g ++ ',' :: (h ++ (y ++ zs))) by simp]
      refine shape_sepBy_andThen_none hname (by rw [shape_singleton]; rfl) ?_
      rw [hh.skipGap_append_firm (hy.firm fun _ _ _ hx => hx.firm)]
      exact ih hrest zs
    · rw [List.append_assoc]
      exact shape_protocols_busy hbusy' _

theorem arguments_spell {xs : List (List Char)} {h r : List Char}
    (hx : Separated (fun _ => ArgumentText) r xs x ns) (hbusy : ∃ y ∈ xs, ¬ IsIdent y)
    (hg : IsGap g) (hh : IsGap h) :
    angles.Spells (fun _ => True) ('<' :: (g ++ (x ++ (h ++ ['>']))))
    [.branch .genericsSpecifier ns] := by
  intro zs hz
  have hfirm := hx.firm fun _ _ _ hx => hx.firm
  have hlist := hx.spells (F := fun _ => Stop [',', '>']) (fun _ x ns hx => ⟨hx.firm, hx.spells⟩)
    fun g y r zs hg _ => stop_cons hg ⟨',', rfl, rfl, by decide⟩ (by simp)
  have harguments := hlist.enclosed (o := '<') (c := '>') (G := fun _ => True)
    ⟨'>', rfl, rfl, by decide⟩ hg hfirm hh fun zs => by
      refine ⟨stop_cons hh ⟨'>', rfl, rfl, by decide⟩ (by simp), fun ds hds => ?_⟩
      rw [hh.skipGap_append_cons rfl (by decide)] at hds
      simp at hds
  have hprotocols : (enclosed '<' '>' (.call .protocolList)).shape
      ('<' :: (g ++ (x ++ (h ++ ['>']))) ++ zs) = none := by
    have happ : '<' :: (g ++ (x ++ (h ++ ['>']))) ++ zs = '<' ::
        (g ++ (x ++ (h ++ '>' :: zs))) := by
      simp
    have hbody : Rule.protocolList.body = sepBy (.call .protocolName) := rfl
    rw [happ, shape_enclosed, hg.skipGap_append_firm hfirm, shape_branch rfl, hbody]
    have hnone := shape_protocols_none hx hbusy (h ++ '>' :: zs)
    cases hshape : (sepBy (.call .protocolName)).shape (x ++ (h ++ '>' :: zs)) with
    | none => rfl
    | some y =>
      rw [hshape, Reading.some_andThen, Option.map_eq_none_iff] at hnone
      rw [Option.map_some, Reading.some_andThen, hnone, Option.map_none]
  rw [angles, shape_choice, hprotocols, shape_generics, harguments zs hz]
  rfl

end Expr

end HeaderBridge.Grammar
