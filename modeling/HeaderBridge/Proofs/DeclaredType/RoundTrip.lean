import HeaderBridge.Proofs.DeclaredType.Regular
import HeaderBridge.Proofs.Grammar.Joining

/-! # Reading canonical spellings

Each stage of a regular type is spelled by a text that the grammar reads as the
nodes of that stage, and these denote the type again. Hence reading undoes
spelling, as far as the levels of nesting last.
-/

namespace HeaderBridge.DeclaredType

open Grammar Grammar.Expr

variable {t p b : DeclaredType} {ss qs : List String} {x y : List Char} {ns ms : List Node}

/-! ### Lists of types -/

theorem spellings_eq_map (ts : List DeclaredType) : spellings ts = ts.map spelling := by
  induction ts with
  | nil => rfl
  | cons t ts ih => rw [spellings, ih, List.map_cons]

theorem mapM_upTo {f : Node → Option DeclaredType} {node : DeclaredType → Node} {k : Nat}
    {ts : List DeclaredType} (h : ∀ t ∈ ts, f (node t) = upTo k t) :
    (ts.map node).mapM f = if levelsOfAll ts ≤ k then some ts else none := by
  induction ts with
  | nil => rfl
  | cons t ts ih =>
    have hrest := ih fun u hu => h u (List.mem_cons_of_mem t hu)
    rw [List.map_cons, List.mapM_cons, h t List.mem_cons_self, hrest, levelsOfAll, upTo]
    have hmax : max t.levels (levelsOfAll ts) ≤ k ↔ t.levels ≤ k ∧ levelsOfAll ts ≤ k := Nat.max_le
    by_cases ht : t.levels ≤ k
    · by_cases hts : levelsOfAll ts ≤ k <;> simp [hmax, ht, hts]
    · simp [hmax, ht]

theorem separated_intercalate {α : Type} {Q : List Char → List Char → List Node → Prop}
    {P : List Char → Prop} {text : α → List Char} {node : α → Node} {ts : List α} {r : List Char}
    (hP : ∀ ds, P (',' :: ds)) (hr : P r) (hne : ts ≠ [])
    (h : ∀ t ∈ ts, ∀ r, P r → Q r (text t) [node t]) :
    Separated Q r (ts.map text) (List.intercalate [',', ' '] (ts.map text)) (ts.map node) := by
  induction ts with
  | nil => exact absurd rfl hne
  | cons t ts ih =>
    cases ts with
    | nil => simpa using Separated.one (h t (by simp) r hr)
    | cons u ts =>
      have hrest := ih (by simp) fun v hv => h v (List.mem_cons_of_mem t hv)
      have hcons :=
        Separated.cons (g := []) (h := [' ']) (h t (by simp) _ (hP _)) IsGap.nil IsGap.blank
        hrest
      simpa [List.intercalate_cons_cons] using hcons

/-! ### Bases -/

/-- The part of a specifier that the spelling of a base is read as, and what it denotes. -/
structure SpecifierReading (t : DeclaredType) (part : Node) : Prop where
  text : ∀ r, Ends r → scalarRound? r = none →
    SpecifierText r t.spelling.toList [.branch .typeSpecifier [part]]
  word : prefixRule? (.ofList (identRun t.spelling.toList)) = none
  read : ∀ d, readSpecifier (.direct d) (.branch .typeSpecifier [part]) = upTo d t
  last : t.spelling.toList.getLast? ≠ some '*'

/-- The node of an argument that the spelling of a type is read as, and what it denotes. -/
structure ArgumentReading (t : DeclaredType) (node : Node) : Prop where
  text : ArgumentText t.spelling.toList [node]
  rule : node.rule = .typeArgument
  read : ∀ d, readArgument (.direct d) node = upTo d t

theorem getLast?_ne {c : Char} (h : c ∉ x) : x.getLast? ≠ some c :=
  fun hc => h (List.mem_of_getLast? hc)

theorem getLast?_append_ne {c : Char} (hx : x.getLast? ≠ some c) (hy : y.getLast? ≠ some c) :
    (x ++ y).getLast? ≠ some c := by
  rw [List.getLast?_append]
  cases h : y.getLast? with
  | none => exact hx
  | some d => rwa [h] at hy

theorem IsIdent.not_mem {i : List Char} {c : Char} (h : IsIdent i) (hc : isIdentChar c = false) :
    c ∉ i := by
  intro hmem
  rw [h.chars c hmem] at hc
  simp at hc

theorem identRun_self {i : List Char} (h : IsIdent i) : identRun i = i := by
  simpa using identRun_append h.chars Ends.nil

theorem specifierReading_name {n : String} (h : IsTypeName n) :
    SpecifierReading (named n) (.token .identifier n.toList) := by
  obtain ⟨hpre, htag, hscalar⟩ := h.not_mem
  refine ⟨fun r hr _ => ?_, ?_, fun d => ?_, getLast?_ne (IsIdent.not_mem h.1 rfl)⟩
  · change SpecifierText r n.toList _
    refine name_text h.1 (by rwa [String.ofList_toList]) hr fun hmem => ?_
    rw [String.ofList_toList] at hmem
    exact absurd hmem htag
  · change prefixRule? (.ofList (identRun n.toList)) = none
    rw [identRun_self h.1, String.ofList_toList, hpre]
  · have hname : ofName n = named n := by simp [ofName, h.2.2]
    simp [readSpecifier, Node.children, Node.rule, Node.text, hname, upTo, levels]

theorem scalarTail_of_words {ws : List String} (h : ∀ v ∈ ws, v ∈ Rule.primitiveWord.spellings) :
    ScalarTail ((ws.map String.toList).flatMap (' ' :: ·)) := by
  induction ws with
  | nil => exact .nil
  | cons v ws ih =>
    have hv : String.ofList v.toList ∈ Rule.primitiveWord.spellings := by
      rw [String.ofList_toList]
      exact h v List.mem_cons_self
    exact ScalarTail.cons (b := [' ']) (by decide) (by simp) hv
      (ih fun u hu => h u (List.mem_cons_of_mem v hu))

theorem scalarStarts_ident {w : String} (h : w ∈ scalarStarts) :
    IsIdent w.toList ∧ prefixRule? w = none := by
  have hall : ∀ w ∈ scalarStarts, IsIdent w.toList ∧ prefixRule? w = none := by decide
  exact hall w h

theorem specifierReading_scalar {n : String} (h : IsScalar n) (hspelling : t.spelling = n)
    (ht : ofPrimitive n = t) (hlevels : t.levels = 0) :
    SpecifierReading t (.token .primitiveType n.toList) := by
  obtain ⟨w, ws, hw, hws, rfl⟩ := h
  obtain ⟨hident, hpre⟩ := scalarStarts_ident hw
  have htail := scalarTail_of_words hws
  have htext : (" ".intercalate (w :: ws)).toList =
      w.toList ++ (ws.map String.toList).flatMap (' ' :: ·) := by
    rw [String.toList_intercalate, show " ".toList = [' '] from rfl, List.map_cons,
      intercalate_cons]
  refine ⟨fun r hr hround => ?_, ?_, fun d => ?_, ?_⟩
  · rw [hspelling, htext]
    exact scalar_text (by rwa [String.ofList_toList]) htail hr hround
  · have hends := htail.ends_append Ends.nil
    rw [List.append_nil] at hends
    rw [hspelling, htext, identRun_append hident.chars hends, String.ofList_toList, hpre]
  · change some (ofPrimitive (.ofList (" ".intercalate (w :: ws)).toList)) = _
    rw [String.ofList_toList, ht, upTo, hlevels, if_pos (Nat.zero_le d)]
  · rw [hspelling, htext]
    apply getLast?_ne
    simp only [List.mem_append, List.mem_flatMap, List.mem_map, not_or]
    refine ⟨IsIdent.not_mem hident rfl, ?_⟩
    rintro ⟨-, ⟨v, hv, rfl⟩, hmem⟩
    have hv := (scalarStarts_ident (w := v) (by simp [scalarStarts, hws v hv])).1
    simp [IsIdent.not_mem hv (c := '*') rfl] at hmem

theorem ofPrimitive_of_isScalar {n : String} (h : IsScalar n) :
    ofPrimitive n = if n = "void" then void else named n := by
  obtain ⟨w, ws, hw, hws, rfl⟩ := h
  have hident : ∀ v ∈ w :: ws, IsIdent v.toList := by
    intro v hv
    rcases List.mem_cons.mp hv with rfl | hv
    · exact (scalarStarts_ident hw).1
    · exact (scalarStarts_ident (by simp [scalarStarts, hws v hv])).1
  rw [ofPrimitive, words_of_intercalate fun v hv =>
    ⟨(hident v hv).firm.ne_nil, fun c hc => isBlank_of_isIdentChar ((hident v hv).chars c hc)⟩]

theorem isScalar_void : IsScalar "void" := ⟨"void", [], by decide, by simp, rfl⟩

/-! ### Names with angle brackets -/

theorem specifierReading_id : SpecifierReading (object []) (.token .identifier "id".toList) := by
  refine ⟨fun r hr _ => ?_, by decide, fun d => by simp [upTo, levels]; rfl, by decide⟩
  exact name_text (by decide) (by decide) hr fun hmem => absurd hmem (by decide)

def protocolNode (p : String) : Node := .mk .protocolName 0 p [.token .identifier p.toList]

theorem childrenOf_branch {α : Type} {r q : Rule} {f : α → Node} {l : List α}
    (h : ∀ x ∈ l, (f x).rule = q) : (Node.branch r (l.map f)).childrenOf q = l.map f := by
  change (l.map f).filter _ = _
  rw [List.filter_eq_self]
  intro m hm
  obtain ⟨x, hx, rfl⟩ := List.mem_map.mp hm
  simp [h x hx]

section Angles

variable {n : String} (hn : IsGenericName n)
include hn

theorem specifierReading_angles {a : List Char} {m : Node}
    (hspelling : t.spelling.toList = n.toList ++ '<' :: (a ++ ['>']))
    (ha : angles.Spells (fun _ => True) ('<' :: (a ++ ['>'])) [m])
    (hneat : Neat ('<' :: (a ++ ['>']))) (hread : ∀ d, readGeneric (.direct d)
      (.branch .genericTypeSpecifier [.token .identifier n.toList, m]) = upTo d t) :
    SpecifierReading t (.branch .genericTypeSpecifier [.token .identifier n.toList, m]) := by
  refine ⟨fun r _ _ => ?_, ?_, hread, ?_⟩
  · rw [hspelling]
    exact generic_text hn.ident (by rw [String.ofList_toList]; exact hn.scalar) IsGap.nil ha hneat
  · have hends : Ends ('<' :: (a ++ ['>'])) := IsGap.nil.ends_cons rfl _
    rw [hspelling, identRun_append hn.ident.chars hends, String.ofList_toList, hn.word]
  · rw [hspelling, ← List.cons_append, ← List.append_assoc, List.getLast?_concat]
    decide

theorem specifierReading_protocols {ps : List String} (hps : ∀ p ∈ ps, IsIdent p.toList)
    (hne : ps ≠ []) (hspelling : t.spelling = n ++ "<" ++ ", ".intercalate ps ++ ">")
    (ht : (if n = "id" then object ps else generic n (ps.map named)) = t) (hlevels : t.levels = 0) :
    ∃ part, SpecifierReading t part := by
  have hsep : Separated (fun _ => ProtocolText) [] (ps.map String.toList)
      (List.intercalate [',', ' '] (ps.map String.toList)) (ps.map protocolNode) := by
    refine separated_intercalate (P := fun _ => True) (fun _ => trivial) trivial hne
      fun p hp _ _ => ?_
    exact ⟨hps p hp, by rw [protocolNode, String.ofList_toList]⟩
  have hspells := angles_protocols hsep IsGap.nil IsGap.nil
  have hneat := (hsep.neat fun _ _ _ hx => hx.ident.neat).between_angles IsGap.nil IsGap.nil
  refine ⟨_, specifierReading_angles hn
    (a := List.intercalate [',', ' '] (ps.map String.toList))
    (m := .branch .protocolList (ps.map protocolNode)) ?_ (by simpa using hspells)
      (by simpa using hneat)
    fun d => ?_⟩
  · simp [hspelling, String.toList_intercalate]
  · have hnames : (ps.map protocolNode).map Node.text = ps := by
      rw [List.map_map]
      exact List.map_id _
    change some (if String.ofList n.toList = "id" then object _ else generic _ _) = _
    have hname : (Node.token .identifier n.toList).text = n := String.ofList_toList
    rw [String.ofList_toList, childrenOf_branch (q := .protocolName) (f := protocolNode)
      (fun _ _ => rfl), hnames, hname, ht, upTo, hlevels,
      if_pos (Nat.zero_le d)]

theorem specifierReading_arguments {ts : List DeclaredType} (hne : ts ≠ [])
    (hts : ∀ t ∈ ts, ∃ node, ArgumentReading t node)
    (hbusy : ¬ ∀ t ∈ ts, IsIdent t.spelling.toList) :
      ∃ part, SpecifierReading (generic n ts) part := by
  obtain ⟨node, hnode⟩ := Classical.skolem.mp fun t =>
    show ∃ node, t ∈ ts → ArgumentReading t node by
      by_cases ht : t ∈ ts
      · obtain ⟨node, hnode⟩ := hts t ht
        exact ⟨node, fun _ => hnode⟩
      · exact ⟨default, fun h => absurd h ht⟩
  have hsep : Separated (fun _ => ArgumentText) [] (ts.map (·.spelling.toList))
      (List.intercalate [',', ' '] (ts.map (·.spelling.toList))) (ts.map node) :=
    separated_intercalate (P := fun _ => True) (fun _ => trivial) trivial hne
      fun t ht _ _ => (hnode t ht).text
  have hlong : ∃ y ∈ ts.map (·.spelling.toList), ¬ IsIdent y := by
    by_contra hno
    exact hbusy fun t ht => by_contra fun h => hno ⟨_, List.mem_map_of_mem ht, h⟩
  have hspells := arguments_spell hsep hlong IsGap.nil IsGap.nil
  have hneat := (hsep.neat fun _ _ _ hx => hx.neat).between_angles IsGap.nil IsGap.nil
  refine ⟨_, specifierReading_angles hn
    (a := List.intercalate [',', ' '] (ts.map (·.spelling.toList)))
    (m := .branch .genericsSpecifier (ts.map node)) ?_ (by simpa using hspells)
    (by simpa using hneat) fun d => ?_⟩
  · rw [spelling, spellings_eq_map]
    simp [String.toList_intercalate, Function.comp_def]
  · have hlevels : (generic n ts).levels = levelsOfAll ts + 1 := by
      rw [levels, spellings_eq_map, if_neg]
      simpa using hbusy
    change (((Node.branch .genericsSpecifier (ts.map node)).childrenOf .typeArgument).mapM
      (Inner.direct d).argument).bind (fun us => some (generic (.ofList n.toList) us)) = _
    rw [childrenOf_branch fun t ht => (hnode t ht).rule, String.ofList_toList, upTo, hlevels]
    cases d with
    | zero =>
      obtain ⟨t, us, rfl⟩ := List.exists_cons_of_ne_nil hne
      rw [List.map_cons, List.mapM_cons]
      rfl
    | succ k =>
      change (((ts.map node).mapM (readArgument (.direct k))).bind _) = _
      rw [mapM_upTo fun t ht => (hnode t ht).read k]
      by_cases hk : levelsOfAll ts ≤ k <;> simp [hk]

end Angles

/-! ### Words around a base -/

def leadText (ss : List String) : List Char := ss.flatMap (·.toList ++ [' '])

def trailText (qs : List String) : List Char := qs.flatMap (' ' :: ·.toList)

theorem leadText_eq (h : ss ≠ []) : leadText ss = (" ".intercalate ss).toList ++ [' '] := by
  obtain ⟨s, ss, rfl⟩ := List.exists_cons_of_ne_nil h
  rw [String.toList_intercalate, show " ".toList = [' '] from rfl, List.map_cons, intercalate_cons,
    leadText]
  clear h
  induction ss generalizing s with
  | nil => simp
  | cons r ss ih =>
    rw [List.flatMap_cons, ih]
    simp

theorem trailText_eq (h : qs ≠ []) : trailText qs = ' ' :: (" ".intercalate qs).toList := by
  obtain ⟨q, qs, rfl⟩ := List.exists_cons_of_ne_nil h
  rw [String.toList_intercalate, show " ".toList = [' '] from rfl, List.map_cons, intercalate_cons,
    trailText]
  simp [List.flatMap_map]

theorem trailText_append (qs rs : List String) :
    trailText (qs ++ rs) = trailText qs ++ trailText rs :=
  List.flatMap_append

theorem spelling_specify (t : DeclaredType) (ss : List String) :
    (t.specify ss).spelling.toList = leadText ss ++ t.spelling.toList := by
  cases ss with
  | nil => rfl
  | cons s ss =>
    rw [leadText_eq (by simp), specify, spelling]
    · simp
    · simp

theorem spelling_qualified (h : ∀ n r ps, t ≠ block n r ps) (qs : List String) :
    (qualified t qs).spelling = t.spelling ++ " " ++ " ".intercalate qs := by
  cases t with
  | block n r ps => exact absurd rfl (h n r ps)
  | _ => rfl

theorem spelling_qualify (h : ∀ n r ps, t ≠ block n r ps) (qs : List String) :
    (t.qualify qs).spelling.toList = t.spelling.toList ++ trailText qs := by
  cases qs with
  | nil => simp [qualify, trailText]
  | cons q qs =>
    have hqualify : t.qualify (q :: qs) = qualified t (q :: qs) := rfl
    rw [hqualify, spelling_qualified h, trailText_eq (by simp)]
    simp

theorem levels_qualify (t : DeclaredType) (qs : List String) :
    (t.qualify qs).levels = t.levels := by
  cases qs <;> rfl

theorem levels_specify (t : DeclaredType) (ss : List String) :
    (t.specify ss).levels = t.levels := by
  cases ss <;> rfl

theorem levels_wrap (a : Adornment) (t : DeclaredType) : (a.wrap t).levels = t.levels := by
  rw [Adornment.wrap, levels_specify, levels_qualify]

theorem upTo_wrap (a : Adornment) (d : Nat) (t : DeclaredType) :
    (upTo d t).map a.wrap = upTo d (a.wrap t) := by
  rw [upTo, upTo, levels_wrap]
  split <;> rfl

theorem lead_leadText (h : ∀ s ∈ ss, s ∈ frontWords) : Lead (leadText ss) (ss.map wordNode) := by
  have hall : ∀ s ∈ frontWords, (prefixRule? s).isSome = true := by decide
  by_cases hne : ss = []
  · subst hne
    exact .none
  · rw [leadText_eq hne]
    exact .words (words_intercalate hne fun s hs => hall s (h s hs)) IsGap.blank (by simp)

theorem prefixRule?_of_mem {q : String} (h : q ∈ starWords) : (prefixRule? q).isSome = true := by
  have hall : ∀ q ∈ starWords, (prefixRule? q).isSome = true := by decide
  exact hall q h

theorem trail_trailText (h : ∀ q ∈ qs, q ∈ starWords) : Trail (trailText qs) (qs.map wordNode) := by
  by_cases hne : qs = []
  · subst hne
    exact .none
  · rw [trailText_eq hne]
    exact .words IsGap.blank (words_intercalate hne fun q hq => prefixRule?_of_mem (h q hq))

/-- The nodes that a base with words around it is read as, and what they denote: the base, and the
words that apply to the type as a whole. -/
structure BaseReading (x : List Char) (a : Adornment) (b : DeclaredType) (ns : List Node) :
    Prop where
  text : ∀ r, Stop typeStops r → BaseText r x ns
  read : ∀ d rule, readBase (.direct d) (.branch rule ns) = upTo d b
  outer : ∀ rule, outerWords (.branch rule ns) = a
  parts : ∀ m ∈ ns, m.rule ≠ .pointer
  last : x.getLast? ≠ some '*'

section Words

variable {t : DeclaredType} {part : Node} {ss qs ns : List String} (h : SpecifierReading t part)
  (hss : ∀ s ∈ ss, s ∈ frontWords) (hqs : ∀ q ∈ qs, q ∈ baseQualifiers)
  (hns : ∀ n ∈ ns, n ∈ Rule.nullabilitySpecifier.spellings)

include hqs hns in
theorem mem_starWords_of_base : ∀ w ∈ qs ++ ns, w ∈ starWords := by
  intro w hw
  rcases List.mem_append.mp hw with hw | hw
  · exact mem_starWords (List.mem_append_right _ (hqs w hw))
  · exact mem_starWords (List.mem_append_left _ (hns w hw))

include h hss hqs hns

theorem baseText_words {r : List Char} (hr : Stop typeStops r) :
    BaseText r (leadText ss ++ (t.spelling.toList ++ trailText (qs ++ ns)))
      (ss.map wordNode ++ [.branch .typeSpecifier [part]] ++ (qs ++ ns).map wordNode) := by
  have hwords := mem_starWords_of_base hqs hns
  have hends := hr.ends (by decide)
  have htext : SpecifierText (trailText (qs ++ ns) ++ r) t.spelling.toList
      [.branch .typeSpecifier [part]] := by
    by_cases hne : qs ++ ns = []
    · rw [hne]
      exact h.text r hends (hr.scalar (by decide))
    · -- the first word behind the base is none of a scalar
      have hw := words_intercalate hne fun w hw => prefixRule?_of_mem (hwords w hw)
      have hround : scalarRound? ([' '] ++ ((" ".intercalate (qs ++ ns)).toList ++ r)) = none := by
        obtain ⟨p, hp⟩ := hw.identRun_append hends
        apply scalarRound?_eq_none
        rw [IsGap.blank.skipGap_append_firm hw.firm]
        exact (prefixRule?_spelling hp).2.2
      rw [trailText_eq hne]
      exact h.text _ (IsGap.blank.ends (by simp) _) hround
  have hparts : BaseParts (leadText ss) t.spelling.toList (trailText (qs ++ ns)) r r _ _ _ :=
    ⟨lead_leadText hss, htext, trail_trailText hwords, .inl rfl, fun _ _ _ => hends,
      hr.noWord (by decide), h.word⟩
  exact hparts.text

/-- A base with words around it. -/
theorem baseReading : BaseReading (leadText ss ++ (t.spelling.toList ++ trailText (qs ++ ns)))
    ⟨ss, ns⟩
    (t.qualify qs)
    (ss.map wordNode ++ [.branch .typeSpecifier [part]] ++ (qs ++ ns).map wordNode) := by
  have hfront : ∀ s ∈ frontWords,
      isSpecifier (wordNode s) = true ∧ isBaseQualifier (wordNode s) = false ∧
      (wordNode s).rule ≠ .nullabilitySpecifier ∧ (wordNode s).rule ≠ .typeSpecifier ∧
      (wordNode s).rule ≠ .pointer := by decide
  have hbase : ∀ q ∈ baseQualifiers,
      isSpecifier (wordNode q) = false ∧ isBaseQualifier (wordNode q) = true ∧
      (wordNode q).rule ≠ .nullabilitySpecifier ∧ (wordNode q).rule ≠ .pointer := by decide
  have hnull : ∀ n ∈ Rule.nullabilitySpecifier.spellings, isSpecifier (wordNode n) = false ∧
      isBaseQualifier (wordNode n) = false ∧ (wordNode n).rule = .nullabilitySpecifier := by decide
  have hfilter : ∀ test : Node → Bool, test (.branch .typeSpecifier [part]) = false →
      textsOf test (ss.map wordNode ++ [.branch .typeSpecifier [part]] ++ (qs ++ ns).map wordNode) =
        ss.filter (test <| wordNode ·) ++
          (qs.filter (test <| wordNode ·) ++ ns.filter (test <| wordNode ·)) := by
    intro test htest
    rw [← List.filter_append, ← textsOf_wordNode, ← textsOf_wordNode]
    simp [textsOf, htest]
  refine ⟨fun r hr => baseText_words h hss hqs hns hr, fun d rule => ?_, fun rule => ?_,
    fun m hm => ?_, ?_⟩
  · have hchild : (Node.branch rule (ss.map wordNode ++ [.branch .typeSpecifier [part]] ++
        (qs ++ ns).map wordNode)).child? .typeSpecifier = some (.branch .typeSpecifier [part]) := by
      rw [Node.child?, Node.children, List.append_assoc, List.find?_append, List.find?_eq_none.mpr]
      · rfl
      · intro m hm
        obtain ⟨s, hs, rfl⟩ := List.mem_map.mp hm
        simp [(hfront s (hss s hs)).2.2.2.1]
    rw [readBase, hchild, Option.bind_eq_bind, Option.bind_some, h.read, Node.children,
      hfilter _ rfl, List.filter_eq_nil_iff.mpr fun s hs => by simp [(hfront s (hss s hs)).2.1],
      List.filter_eq_self.mpr fun q hq => (hbase q (hqs q hq)).2.1,
      List.filter_eq_nil_iff.mpr fun n hn => by simp [(hnull n (hns n hn)).2.1]]
    rw [List.nil_append, List.append_nil, upTo, upTo, levels_qualify]
    split <;> rfl
  · rw [outerWords, Node.children, hfilter _ rfl, hfilter _ rfl,
      List.filter_eq_self.mpr fun s hs => (hfront s (hss s hs)).1,
      List.filter_eq_nil_iff.mpr fun q hq => by simp [(hbase q (hqs q hq)).1],
      List.filter_eq_nil_iff.mpr fun n hn => by simp [(hnull n (hns n hn)).1],
      List.filter_eq_nil_iff.mpr fun s hs => by simp [(hfront s (hss s hs)).2.2.1],
      List.filter_eq_nil_iff.mpr fun q hq => by simp [(hbase q (hqs q hq)).2.2.1],
      List.filter_eq_self.mpr fun n hn => by simp [(hnull n (hns n hn)).2.2]]
    simp
  · simp only [List.mem_append, List.mem_map, List.mem_singleton] at hm
    rcases hm with (⟨s, hs, rfl⟩ | rfl) | ⟨w, hw | hw, rfl⟩
    · exact (hfront s (hss s hs)).2.2.2.2
    · simp [Node.rule]
    · exact (hbase w (hqs w hw)).2.2.2
    · simp [(hnull w (hns w hw)).2.2]
  · have hlead : '*' ∉ leadText ss := by
      have hall : ∀ s ∈ frontWords, '*' ∉ s.toList ++ [' '] := by decide
      intro hmem
      obtain ⟨s, hs, hmem⟩ := List.mem_flatMap.mp hmem
      exact hall s (hss s hs) hmem
    have htrail : '*' ∉ trailText (qs ++ ns) := by
      have hall : ∀ q ∈ starWords, '*' ∉ ' ' :: q.toList := by decide
      intro hmem
      obtain ⟨q, hq, hmem⟩ := List.mem_flatMap.mp hmem
      exact hall q (mem_starWords_of_base hqs hns q hq) hmem
    exact getLast?_append_ne (getLast?_ne hlead) (getLast?_append_ne h.last (getLast?_ne htrail))

end Words

/-! ### Stars -/

/-- What the spelling of a pointer type with words in front is read as: the nodes of its base and of
its stars. -/
structure PointerReading (ss : List String) (t b : DeclaredType) (ns ms : List Node) : Prop where
  base : BaseReading (leadText ss ++ b.spelling.toList) ⟨ss, []⟩ b ns
  text : ms = [] ∧ t.spelling = b.spelling ∨
    ∃ y, t.spelling.toList = b.spelling.toList ++ ([' '] ++ y) ∧ Stars y ms
  type : t = ms.foldl addPointerLevel b
  levels : t.levels = b.levels

theorem pointerReading_base (h : BaseReading (leadText ss ++ b.spelling.toList) ⟨ss, []⟩ b ns) :
    PointerReading ss b b ns [] :=
  ⟨h, .inl ⟨rfl, rfl⟩, rfl, rfl⟩

theorem addPointerLevel_words (h : ∀ q ∈ qs, q ∈ starWords) (t : DeclaredType) :
    addPointerLevel t (.branch .pointerLevel (qs.map wordNode)) = (pointer t).qualify qs := by
  have hall : ∀ q ∈ starWords, isSpecifier (wordNode q) = false := by decide
  have hspecifiers : textsOf isSpecifier (qs.map wordNode) = [] := by
    rw [textsOf_wordNode, List.filter_eq_nil_iff]
    exact fun q hq => by simp [hall q (h q hq)]
  have hqualifiers : textsOf (!isSpecifier ·) (qs.map wordNode) = qs := by
    rw [textsOf_wordNode, List.filter_eq_self]
    exact fun q hq => by simp [hall q (h q hq)]
  change ((pointer t).qualify (textsOf (!isSpecifier ·) (qs.map wordNode))).specify
    (textsOf isSpecifier (qs.map wordNode)) = _
  rw [hspecifiers, hqualifiers]
  rfl

theorem pointerReading_star (h : PointerReading ss t b ns ms) (hqs : ∀ q ∈ qs, q ∈ starWords) :
    PointerReading ss ((pointer t).qualify qs) b ns
      (ms ++ [.branch .pointerLevel (qs.map wordNode)]) := by
  have htrail := trail_trailText hqs
  refine ⟨h.base, .inr ?_, ?_, ?_⟩
  · rw [spelling_qualify (by simp), spelling]
    rcases h.text with ⟨rfl, htext⟩ | ⟨y, htext, hstars⟩
    · have hlast : b.spelling.toList.getLast? ≠ some '*' := by
        intro hlast
        apply h.base.last
        rw [List.getLast?_append, hlast]
        rfl
      refine ⟨'*' :: trailText qs, ?_, .one htrail⟩
      rw [htext, starred, if_neg hlast]
      simp
    · by_cases hlast : t.spelling.toList.getLast? = some '*'
      · refine ⟨_, ?_, hstars.snoc IsGap.nil htrail⟩
        rw [starred, if_pos hlast]
        simp [htext]
      · refine ⟨_, ?_, hstars.snoc IsGap.blank htrail⟩
        rw [starred, if_neg hlast]
        simp [htext]
  · rw [List.foldl_append, ← h.type]
    exact (addPointerLevel_words hqs t).symm
  · rw [levels_qualify, DeclaredType.levels, h.levels]

theorem addPointer_stars (h : Stars y ms) (b : DeclaredType) :
    addPointer b (.branch .pointer ms) = ms.foldl addPointerLevel b := by
  have hlevels := childrenOf_branch (r := .pointer) (f := id) (l := ms) h.rule
  rw [List.map_id] at hlevels
  rw [addPointer, hlevels]

def starNodes (ms : List Node) : List Node := if ms = [] then [] else [.branch .pointer ms]

theorem BaseReading.bind_read {a : Adornment} (h : BaseReading x a b ns) (d : Nat)
    (add : DeclaredType → Option DeclaredType) :
    (readBase (.direct d) (.branch .specifierQualifierList ns)).bind (fun b => (add b).bind fun t =>
      some ((outerWords (.branch .specifierQualifierList ns)).wrap t)) =
      ((upTo d b).bind add).map a.wrap := by
  rw [h.read, h.outer, Option.map_bind]
  congr 1
  funext b
  exact (Option.map_eq_bind ..).symm

theorem readTypeName_base {a : Adornment} (h : BaseReading x a b ns) (d : Nat) (ds : List Node) :
    readTypeName (.direct d) (.typeName ns ds) =
      ((upTo d b).bind fun b => ds.foldlM (addAbstractPart (.direct d)) b).map a.wrap := by
  cases ds with
  | nil => exact h.bind_read d some
  | cons m ds => exact h.bind_read d _

theorem PointerReading.foldlM (h : PointerReading ss t b ns ms) (d : Nat) (es : List Node) :
    ((upTo d b).bind fun b => (starNodes ms ++ es).foldlM (addAbstractPart (.direct d)) b) =
      (upTo d t).bind fun t => es.foldlM (addAbstractPart (.direct d)) t := by
  have hstep : (starNodes ms).foldlM (addAbstractPart (.direct d)) b = some t := by
    rcases h.text with ⟨rfl, -⟩ | ⟨y, -, hstars⟩
    · exact congrArg some h.type.symm
    · have hne : ms ≠ [] := by cases hstars <;> simp
      rw [starNodes, if_neg hne, List.foldlM_cons, h.type, ← addPointer_stars hstars]
      rfl
  rw [upTo, upTo, h.levels]
  by_cases hd : b.levels ≤ d
  · simp [hd, List.foldlM_append, hstep]
  · simp [hd]

theorem argumentReading_base {a : Adornment} (h : BaseReading x a b ns)
    (hx : (a.wrap b).spelling.toList = x) : ∃ node, ArgumentReading (a.wrap b) node := by
  have hbase := (h.text [] (stop_nil skipGap_nil)).spelling
  have hread : ∀ d, readArgument (.direct d) (.branch .typeArgument ns) = upTo d (a.wrap b) := by
    intro d
    have hname := readTypeName_base h d []
    rw [readTypeName_eq_readArgument _ h.parts (.inl rfl), List.append_nil] at hname
    rw [hname, ← upTo_wrap]
    congr 1
    exact Option.bind_fun_some _
  exact ⟨_, by rw [hx]; exact argument_of_base hbase, rfl, hread⟩

theorem argumentReading_pointer (h : PointerReading ss t b ns ms) :
    ∃ node, ArgumentReading (t.specify ss) node := by
  rcases h.text with ⟨rfl, -⟩ | ⟨y, htext, hstars⟩
  · obtain rfl : t = b := h.type
    exact argumentReading_base h.base (spelling_specify t ss)
  · have hbase := (h.base.text [] (stop_nil skipGap_nil)).spelling
    have hne : ms ≠ [] := by cases hstars <;> simp
    have hfold : ∀ d, ((upTo d b).bind fun b =>
        [Node.branch .pointer ms].foldlM (addAbstractPart (.direct d)) b) = upTo d t := by
      intro d
      have hfold := h.foldlM d []
      rw [starNodes, if_neg hne, List.append_nil] at hfold
      exact hfold.trans (Option.bind_fun_some _)
    have hread :
        ∀ d, readArgument (.direct d) (.branch .typeArgument (ns ++ [.branch .pointer ms])) =
        upTo d (t.specify ss) := by
      intro d
      rw [← readTypeName_eq_readArgument _ h.base.parts (.inr ⟨ms, rfl⟩), readTypeName_base h.base,
        hfold]
      exact upTo_wrap ⟨ss, []⟩ d t
    refine ⟨_, ?_, rfl, hread⟩
    rw [spelling_specify, htext, ← List.append_assoc]
    exact argument_of_pointer hbase IsGap.blank hstars

/-! ### Arrays -/

def arraysText (ls : List String) : List Char := ls.flatMap fun l => '[' :: (l.toList ++ [']'])

theorem suffixText_length {l : String} (hl : IsLength l) (r : List Char) :
    SuffixText r ('[' :: (l.toList ++ [']'])) l.toList :=
  SuffixText.intro IsGap.nil hl.inside (hl.solid r)

theorem suffixes_arraysText {ls : List String} (hls : ∀ l ∈ ls, IsLength l)
    (hne : ls ≠ []) (r : List Char) :
    Suffixes r (arraysText ls) (ls.map fun l => .suffix l.toList) := by
  induction ls with
  | nil => exact absurd rfl hne
  | cons l ls ih =>
    by_cases hls' : ls = []
    · subst hls'
      simpa [arraysText] using Suffixes.one (suffixText_length (hls l List.mem_cons_self) r)
    · have hrest := ih (fun k hk => hls k (List.mem_cons_of_mem l hk)) hls'
      have hcons := Suffixes.cons (suffixText_length (hls l List.mem_cons_self) _) IsGap.nil hrest
      simpa [arraysText] using hcons

theorem addArray_suffix {l : String} (h : IsLength l) (t : DeclaredType) :
    addArray t (.suffix l.toList) = array t l := by
  by_cases hl : l.toList = []
  · obtain rfl : l = "" := String.toList_eq_nil_iff.mp hl
    rfl
  · rw [addArray, Node.suffix, Node.optional_of_ne_nil hl]
    change array t (Text.trim (.ofList l.toList)) = _
    rw [String.ofList_toList, h.trim]

theorem foldlM_suffixes {ls : List String} (hls : ∀ l ∈ ls, IsLength l)
    (inner : Inner) (t : DeclaredType) :
    (ls.map fun l => Node.suffix l.toList).foldlM (addAbstractPart inner) t =
      some (ls.foldl array t) := by
  induction ls generalizing t with
  | nil => rfl
  | cons l ls ih =>
    have hpart : addAbstractPart inner t (.suffix l.toList) = some (array t l) :=
      congrArg some (addArray_suffix (hls l List.mem_cons_self) t)
    rw [List.map_cons, List.foldlM_cons, hpart]
    exact ih (fun k hk => hls k (List.mem_cons_of_mem l hk)) _

/-- What the spelling of an array type is read as: a pointer type and lengths. -/
structure ArrayReading (t p : DeclaredType) (ls : List String) : Prop where
  text : t.spelling.toList = p.spelling.toList ++ arraysText ls
  type : t = ls.foldl array p
  levels : t.levels = p.levels
  lengths : ∀ l ∈ ls, IsLength l

theorem arrayReading_snoc {ls : List String} {l : String} (h : ArrayReading t p ls)
    (hl : IsLength l) : ArrayReading (array t l) p (ls ++ [l]) := by
  refine ⟨?_, ?_, h.levels, ?_⟩
  · rw [spelling]
    simp [h.text, arraysText]
  · rw [List.foldl_append, ← h.type]
    rfl
  · intro k hk
    rcases List.mem_append.mp hk with hk | hk
    · exact h.lengths k hk
    · obtain rfl := List.mem_singleton.mp hk
      exact hl

/-! ### Declared types -/

/-- What the spelling of a type is read as: a complete type name, or a block parameter. -/
structure DeclaredReading (t : DeclaredType) (node parameter : Node) : Prop where
  text : (Expr.call .typeName).shape t.spelling.toList = some ([], [node])
  read : ∀ d, readTypeName (.direct d) node = upTo d t
  parameterText : ∀ r, Stop [',', ')'] r → ParameterText r t.spelling.toList [parameter]
  rule : parameter.rule = .parameterDeclaration
  readParameter : ∀ d, readParameter (.direct d) parameter = upTo d t

theorem declaratorEnd_nil (r : List Char) : DeclaratorEnd r [] :=
  ⟨stop_nil skipGap_nil, staysOpen_nil r⟩

theorem readParameter_abstract {a : Adornment}
    (h : BaseReading x a b ns) (d : Nat) (ds : List Node) :
    readParameter (.direct d) (.branch .parameterDeclaration
      [.branch .specifierQualifierList ns, .branch .abstractDeclarator ds]) =
      ((upTo d b).bind fun b => ds.foldlM (addAbstractPart (.direct d)) b).map a.wrap :=
  h.bind_read d _

theorem declaredReading_base {a : Adornment} (h : BaseReading x a b ns)
    (hx : (a.wrap b).spelling.toList = x) :
    ∃ node parameter, DeclaredReading (a.wrap b) node parameter := by
  have hbase := (h.text [] (stop_nil skipGap_nil)).spelling
  have hname := typeName_base hbase [] skipGap_nil
  rw [List.append_nil, skipGap_nil, ← hx] at hname
  refine ⟨_, _, hname, fun d => ?_, fun r _ => by rw [hx]; exact parameterText_base hbase r, rfl,
    fun d => ?_⟩
  · rw [readTypeName_base h, ← upTo_wrap]
    congr 1
    exact Option.bind_fun_some _
  · refine (h.bind_read d some).trans ?_
    rw [Option.bind_fun_some, upTo_wrap]

theorem declaredReading_abstract {es : List Node} {k : List Char} (h : PointerReading ss p b ns ms)
    (hk : IsGap k) (htext : t.spelling.toList = b.spelling.toList ++ (k ++ y))
    (hy : ∀ r, AbstractText r y (starNodes ms ++ es))
    (hblock : ∀ m ∈ starNodes ms ++ es, m.rule ≠ .abstractBlockDeclarator)
    (ht : ∀ d, (upTo d p).bind (fun p => es.foldlM (addAbstractPart (.direct d)) p) = upTo d t) :
    ∃ node parameter, DeclaredReading (t.specify ss) node parameter := by
  have hbase := (h.base.text [] (stop_nil skipGap_nil)).spelling
  have hspelling : (t.specify ss).spelling.toList = leadText ss ++ b.spelling.toList ++
      (k ++ y) := by
    rw [spelling_specify, htext, List.append_assoc]
  have hname := typeName_abstract hbase hk (hy []) [] (declaratorEnd_nil [])
  rw [List.append_nil, ← hspelling, skipGap_nil] at hname
  refine ⟨_, .branch .parameterDeclaration [.branch .specifierQualifierList ns,
    .branch .abstractDeclarator (starNodes ms ++ es)], hname, fun d => ?_, fun r _ =>
      ?_, rfl, fun d => ?_⟩
  · rw [readTypeName_base h.base, h.foldlM, ht]
    exact upTo_wrap ⟨ss, []⟩ d t
  · rw [hspelling]
    exact parameterText_abstract hbase hk (hy r) hblock
  · rw [readParameter_abstract h.base, h.foldlM, ht]
    exact upTo_wrap ⟨ss, []⟩ d t

/-- A pointer type with something behind it is a base with a declarator. -/
theorem PointerReading.exists_abstract {es : List Node} {g e : List Char}
    (h : PointerReading ss p b ns ms) (hg : IsGap g) (he : ∀ r, Ending r e es) :
    ∃ k y, IsGap k ∧ p.spelling.toList ++ (g ++ e) = b.spelling.toList ++ (k ++ y) ∧
      ∀ r, AbstractText r y (starNodes ms ++ es) := by
  rcases h.text with ⟨rfl, htext⟩ | ⟨y, htext, hstars⟩
  · exact ⟨g, e, hg, by rw [htext], fun r => .ending (he r)⟩
  · have hne : ms ≠ [] := by cases hstars <;> simp
    refine ⟨[' '], y ++ (g ++ e), IsGap.blank, by simp [htext], fun r => ?_⟩
    rw [starNodes, if_neg hne]
    exact .both hstars hg (he r)

theorem declaredReading_pointer (h : PointerReading ss p b ns ms) :
    ∃ node parameter, DeclaredReading (p.specify ss) node parameter := by
  rcases h.text with ⟨rfl, -⟩ | ⟨y, htext, hstars⟩
  · obtain rfl : p = b := h.type
    exact declaredReading_base h.base (spelling_specify p ss)
  · have hne : ms ≠ [] := by cases hstars <;> simp
    have hnodes : starNodes ms ++ [] = [.branch .pointer ms] := by simp [starNodes, hne]
    have hy : ∀ r, AbstractText r y (starNodes ms ++ []) := by
      rw [hnodes]
      exact fun r => .stars hstars
    exact declaredReading_abstract h IsGap.blank htext hy (by simp [hnodes, Node.rule])
      fun d => Option.bind_fun_some _

theorem declaredReading_array {ls : List String} (h : PointerReading ss p b ns ms)
    (ht : ArrayReading t p ls) :
    ∃ node parameter, DeclaredReading (t.specify ss) node parameter := by
  by_cases hne : ls = []
  · subst hne
    obtain rfl : t = p := ht.type
    exact declaredReading_pointer h
  · obtain ⟨k, y, hk, htext, hy⟩ := h.exists_abstract IsGap.nil fun r =>
      .arrays (suffixes_arraysText ht.lengths hne r)
    refine declaredReading_abstract h hk (ht.text.trans htext) hy (fun m hm => ?_) fun d => ?_
    · rcases List.mem_append.mp hm with hm | hm
      · by_cases hms : ms = []
        · simp [starNodes, hms] at hm
        · simp [starNodes, hms] at hm
          simp [hm, Node.rule]
      · obtain ⟨l, -, rfl⟩ := List.mem_map.mp hm
        simp [Node.suffix, Node.rule]
    · rw [upTo, upTo, ht.levels]
      by_cases hd : p.levels ≤ d
      · simp [hd, foldlM_suffixes ht.lengths, ht.type]
      · simp [hd]

/-! ### Blocks -/

def blockNodes (qs : List String) (parameters : List Node) : List Node :=
  qs.map (fun q => .token .nullabilitySpecifier q.toList) ++ [.branch .blockParameters parameters]

def written (ps : List DeclaredType) : List DeclaredType := if ps = [] then [void] else ps

def blockChars (qs : List String) (ps : List DeclaredType) : List Char :=
  '(' :: '^' :: ((" ".intercalate qs).toList ++
    ')' :: '(' :: (List.intercalate [',', ' '] ((written ps).map (·.spelling.toList)) ++ [')']))

theorem spelling_qualify_block (r : DeclaredType) (ps : List DeclaredType) (qs : List String) :
    ((block none r ps).qualify qs).spelling.toList =
      r.spelling.toList ++ ([' '] ++ blockChars qs ps) := by
  have htext : ((block none r ps).qualify qs).spelling =
      blockText r.spelling (spellings ps) qs := by
    cases qs <;> rfl
  have hinside :
      (if (spellings ps).isEmpty then "void" else ", ".intercalate (spellings ps)).toList =
      List.intercalate [',', ' '] ((written ps).map (·.spelling.toList)) := by
    rw [spellings_eq_map, written]
    by_cases hps : ps = []
    · subst hps
      rfl
    · simp [hps, String.toList_intercalate, Function.comp_def]
  rw [htext, blockText, blockChars, ← hinside]
  simp

theorem blockText_spelling {ps : List DeclaredType} {node : DeclaredType → Node}
    (hqs : qs = [] ∨ ∃ q ∈ Rule.nullabilitySpecifier.spellings, qs = [q])
    (hps : ∀ p ∈ written ps, ∀ r, Stop [',', ')'] r → ParameterText r p.spelling.toList [node p])
    (r : List Char) :
    BlockText r [] (blockChars qs ps) (blockNodes qs ((written ps).map node)) := by
  have hne : written ps ≠ [] := by
    rw [written]
    split <;> simp_all
  have hsep : Separated ParameterText (')' :: r) ((written ps).map (·.spelling.toList))
      (List.intercalate [',', ' '] ((written ps).map (·.spelling.toList)))
        ((written ps).map node) :=
    separated_intercalate
      (fun ds => stop_cons IsGap.nil ⟨',', rfl, rfl, by decide⟩ (by simp))
      (stop_cons IsGap.nil ⟨')', rfl, rfl, by decide⟩ (by simp)) hne hps
  have hparameters := parametersText_list (h := []) (v := []) hsep IsGap.nil IsGap.nil .none
  rcases hqs with rfl | ⟨q, hq, rfl⟩
  · simpa [blockChars, blockNodes, Node.optional] using
      BlockText.intro IsGap.nil (.none IsGap.nil) IsGap.nil hparameters
  · have hq' : String.ofList q.toList ∈ Rule.nullabilitySpecifier.spellings := by
      rwa [String.ofList_toList]
    have hword := (nullability_spelling hq').firm.ne_nil
    simpa [blockChars, blockNodes, Node.optional, hword] using
      BlockText.intro IsGap.nil (.word IsGap.nil hq' IsGap.nil) IsGap.nil hparameters

theorem levelsOfAll_written (ps : List DeclaredType) :
    levelsOfAll (written ps) = levelsOfAll ps := by
  rw [written]
  split
  · simp_all [levelsOfAll, levels]
  · rfl

section Block

variable {ps : List DeclaredType} {node : DeclaredType → Node}
  (hrule : ∀ p ∈ written ps, (node p).rule = .parameterDeclaration)
  (hread : ∀ p ∈ written ps, ∀ d, readParameter (.direct d) (node p) = upTo d p)

include hrule hread

theorem mapM_parameters (d : Nat) :
    ((Node.branch .blockParameters ((written ps).map node)).childrenOf .parameterDeclaration).mapM
      (Inner.direct d).parameter = if levelsOfAll ps + 1 ≤ d then some (written ps) else none := by
  rw [childrenOf_branch hrule]
  cases d with
  | zero =>
    have hne : written ps ≠ [] := by
      rw [written]
      split <;> simp_all
    obtain ⟨p, us, hps⟩ := List.exists_cons_of_ne_nil hne
    rw [hps, List.map_cons, List.mapM_cons]
    rfl
  | succ k =>
    change ((written ps).map node).mapM (readParameter (.direct k)) = _
    rw [mapM_upTo fun p hp => hread p hp k, levelsOfAll_written]
    simp

theorem addBlock_parameters (hvoid : ps ≠ [void])
    (hqs : qs = [] ∨ ∃ q ∈ Rule.nullabilitySpecifier.spellings, qs = [q]) (rule : Rule) (d : Nat)
    (t : DeclaredType) :
    addBlock (.direct d) t (.branch rule (blockNodes qs ((written ps).map node))) =
      if levelsOfAll ps + 1 ≤ d then some ((block none t ps).qualify qs) else none := by
  have hwritten : (if written ps = [void] then [] else written ps) = ps := by
    rw [written]
    split <;> simp_all
  have hbind : ∀ ws, ((((Node.branch .blockParameters ((written ps).map node)).childrenOf
      .parameterDeclaration).mapM (Inner.direct d).parameter).bind fun us =>
        some ((block none t (if us = [void] then [] else us)).qualify ws)) =
      if levelsOfAll ps + 1 ≤ d then some ((block none t ps).qualify ws) else none := by
    intro ws
    rw [mapM_parameters hrule hread]
    by_cases hps : levelsOfAll ps + 1 ≤ d
    · rw [if_pos hps, if_pos hps, Option.bind_some, hwritten]
    · rw [if_neg hps, if_neg hps, Option.bind_none]
  rcases hqs with rfl | ⟨q, -, rfl⟩
  · exact hbind []
  · have hq := hbind [String.ofList q.toList]
    rw [String.ofList_toList (s := q)] at hq
    rw [← hq]
    change Option.bind _ _ = _
    congr 1
    funext us
    change some ((block none t _).qualify [String.ofList q.toList]) = _
    rw [String.ofList_toList]

/-- The parts of a block denote the block. -/
theorem addBlock_blockNodes {r : DeclaredType} (hvoid : ps ≠ [void])
    (hqs : qs = [] ∨ ∃ q ∈ Rule.nullabilitySpecifier.spellings, qs = [q]) (rule : Rule) (d : Nat) :
    ((upTo d r).bind fun t =>
      addBlock (.direct d) t (.branch rule (blockNodes qs ((written ps).map node)))) =
      upTo d ((block none r ps).qualify qs) := by
  rw [upTo, upTo, levels_qualify, levels]
  simp only [addBlock_parameters hrule hread hvoid hqs]
  by_cases hr : r.levels ≤ d
  · by_cases hps : levelsOfAll ps + 1 ≤ d
    · simp [hr, hps, Nat.max_le]
    · have hmax : ¬ max r.levels (levelsOfAll ps + 1) ≤ d := fun h => hps (Nat.max_le.mp h).2
      simp only [hr, hps, hmax, if_true, if_false, Option.bind_some]
  · have hmax : ¬ max r.levels (levelsOfAll ps + 1) ≤ d := fun h => hr (Nat.max_le.mp h).1
    simp only [hr, hmax, if_false, Option.bind_none]

end Block

theorem readParameter_block (h : PointerReading ss p b ns ms)
    (hqs : qs = [] ∨ ∃ q ∈ Rule.nullabilitySpecifier.spellings, qs = [q]) (parameters : List Node)
    (d : Nat) :
    readParameter (.direct d) (.branch .parameterDeclaration [.branch .specifierQualifierList ns,
      .branch .declarator
      (starNodes ms ++ [.branch .directDeclarator (blockNodes qs parameters)])]) =
      ((upTo d p).bind fun t =>
        addBlock (.direct d) t (.branch .directDeclarator (blockNodes qs parameters))).map
          (·.specify ss) := by
  have hdeclarator : addDeclarator (.direct d) b (.branch .declarator
      (starNodes ms ++ [.branch .directDeclarator (blockNodes qs parameters)])) =
      addBlock (.direct d) p (.branch .directDeclarator (blockNodes qs parameters)) := by
    rcases h.text with ⟨rfl, -⟩ | ⟨y, -, hstars⟩
    · obtain rfl : p = b := h.type
      rcases hqs with rfl | ⟨q, -, rfl⟩ <;> rfl
    · have hne : ms ≠ [] := by cases hstars <;> simp
      rw [starNodes, if_neg hne, h.type, ← addPointer_stars hstars]
      rcases hqs with rfl | ⟨q, -, rfl⟩ <;> rfl
  refine (h.base.bind_read d fun b => addDeclarator (.direct d) b _).trans ?_
  rw [upTo, upTo, h.levels]
  by_cases hd : b.levels ≤ d
  · rw [if_pos hd, if_pos hd, Option.bind_some, Option.bind_some, hdeclarator]
    rfl
  · rw [if_neg hd, if_neg hd]
    rfl

theorem parameterText_block {es : List Node}
    {e r : List Char} (h : PointerReading ss p b ns ms) (he : BlockText r [] e es)
    (hr : Stop [',', ')'] r) :
    ParameterText r (leadText ss ++ (p.spelling.toList ++ ([' '] ++ e)))
    [.branch .parameterDeclaration
      [.branch .specifierQualifierList ns,
        .branch .declarator (starNodes ms ++ [.branch .directDeclarator es])]] := by
  have hfirm := firm_of_startsIdent (h.base.text [] (stop_nil skipGap_nil)).start
  obtain ⟨e', he'⟩ := he.exists_cons
  rcases h.text with ⟨rfl, htext⟩ | ⟨y, htext, hstars⟩
  · have hround : Stop typeStops ([' '] ++ (e ++ r)) := by
      rw [he']
      exact stop_cons IsGap.blank ⟨'(', rfl, rfl, by decide⟩ (by simp)
    rw [htext, ← List.append_assoc]
    exact parameterText_declarator hfirm (h.base.text _ hround).spells IsGap.blank
      (.direct (.block he)) hr
  · have hne : ms ≠ [] := by cases hstars <;> simp
    obtain ⟨y', hy'⟩ := hstars.exists_cons
    have hstar : Stop typeStops ([' '] ++ (y ++ ([' '] ++ e) ++ r)) := by
      rw [hy']
      exact stop_cons IsGap.blank ⟨'*', rfl, rfl, by decide⟩ (by simp)
    rw [htext, List.append_assoc, List.append_assoc, ← List.append_assoc, starNodes, if_neg hne]
    exact parameterText_declarator hfirm (h.base.text _ hstar).spells IsGap.blank
      (.of_block hstars IsGap.blank he) hr

theorem declaredReading_void : ∃ node parameter, DeclaredReading void node parameter := by
  have hspecifier := specifierReading_scalar (t := void) isScalar_void rfl rfl rfl
  have hnone : ∀ {ws : List String}, ∀ s ∈ [], s ∈ ws := by simp
  exact declaredReading_base (baseReading hspecifier hnone hnone hnone) rfl

theorem declaredReading_block {r : DeclaredType} {ps : List DeclaredType}
    (h : PointerReading ss r b ns ms)
    (hqs : qs = [] ∨ ∃ q ∈ Rule.nullabilitySpecifier.spellings, qs = [q]) (hvoid : ps ≠ [void])
    (hps : ∀ p ∈ ps, ∃ node parameter, DeclaredReading p node parameter) :
    ∃ node parameter,
      DeclaredReading (((block none r ps).qualify qs).specify ss) node parameter := by
  have hwritten : ∀ p ∈ written ps, ∃ node parameter, DeclaredReading p node parameter := by
    intro p hp
    by_cases hnil : ps = []
    · obtain rfl : p = void := by simpa [written, hnil] using hp
      exact declaredReading_void
    · exact hps p (by simpa [written, hnil] using hp)
  obtain ⟨node, hnode⟩ := Classical.skolem.mp fun p =>
    show ∃ parameter, p ∈ written ps → ∃ node, DeclaredReading p node parameter by
      by_cases hp : p ∈ written ps
      · obtain ⟨node, parameter, hread⟩ := hwritten p hp
        exact ⟨parameter, fun _ => ⟨node, hread⟩⟩
      · exact ⟨default, fun h => absurd h hp⟩
  have htext := blockText_spelling hqs fun p hp => (hnode p hp).choose_spec.parameterText
  have hblock := addBlock_blockNodes (r := r) (fun p hp => (hnode p hp).choose_spec.rule)
    (fun p hp => (hnode p hp).choose_spec.readParameter) hvoid hqs
  obtain ⟨k, y, hk, hy, habstract⟩ := h.exists_abstract IsGap.blank fun r => .block (htext r)
  have hbase := (h.base.text [] (stop_nil skipGap_nil)).spelling
  have hspelling : (((block none r ps).qualify qs).specify ss).spelling.toList =
      leadText ss ++ (r.spelling.toList ++ ([' '] ++ blockChars qs ps)) := by
    rw [spelling_specify, spelling_qualify_block]
  have hname := typeName_abstract hbase hk (habstract []) [] (declaratorEnd_nil [])
  rw [List.append_nil, List.append_assoc, ← hy, ← hspelling, skipGap_nil] at hname
  refine ⟨_, .branch .parameterDeclaration [.branch .specifierQualifierList ns, .branch .declarator
    (starNodes ms ++ [.branch .directDeclarator (blockNodes qs ((written ps).map node))])], hname,
    fun d => ?_, fun r hr => ?_, rfl, fun d => ?_⟩
  · rw [readTypeName_base h.base, h.foldlM]
    refine Eq.trans ?_ (upTo_wrap ⟨ss, []⟩ d ((block none r ps).qualify qs))
    rw [← hblock .abstractBlockDeclarator]
    congr 2
    funext t
    exact Option.bind_fun_some _
  · rw [hspelling]
    exact parameterText_block h (htext r) hr
  · rw [readParameter_block h hqs, hblock]
    exact upTo_wrap ⟨ss, []⟩ d _

/-! ### Reading undoes spelling -/

/-- What the spelling of a type of each stage is read as, with any words in front. -/
def Readable : Stage → DeclaredType → Prop
  | .base, t => (∀ n r ps, t ≠ block n r ps) ∧ ∃ part, SpecifierReading t part
  | .qualified, t => (∀ n r ps, t ≠ block n r ps) ∧ ∀ ss ns, (∀ s ∈ ss, s ∈ frontWords) →
      (∀ n ∈ ns, n ∈ Rule.nullabilitySpecifier.spellings) →
      ∃ nodes, BaseReading (leadText ss ++ (t.spelling.toList ++ trailText ns)) ⟨ss, ns⟩ t nodes
  | .pointer, t => ∀ ss, (∀ s ∈ ss, s ∈ frontWords) → ∃ b ns ms, PointerReading ss t b ns ms
  | .argument, t => (∃ node, ArgumentReading t node) ∧
    ∃ node parameter, DeclaredReading t node parameter
  | .array, t => ∀ ss, (∀ s ∈ ss, s ∈ frontWords) →
      ∃ p b ns ms ls, PointerReading ss p b ns ms ∧ ArrayReading t p ls
  | .direct, t => ∀ ss, (∀ s ∈ ss, s ∈ frontWords) →
      ∃ node parameter, DeclaredReading (t.specify ss) node parameter
  | .declared, t => ∃ node parameter, DeclaredReading t node parameter

theorem specifierReading_object {ps : List String} (h : ∀ p ∈ ps, IsIdent p.toList) :
    ∃ part, SpecifierReading (object ps) part := by
  by_cases hne : ps = []
  · subst hne
    exact ⟨_, specifierReading_id⟩
  · refine specifierReading_protocols (n := "id") ⟨by decide, by decide, by decide⟩ h hne ?_ rfl rfl
    obtain ⟨p, ps, rfl⟩ := List.exists_cons_of_ne_nil hne
    rfl

theorem regular_readable {stage : Stage} (h : Regular stage t) : Readable stage t := by
  induction h with
  | void => exact ⟨by simp, _, specifierReading_scalar isScalar_void rfl rfl rfl⟩
  | name hn => exact ⟨by simp, _, specifierReading_name hn⟩
  | scalar hn hvoid =>
    refine ⟨by simp, _, specifierReading_scalar hn rfl ?_ rfl⟩
    rw [ofPrimitive_of_isScalar hn, if_neg hvoid]
  | object hps => exact ⟨by simp, specifierReading_object hps⟩
  | @names n ps hn hid hne hps =>
    have hspellings : spellings (ps.map named) = ps := by
      rw [spellings_eq_map, List.map_map]
      exact List.map_id _
    refine ⟨by simp, specifierReading_protocols hn hps hne ?_ (if_neg hid) ?_⟩
    · rw [spelling, hspellings]
    · rw [levels, hspellings, if_pos]
      simpa using hps
  | @arguments n ts hn _ hbusy ih =>
    have hne : ts ≠ [] := by
      rintro rfl
      simp at hbusy
    exact ⟨by simp, specifierReading_arguments hn hne (fun t ht => (ih t ht).1) hbusy⟩
  | @qualify t qs _ hqs ih =>
    obtain ⟨hblock, part, hread⟩ := ih
    refine ⟨fun n r ps => ?_, fun ss ns hss hns => ?_⟩
    · cases qs
      · exact hblock n r ps
      · simp [DeclaredType.qualify]
    · rw [spelling_qualify hblock, List.append_assoc, ← trailText_append]
      exact ⟨_, baseReading hread hss hqs hns⟩
  | @ofQualified t _ ih =>
    intro ss hss
    obtain ⟨nodes, hread⟩ := ih.2 ss [] hss (by simp)
    have hnone : t.spelling.toList ++ trailText [] = t.spelling.toList := List.append_nil _
    rw [hnone] at hread
    exact ⟨t, nodes, [], pointerReading_base hread⟩
  | star _ hqs ih =>
    intro ss hss
    obtain ⟨b, ns, ms, hread⟩ := ih ss hss
    exact ⟨b, ns, _, pointerReading_star hread hqs⟩
  | @ownBase t ns ss _ hns hss ih =>
    obtain ⟨nodes, hread⟩ := ih.2 ss ns hss hns
    have hspelling : ((t.qualify ns).specify ss).spelling.toList =
        leadText ss ++ (t.spelling.toList ++ trailText ns) := by
      rw [spelling_specify, spelling_qualify ih.1]
    exact ⟨argumentReading_base hread hspelling, declaredReading_base hread hspelling⟩
  | ownPointer _ hss ih =>
    obtain ⟨b, ns, ms, hread⟩ := ih _ hss
    exact ⟨argumentReading_pointer hread, declaredReading_pointer hread⟩
  | @ofPointer t _ ih =>
    intro ss hss
    obtain ⟨b, ns, ms, hread⟩ := ih ss hss
    exact ⟨t, b, ns, ms, [], hread, by simp [arraysText], rfl, rfl, by simp⟩
  | array _ hl ih =>
    intro ss hss
    obtain ⟨p, b, ns, ms, ls, hread, harray⟩ := ih ss hss
    exact ⟨p, b, ns, ms, _, hread, arrayReading_snoc harray hl⟩
  | ofArray _ ih =>
    intro ss hss
    obtain ⟨p, b, ns, ms, ls, hread, harray⟩ := ih ss hss
    exact declaredReading_array hread harray
  | block _ _ hvoid hqs ihr ihps =>
    intro ss hss
    obtain ⟨b, ns, ms, hread⟩ := ihr ss hss
    exact declaredReading_block hread hqs hvoid ihps
  | ofArgument _ ih => exact ih.2
  | front _ hss ih => exact ih _ hss

/-- The spelling of a regular type is read as the type, if there are enough levels. -/
theorem readWithin_of_regular (h : Regular .declared t) (d : Nat) :
    readWithin d t.spelling = upTo d t := by
  obtain ⟨node, parameter, hread⟩ := regular_readable h
  have hsolid := (hread.parameterText [] (stop_nil skipGap_nil)).firm.solid
  rw [readWithin_of_shape d (by rw [hsolid.skipGap]; exact hread.text), hread.read]

/-- Reading undoes spelling: the canonical spelling of a canonical type denotes that type, if and
only if there are enough levels of nesting. -/
theorem readWithin_spelling {t : DeclaredType} (h : Canonical .declared t) (d : Nat) :
    readWithin d t.spelling = if t.levels ≤ d then some t else none :=
  readWithin_of_regular h.regular d

theorem readWithin_spelling_block : ∃ t, Canonical .declared t ∧
    t.spelling = "NSMapTable<id<A, B>, NSArray<NSString> *> * const (^_Nullable)" ++
      "(unsigned long const * _Nonnull[4][], id, void (^)(void))" ∧
    readWithin 2 t.spelling = some t ∧ readWithin 1 t.spelling = none := by
  have hresult : Canonical .pointer (qualified (pointer (generic "NSMapTable"
      [object ["A", "B"], pointer (generic "NSArray" [named "NSString"])])) ["const"]) := by
    have hid : Canonical .base (object ["A", "B"]) := .object (by decide)
    have hstring : Canonical .base (named "NSString") := .name (by decide)
    have harray : Canonical .base (generic "NSArray" [named "NSString"]) :=
      .generic (by decide) (by simp) (by simpa using .ofQualified (.ofBase hstring)) (by simp)
    refine .qualifiedPointer (.ofQualified (.ofBase (.generic (by decide) (by simp) ?_ ?_)))
      (by simp)
      (by decide)
    · simpa using ⟨.ofQualified (.ofBase hid), .pointer (.ofQualified (.ofBase harray))⟩
    · exact fun h => absurd (h _ List.mem_cons_self) (by decide)
  have hlengths : Canonical .declared (array (array (qualified (pointer
      (qualified (named "unsigned long") ["const"])) ["_Nonnull"]) "4") "") := by
    have hlong : Canonical .base (named "unsigned long") :=
      .scalar ⟨"unsigned", ["long"], by decide, by decide, rfl⟩ (by decide)
    exact .ofArray (.array (.array (.ofPointer (.qualifiedPointer (.ofQualified
      (.qualifiedBase hlong (by simp) (by decide))) (by simp) (by decide))) (by decide))
        (by decide))
  have hbase : ∀ {t}, Canonical .base t → Canonical .pointer t := fun h => .ofQualified (.ofBase h)
  have hparameters : ∀ p ∈ [array (array (qualified (pointer
      (qualified (named "unsigned long") ["const"])) ["_Nonnull"]) "4") "", object [],
      block none void []], Canonical .declared p := by
    simpa using ⟨hlengths, .ofArray (.ofPointer (hbase (.object (by simp)))),
      .block (hbase .void) (by simp) (by simp)⟩
  have hblock :=
    Canonical.qualifiedBlock (q := "_Nullable") hresult hparameters (by simp) (by decide)
  exact ⟨_, hblock, by decide, (readWithin_spelling hblock 2).trans (by decide),
    (readWithin_spelling hblock 1).trans (by decide)⟩

end HeaderBridge.DeclaredType
