import HeaderBridge.Proofs.Declaration.AssumeNonnull
import HeaderBridge.Proofs.Declaration.Conformances
import HeaderBridge.Proofs.Grammar.ClassHeads

/-! # Protocols of classes without a superclass

A class adopts the protocols in the angle brackets behind its superclass. Without
a superclass it loses them: the brackets are then taken for its generic parameters.
All the rest of the declaration stays as it is.
-/

namespace HeaderBridge

open Grammar Grammar.Expr Outline

namespace Declaration

variable {types : TypeReader} {policy : Policy}

/-! ### Heads of declarations -/

namespace Direct

def headRules : List Rule := [.className, .superclassName, .protocolList]

theorem foldl_gather_head {ns : List Node} (hns : ∀ n ∈ ns, n.rule ∈ headRules) (g : Gathering) :
    ns.foldl (gather types policy) g = { g with declaration := { g.declaration with
      protocols := g.declaration.protocols ++ ns.flatMap protocolsAt } } := by
  induction ns generalizing g with
  | nil => simp
  | cons n ns ih =>
    have hn : gather types policy g n = { g with declaration := { g.declaration with
        protocols := g.declaration.protocols ++ protocolsAt n } } := by
      have hrule := hns n List.mem_cons_self
      simp only [headRules, List.mem_cons, List.not_mem_nil, or_false] at hrule
      rcases hrule with hr | hr | hr <;> simp [gather, protocolsAt, hr]
    rw [List.foldl_cons, hn, ih fun m hm => hns m (List.mem_cons_of_mem _ hm), List.flatMap_cons]
    simp

theorem members_append {ns : List Node} (hns : ∀ n ∈ ns, n.rule ∈ headRules) (t : String)
    (ms : List Node) :
    members (.mk .classInterface 0 t (ns ++ ms)) = ns ++ members (.mk .classInterface 0 "" ms) := by
  have hhead : ∀ r ∈ headRules,
      ¬ (r = .interfaceDeclarationList ∨ r = .protocolDeclarationList) := by
    decide
  have hself : ns.flatMap (fun c => if c.rule = .interfaceDeclarationList ∨
      c.rule = .protocolDeclarationList then c.children else [c]) = ns.flatMap fun c => [c] :=
    List.flatMap_congr fun n hn => if_neg (hhead _ (hns n hn))
  rw [members, members, Node.children, Node.children, List.flatMap_append, hself,
    List.flatMap_singleton']

/-- The head of a class adds its superclass and its protocols to what the members add. -/
theorem typeOf_class {ns : List Node} (hns : ∀ n ∈ ns, n.rule ∈ headRules) (t : String)
    (ms : List Node) (audited : Bool) (name : String) :
    typeOf types policy audited (.mk .classInterface 0 t (ns ++ ms)) name =
      { typeOf types policy audited (.mk .classInterface 0 "" ms) name with
        declaration :=
          { (typeOf types policy audited (.mk .classInterface 0 "" ms) name).declaration with
          superclass := (Node.mk .classInterface 0 t (ns ++ ms)).childText? .superclassName
          protocols := (typeOf types policy audited (.mk .classInterface 0 t (ns ++ ms))
            name).declaration.protocols } } := by
  rw [typeOf, members_append hns, List.foldl_append, foldl_gather_head hns, foldl_gather, typeOf,
    foldl_gather]
  rfl

theorem addType_append (n : Node) (ds : List TypeDeclaration) (a : Bool) :
    addType types policy (ds, a) n =
      (ds ++ (addType types policy ([], a) n).1, (addType types policy ([], a) n).2) := by
  unfold addType
  cases name? n <;> split <;> simp

theorem foldl_addType_append (ns : List Node) (ds : List TypeDeclaration) (a : Bool) :
    (ns.foldl (addType types policy) (ds, a)).1 =
      ds ++ (ns.foldl (addType types policy) ([], a)).1 := by
  induction ns generalizing ds a with
  | nil => simp
  | cons n ns ih =>
    rw [List.foldl_cons, addType_append, ih, List.foldl_cons, addType_append n [] a, ih ([] ++ _)]
    simp

end Direct

theorem typeAt_class {ns ms : List Node} {t name : String}
    (hns : ∀ n ∈ ns, n.rule ∈ Direct.headRules)
    (hread : (Node.mk .classInterface 0 t (ns ++ ms)).Read)
    (hname : Direct.name? (.mk .classInterface 0 t (ns ++ ms)) = some name) (audited : Bool) :
    Direct.typeAt types policy (audited, .mk .classInterface 0 t (ns ++ ms)) =
      { (Direct.typeOf types policy audited (.mk .classInterface 0 "" ms) name).declaration with
        superclass := (Node.mk .classInterface 0 t (ns ++ ms)).childText? .superclassName
        protocols := conformances (.mk .classInterface 0 t (ns ++ ms)) } := by
  have hrule : Rule.classInterface ∈ typeRules := by decide
  have hprotocols : (Direct.typeAt types policy
      (audited, .mk .classInterface 0 t (ns ++ ms))).protocols =
        _ := protocols_typeAt policy hread hrule
  rw [← hprotocols, Direct.typeAt, hname, Option.getD_some, Direct.typeOf_class hns]

theorem ofTree_class (htypes : types.Placeless) (policy : Policy) {text t name : String}
    {tree : Node} {ns ms rest : List Node} (hparse : Header.parse text = .ok tree)
    (hunits : (Header.units text.toList).2 = .mk .classInterface 0 t (ns ++ ms) :: rest)
    (hns : ∀ n ∈ ns, n.rule ∈ Direct.headRules)
    (hname : Direct.name? (.mk .classInterface 0 t (ns ++ ms)) = some name) :
    Direct.ofTree types policy tree =
      { (Direct.typeOf types policy false (.mk .classInterface 0 "" ms) name).declaration with
        superclass := (Node.mk .classInterface 0 "" (ns ++ ms)).childText? .superclassName
        protocols := conformances (.mk .classInterface 0 "" (ns ++ ms)) } ::
      ((rest ++ [Node.atEnd]).foldl (Direct.addType types policy)
        ([], (Direct.typeOf types policy false (.mk .classInterface 0 "" ms) name).audited)).1 := by
  have hread : (Node.mk .classInterface 0 t (ns ++ ms)).Read :=
    read_of_mem_units (hunits ▸ List.mem_cons_self)
  have hadd : Direct.addType types policy ([], false) (.mk .classInterface 0 t (ns ++ ms)) =
      ([Direct.typeAt types policy (false, .mk .classInterface 0 t (ns ++ ms))],
        (Direct.typeOf types policy false (.mk .classInterface 0 "" ms) name).audited) := by
    have haudited :
        (Direct.typeOf types policy false (.mk .classInterface 0 t (ns ++ ms)) name).audited = _ :=
      congrArg Gathering.audited (Direct.typeOf_class hns t ms false name)
    rw [Direct.typeAt, hname, Option.getD_some, ← haudited]
    simp only [Direct.addType, Node.rule, hname]
    rfl
  rw [Header.ofTree_eq_foldl_units htypes policy hparse, hunits, List.cons_append, List.foldl_cons,
    hadd, Direct.foldl_addType_append, List.singleton_append, typeAt_class hns hread hname]
  rfl

/-- The head of a class is read here, with the given name, superclass and protocols. -/
structure DeclaresHead (cs : List Char) (ns : List Node) (zs : List Char) (name : String)
    (superclass : Option String) (protocols : List String) : Prop where
  head : HeadAt cs ns zs
  rules : ∀ n ∈ ns, n.rule ∈ Direct.headRules
  name : ∀ t ms, Direct.name? (.mk .classInterface 0 t (ns ++ ms)) = some name
  superclass : (Node.mk .classInterface 0 "" ns).childText? .superclassName = superclass
  protocols : conformances (.mk .classInterface 0 "" ns) = protocols

theorem child?_append {ns ms : List Node} {r : Rule} (hms : ∀ m ∈ ms, m.rule ≠ r) :
    (Node.mk .classInterface 0 "" (ns ++ ms)).child? r =
      (Node.mk .classInterface 0 "" ns).child? r := by
  have hnone : ms.find? (·.rule = r) = none := by simpa using hms
  rw [Node.child?, Node.child?, Node.children, Node.children, List.find?_append, hnone,
    Option.or_none]

/-- Two heads before the same text declare the same type, apart from its superclass and its
protocols, and leave all later types as they are. -/
theorem ofTree_of_heads (htypes : types.Placeless) (policy : Policy) {text text' name : String}
    {tree : Node} {ns ns' : List Node} {zs : List Char} {superclass superclass' : Option String}
    {protocols protocols' : List String}
    (h : DeclaresHead text.toList ns zs name superclass protocols)
    (h' : DeclaresHead text'.toList ns' zs name superclass' protocols')
    (hparse : Header.parse text = .ok tree) :
    ∃ (tree' : Node) (d : TypeDeclaration) (ds : List TypeDeclaration),
      Header.parse text' = .ok tree' ∧ d.kind = .classType ∧ d.name = name ∧
      Direct.ofTree types policy tree = { d with superclass, protocols } :: ds ∧
      Direct.ofTree types policy tree' =
        { d with superclass := superclass', protocols := protocols' } :: ds := by
  obtain ⟨hend', t, t', ms, rest, hms, hunits, hunits'⟩ :=
    h.head.units_of_units h'.head (Header.parse_eq_ok hparse).1
  obtain ⟨tree', hparse'⟩ := Header.parse_of_units hend'
  have htail : ∀ r ∈ classTail.seen.flatMap Rule.leaves, r ≠ .superclassName ∧
      r ≠ .protocolList := by
    decide
  have hsuper : ∀ ns : List Node,
      (Node.mk .classInterface 0 "" (ns ++ ms)).childText? .superclassName =
      (Node.mk .classInterface 0 "" ns).childText? .superclassName := fun ns => by
    rw [Node.childText?, child?_append fun m hm => (htail _ (hms m hm)).1, Node.childText?]
  have hadopts : ∀ ns : List Node, conformances (.mk .classInterface 0 "" (ns ++ ms)) =
      conformances (.mk .classInterface 0 "" ns) := fun ns => by
    rw [conformances, child?_append fun m hm => (htail _ (hms m hm)).2, conformances]
  have hfirst := ofTree_class htypes policy hparse hunits h.rules (h.name t ms)
  have hsecond := ofTree_class htypes policy hparse' hunits' h'.rules (h'.name t' ms)
  rw [hsuper, hadopts, h.superclass, h.protocols] at hfirst
  rw [hsuper, hadopts, h'.superclass, h'.protocols] at hsecond
  refine ⟨tree', _, _, hparse', ?_, ?_, hfirst, hsecond⟩
  all_goals
    rw [Direct.typeOf, Direct.foldl_gather]
    rfl

/-! ### Brackets with and without a superclass -/

def bracketedClass (name : String) (superclass : Option String) (names : List String)
    (body : String) : String :=
  "@interface " ++ name ++ (superclass.map (" : " ++ ·)).getD "" ++ " <" ++
    ", ".intercalate names ++
    "> " ++ body ++ " @end"

def behindBrackets (body : String) : List Char := ' ' :: (body ++ " @end").toList

section Texts

variable (name superclass : String) (names : List String) (body : String)

theorem toList_bracketedClass_some : (bracketedClass name (some superclass) names body).toList =
    interfaceText name.toList (':' :: ' ' :: (superclass.toList ++
      ' ' :: inAngles (names.map String.toList) (behindBrackets body))) := by
  unfold bracketedClass
  simp only [behindBrackets, inAngles, Option.map_some, Option.getD_some,
    String.toList_append, String.toList_intercalate, List.append_assoc]
  rfl

theorem toList_bracketedClass_none : (bracketedClass name none names body).toList =
    interfaceText name.toList (inAngles (names.map String.toList) (behindBrackets body)) := by
  unfold bracketedClass
  simp only [behindBrackets, inAngles, Option.map_none, Option.getD_none,
    String.append_empty, String.toList_append, String.toList_intercalate, List.append_assoc]
  rfl

end Texts

def HasVariance (names : List String) : Prop := ∃ p ∈ names, p ∈ Rule.variance.spellings

instance (names : List String) : Decidable (HasVariance names) :=
  inferInstanceAs (Decidable (∃ p ∈ names, p ∈ Rule.variance.spellings))

theorem hasVariance_iff {names : List String} :
    HasVariance names ↔ ∃ w ∈ names.map String.toList, isVariance w = true := by
  simp [HasVariance, isVariance]

theorem map_protocolNode (names : List String) (t : String) :
    ((Node.mk .protocolList 0 t ((names.map String.toList).map protocolNode)).childrenOf
      .protocolName).map (fun name => Lowering.protocolName name.text) =
      names.map Lowering.protocolName := by
  have hself : ((names.map String.toList).map protocolNode).filter (·.rule = .protocolName) =
      (names.map String.toList).map protocolNode := by
    rw [List.filter_eq_self]
    intro n hn
    obtain ⟨w, -, rfl⟩ := List.mem_map.mp hn
    rfl
  rw [Node.childrenOf, Node.children, hself, List.map_map, List.map_map]
  refine List.map_congr_left fun p _ => ?_
  simp [protocolNode, Node.text]

section Heads

variable {name superclass : String} {names : List String} (hname : IsIdent name.toList)
  (hnames : ∀ p ∈ names, IsIdent p.toList) (hne : names ≠ []) (body : String)
include hname hnames hne

theorem declaresHead_superclass (hsuperclass : IsIdent superclass.toList) :
    ∃ ns, DeclaresHead (bracketedClass name (some superclass) names body).toList ns
      (behindBrackets body)
      name (some superclass) (names.map Lowering.protocolName) := by
  have hws : ∀ w ∈ names.map String.toList, IsIdent w := by simpa using hnames
  obtain ⟨t, t', hhead⟩ := headAt_superclass hname hsuperclass hws (by simpa using hne)
    (behindBrackets body)
  rw [← toList_bracketedClass_some] at hhead
  refine ⟨_, hhead, ?_, fun _ _ => ?_, ?_, map_protocolNode names t'⟩
  · simp [Node.rule, classNode, Direct.headRules]
  · exact congrArg some String.ofList_toList
  · exact congrArg some String.ofList_toList

theorem declaresHead_plain (hbody : HasVariance names ∨
      (skipGap (behindBrackets body)).head? ∉ [some ':', some '(', some '<']) :
    ∃ ns, DeclaresHead (bracketedClass name none names body).toList ns (behindBrackets body)
      name none (if HasVariance names then names.map Lowering.protocolName else []) := by
  have hws : ∀ w ∈ names.map String.toList, IsIdent w := by simpa using hnames
  by_cases hv : HasVariance names
  · obtain ⟨t, t', hhead⟩ := headAt_variance hname hws (hasVariance_iff.mp hv) (behindBrackets body)
    rw [← toList_bracketedClass_none] at hhead
    refine ⟨_, hhead, ?_, fun _ _ => ?_, rfl, ?_⟩
    · simp [Node.rule, classNode, Direct.headRules]
    · exact congrArg some String.ofList_toList
    · rw [if_pos hv]
      exact map_protocolNode names t'
  · have hplain : ∀ w ∈ names.map String.toList, isVariance w = false := by
      simpa [hasVariance_iff] using hv
    obtain ⟨t, ms, hhead⟩ :=
      headAt_clause hname hws (by simpa using hne) hplain (hbody.resolve_left hv)
    rw [← toList_bracketedClass_none] at hhead
    refine ⟨_, hhead, ?_, fun _ _ => ?_, rfl, ?_⟩
    · simp [Node.rule, classNode, Direct.headRules]
    · exact congrArg some String.ofList_toList
    · rw [if_neg hv]
      rfl

end Heads

/-- Names in angle brackets are the protocols of a class only behind its superclass. Without one,
the class is declared as before, but the names are taken for its generic parameters and it adopts
none of them, unless one is a word that says how a parameter varies: with such a word it adopts them
all. -/
theorem brackets_without_superclass {name superclass : String} {names : List String} {body : String}
    (hname : IsIdent name.toList) (hsuperclass : IsIdent superclass.toList)
    (hnames : ∀ p ∈ names, IsIdent p.toList) (hne : names ≠ [])
    (hbody : HasVariance names ∨
      (skipGap (body ++ " @end").toList).head? ∉ [some ':', some '(', some '<'])
    (maxDepth : Nat) (policy : Policy) {tree : Node}
    (h : Header.parse (bracketedClass name (some superclass) names body) = .ok tree) :
    ∃ (o o' : Outline) (d : TypeDeclaration) (ds : List TypeDeclaration),
      Header.outlineWithin maxDepth (bracketedClass name (some superclass) names body) = .ok o ∧
      Header.outlineWithin maxDepth (bracketedClass name none names body) = .ok o' ∧
      d.kind = .classType ∧ d.name = name ∧
      (ofOutline policy o).map TypeDeclaration.unsourced =
        { d with superclass := some superclass, protocols := names.map Lowering.protocolName } ::
          ds ∧
      (ofOutline policy o').map TypeDeclaration.unsourced =
        { d with
          superclass := none
          protocols := if HasVariance names then names.map Lowering.protocolName else [] } ::
            ds := by
  have hgap : skipGap (behindBrackets body) = skipGap (body ++ " @end").toList := IsGap.blank _
  rw [← hgap] at hbody
  obtain ⟨ns, hhead⟩ := declaresHead_superclass hname hnames hne body hsuperclass
  obtain ⟨ns', hhead'⟩ := declaresHead_plain hname hnames hne body hbody
  obtain ⟨tree', d, ds, h', hkind, hd, hfirst, hsecond⟩ :=
    ofTree_of_heads (TypeReader.respelled_placeless maxDepth) policy hhead hhead' h
  obtain ⟨o, houtline, ho⟩ := exists_outlineWithin h maxDepth
  obtain ⟨o', houtline', ho'⟩ := exists_outlineWithin h' maxDepth
  exact ⟨o, o', d, ds, houtline, houtline', hkind, hd,
    (ofOutline_eq_direct h ho policy).trans hfirst,
    (ofOutline_eq_direct h' ho' policy).trans hsecond⟩

/-- A class with a variable and a method, first with its superclass and then without. -/
theorem brackets_without_superclass_members : ∃ (o o' : Outline) (d : TypeDeclaration)
    (ds : List TypeDeclaration),
    Header.outlineWithin 32 "@interface N : S <P, NSObject> { int x; } - (void)f; @end" = .ok o ∧
      Header.outlineWithin 32 "@interface N <P, NSObject> { int x; } - (void)f; @end" = .ok o' ∧
      d.kind = .classType ∧ d.name = "N" ∧
      (ofOutline {} o).map TypeDeclaration.unsourced =
        { d with superclass := some "S", protocols := ["P", "NSObjectProtocol"] } :: ds ∧
      (ofOutline {} o').map TypeDeclaration.unsourced =
        { d with superclass := none, protocols := [] } :: ds := by
  have hwith : bracketedClass "N" (some "S") ["P", "NSObject"] "{ int x; } - (void)f;" =
      "@interface N : S <P, NSObject> { int x; } - (void)f; @end" := by decide +kernel
  have hwithout : bracketedClass "N" none ["P", "NSObject"] "{ int x; } - (void)f;" =
      "@interface N <P, NSObject> { int x; } - (void)f; @end" := by decide +kernel
  have hok : (Header.parse (bracketedClass "N" (some "S") ["P", "NSObject"]
      "{ int x; } - (void)f;")).isOk = true := by decide +kernel
  have hwords : ∀ p ∈ ["P", "NSObject"],
      startsIdent p.toList = true ∧ ∀ c ∈ p.toList, isIdentChar c = true := by decide
  obtain ⟨tree, h⟩ := Header.exists_parse hok
  obtain ⟨o, o', d, ds, ho, ho', hkind, hname, hfirst, hsecond⟩ :=
    @brackets_without_superclass "N" "S" ["P", "NSObject"] "{ int x; } - (void)f;"
      ⟨by decide, by decide⟩ ⟨by decide, by decide⟩ (fun p hp => ⟨(hwords p hp).1, (hwords p hp).2⟩)
      (by decide) (.inr (by decide +kernel)) 32 {} tree h
  rw [hwith] at ho
  rw [hwithout] at ho'
  have hprotocols : ["P", "NSObject"].map Lowering.protocolName = ["P", "NSObjectProtocol"] := by
    decide +kernel
  rw [hprotocols] at hfirst
  exact ⟨o, o', d, ds, ho, ho', hkind, hname, hfirst, hsecond⟩

/-- A class that names two protocols and no superclass adopts neither of them. -/
theorem protocols_lost_without_superclass : ∃ o o',
    Header.outlineWithin 32 "@interface N : S <P1, P2> @end" = .ok o ∧
      Header.outlineWithin 32 "@interface N <P1, P2> @end" = .ok o' ∧
      (ofOutline {} o).map (fun d => (d.superclass, d.protocols)) = [(some "S", ["P1", "P2"])] ∧
      (ofOutline {} o').map (fun d => (d.superclass, d.protocols)) = [(none, [])] := by
  have hok : (Header.parse "@interface N : S <P1, P2> @end").isOk = true ∧
      (Header.parse "@interface N <P1, P2> @end").isOk = true := by decide +kernel
  obtain ⟨tree, h⟩ := Header.exists_parse hok.1
  obtain ⟨tree', h'⟩ := Header.exists_parse hok.2
  obtain ⟨o, ho, -⟩ := exists_outlineWithin h 32
  obtain ⟨o', ho', -⟩ := exists_outlineWithin h' 32
  have hheads : (Header.outlineWithin 32 "@interface N : S <P1, P2> @end").toOption.map
        (fun o => (ofOutline {} o).map fun d => (d.superclass, d.protocols)) =
      some [(some "S", ["P1", "P2"])] ∧
      (Header.outlineWithin 32 "@interface N <P1, P2> @end").toOption.map
        (fun o => (ofOutline {} o).map fun d => (d.superclass, d.protocols)) =
      some [(none, [])] := by decide +kernel
  rw [ho, ho'] at hheads
  exact ⟨o, o', ho, ho', Option.some.inj hheads.1, Option.some.inj hheads.2⟩

end Declaration

end HeaderBridge
