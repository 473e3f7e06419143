import HeaderBridge.Proofs.Declaration.Settings

/-! # Every field

Each declarator of an instance variable whose name and type can be read gives a
variable, in source order. A property declaration gives one property, from the
first of its declarators, and the others are lost.
-/

namespace HeaderBridge.Declaration

open Grammar Outline

def fields (f : Node) : List (Node × Node) :=
  (f.child? .specifierQualifierList).toList.flatMap fun specifiers =>
    (f.occurrences [.fieldDeclarator]).map fun field => (specifiers, field)

def memberFields (n : Node) : List (Node × Node) :=
  (n.occurrences [.fieldDeclaration]).flatMap fields

def readField? (types : TypeReader) (x : Node × Node) : Option (String × DeclaredType) := do
  let declarator ← x.2.child? .declarator
  let name ← DeclaredType.declaratorName? declarator
  let type ← types.declaration x.1 declarator
  return (name, type)

/-- The name that the attributes of a property give to its getter. -/
def getterName? (n : Node) : Option String := (Direct.modifiers n).findSome? Modifier.getter?

/-- An instance variable of the given type is declared by a name with a type. -/
structure DeclaresIvar (owner : String) (x : String × DeclaredType) (v : Ivar) : Prop where
  name : v.name = x.1
  ownedBy : v.member.owner = owner
  type : ∃ audited, v.storage = Lowering.lower { audited, instanceType := some owner } x.2

/-- A property of the given type is declared by a property declaration and a name with a type. -/
structure DeclaresProperty (owner : String) (n : Node) (x : String × DeclaredType) (v : Property) :
    Prop where
  name : v.name = (getterName? n).getD x.1
  ownedBy : v.member.owner = owner
  type : ∃ context : Lowering.Context, context.instanceType = some owner ∧
    v.storage = Lowering.lower context x.2

/-- A type has the fields that a parse node declares, in source order: all instance variables,
and of each property declaration the first property. -/
structure DeclaresFields (types : TypeReader) (n : Node) (d : TypeDeclaration) : Prop where
  ivars : List.Forall₂ (DeclaresIvar d.name)
    (((n.occurrences [.instanceVariables]).flatMap memberFields).filterMap (readField? types))
      d.ivars
  properties : List.Forall₂ (fun x v => DeclaresProperty d.name x.1 x.2 v)
    ((n.occurrences [.propertyDeclaration]).flatMap fun p =>
      (((memberFields p).take 1).filterMap (readField? types)).map fun x => (p, x)) d.properties

variable {n : Node}

/-! ### Field declarations -/

theorem fields_eq (hn : n.Read) (hr : n.rule = .fieldDeclaration) :
    ∃ specifiers list, n.child? .specifierQualifierList = some specifiers ∧
      n.child? .fieldDeclaratorList = some list ∧
      fields n = (list.childrenOf .fieldDeclarator).map fun field => (specifiers, field) := by
  have hkind : n.rule.kind = .branch := by rw [hr]; rfl
  obtain ⟨specifiers, hs⟩ := hn.exists_child? hkind .specifierQualifierList (by rw [hr]; rfl)
  obtain ⟨list, hlist, hlists⟩ := hn.childrenOf_eq hkind .fieldDeclaratorList (by rw [hr]; rfl)
    (by rw [hr]; decide)
  obtain ⟨hread, hrule, -⟩ := hn.of_child? hlist
  have hwithin : n.occurrences [.fieldDeclarator] = list.childrenOf .fieldDeclarator := by
    rw [hn.occurrences_eq_flatMap (by rw [hr]; decide) .fieldDeclaratorList (by rw [hr]; decide),
      hlists, List.flatMap_singleton, hread.occurrences_eq_filter (by rw [hrule]; decide)]
    · simp [Node.childrenOf]
    · exact fun x hx => (hread.part_of (P := fun r => ∀ q ∈ [Rule.fieldDeclarator],
        q.nesting ≤ r.nesting ∧ q.nesting < 8) hrule (by decide) hx).2
  refine ⟨specifiers, list, hs, hlist, ?_⟩
  rw [fields, hs, hwithin]
  simp

theorem fieldIvars_eq (types : TypeReader) (p : Place) (access : AccessLevel) (hn : n.Read)
    (hr : n.rule = .fieldDeclaration) :
    Direct.fieldIvars types p access n = ((fields n).filterMap (readField? types)).map fun x =>
      ivarFrom p (p.plainMember access) x.1 x.2 := by
  obtain ⟨specifiers, list, hs, hlist, hfields⟩ := fields_eq hn hr
  have hivar : ∀ field, Direct.ivar? types p access specifiers field =
      (readField? types (specifiers, field)).map fun x =>
        ivarFrom p (p.plainMember access) x.1 x.2 := by
    intro field
    simp only [Direct.ivar?, readField?, Option.bind_eq_bind, Option.map_bind, Option.pure_def,
      Function.comp_def, Option.map_some]
  rw [Direct.fieldIvars, hs, hlist, hfields]
  simp only [hivar]
  rw [List.map_filterMap, List.filterMap_map]
  rfl

theorem property?_eq (types : TypeReader) (p : Place) (isOptional : Bool) (hn : n.Read)
    (hr : n.rule = .propertyDeclaration) :
    Direct.property? types p isOptional n =
      ((memberFields n).head?.bind (readField? types)).map fun x =>
        propertyFrom p (p.plainMember .internalAccess) isOptional x.1 x.2 (Direct.modifiers n) := by
  have hkind : n.rule.kind = .branch := by rw [hr]; rfl
  obtain ⟨f, hf, hfs⟩ :=
    hn.childrenOf_eq hkind .fieldDeclaration (by rw [hr]; rfl) (by rw [hr]; decide)
  obtain ⟨hread, hrule, -⟩ := hn.of_child? hf
  obtain ⟨specifiers, list, hs, hlist, hfields⟩ := fields_eq hread hrule
  have hmember : memberFields n = fields f := by
    rw [memberFields,
      hn.occurrences_eq_flatMap (by rw [hr]; decide) .fieldDeclaration (by rw [hr]; decide), hfs,
      List.flatMap_singleton, hread.occurrences_eq_self (by rw [hrule]; decide),
      if_pos (by rw [hrule]; decide), List.flatMap_singleton]
  have hfirst : (fields f).head? = (list.child? .fieldDeclarator).map fun field =>
    (specifiers, field) := by
    rw [hfields, List.head?_map, Node.child?_eq_head?]
  rw [hmember, hfirst]
  simp only [Direct.property?, propertyParts?, hf, hs, hlist, readField?, Option.bind_eq_bind,
    Option.map_bind, Option.pure_def, Function.comp_def, Option.map_some, Option.bind_some,
    Option.bind_map, Option.bind_assoc]

/-! ### Types -/

theorem occurrences_instanceVariables (hn : n.Read) (hr : n.rule = .instanceVariables) :
    n.occurrences [.fieldDeclaration] =
      (Direct.ivarEntries n).filter (·.rule ∈ [Rule.fieldDeclaration]) := by
  have hself : n.rule ∉ [Rule.fieldDeclaration] := by rw [hr]; decide
  rw [Node.occurrences_eq, if_neg hself, List.nil_append, Direct.ivarEntries, List.filter_flatMap]
  refine List.flatMap_congr fun c hc => ?_
  obtain ⟨hread, hnot, hparts⟩ := hn.part_of (P := fun r => r ∉ [Rule.fieldDeclaration] ∧
    ∀ r' ∈ r.body.seen.flatMap Rule.leaves, ∀ q ∈ [Rule.fieldDeclaration],
      q.nesting ≤ r'.nesting ∧ q.nesting < 8) hr (by decide) hc
  exact hread.occurrences_eq_filter hnot fun x hx => hparts _ (hread.part hx).2.2

theorem ivars_declare (types : TypeReader) (p : Place) (access : AccessLevel) {ns : List Node}
    (hns : ∀ n ∈ ns, n.Read) :
    List.Forall₂ (DeclaresIvar p.owner)
      (((ns.filter (·.rule ∈ [Rule.fieldDeclaration])).flatMap fields).filterMap (readField? types))
      (Direct.ivars types p access ns) := by
  induction ns generalizing access with
  | nil => exact .nil
  | cons n ns ih =>
    have hrest := fun access => ih access fun x hx => hns x (List.mem_cons_of_mem _ hx)
    by_cases hr : n.rule = .fieldDeclaration
    · have hivars : Direct.ivars types p access (n :: ns) =
          Direct.fieldIvars types p access n ++ Direct.ivars types p access ns := by
        rw [Direct.ivars, hr]
      rw [hivars, fieldIvars_eq types p access (hns n List.mem_cons_self) hr,
        List.filter_cons_of_pos (by simp [hr]), List.flatMap_cons, List.filterMap_append]
      refine List.rel_append ?_ (hrest access)
      rw [List.forall₂_map_right_iff, List.forall₂_same]
      exact fun x _ => ⟨rfl, rfl, _, rfl⟩
    · rw [List.filter_cons_of_neg (by simp [hr])]
      unfold Direct.ivars
      split
      · exact hrest _
      · next h => exact absurd h hr
      · exact hrest _

theorem ivarsAt_declare (types : TypeReader) (policy : Policy) (owner : String) (isProtocol : Bool)
    {ns : List Node} (hns : ∀ n ∈ ns, n.Read) (s : Setting) :
    List.Forall₂ (DeclaresIvar owner)
      (((ns.filter (·.rule ∈ [Rule.instanceVariables])).flatMap memberFields).filterMap
        (readField? types))
      ((s.along isProtocol ns).flatMap (Direct.ivarsAt types policy owner)) := by
  induction ns generalizing s with
  | nil => exact .nil
  | cons n ns ih =>
    have hrest := ih (fun x hx => hns x (List.mem_cons_of_mem _ hx)) (s.after isProtocol n)
    have hn := hns n List.mem_cons_self
    rw [Setting.along, List.flatMap_cons, Direct.ivarsAt]
    by_cases hr : n.rule = .instanceVariables
    · rw [List.filter_cons_of_pos (by simp [hr]), if_pos hr, List.flatMap_cons,
        List.filterMap_append]
      refine List.rel_append ?_ hrest
      rw [memberFields, occurrences_instanceVariables hn hr]
      refine ivars_declare types (s.place policy owner) .privateAccess fun x hx => ?_
      obtain ⟨c, hc, hx⟩ := List.mem_flatMap.mp hx
      exact ((hn.part hc).1.part hx).1
    · rw [List.filter_cons_of_neg (by simp [hr]), if_neg hr]
      exact hrest

theorem propertiesAt_declare (types : TypeReader) (policy : Policy) (owner : String)
    (isProtocol : Bool) {ns : List Node} (hns : ∀ n ∈ ns, n.Read) (s : Setting) :
    List.Forall₂ (fun x v => DeclaresProperty owner x.1 x.2 v)
      ((ns.filter (·.rule ∈ [Rule.propertyDeclaration])).flatMap fun p =>
        (((memberFields p).take 1).filterMap (readField? types)).map fun x => (p, x))
      ((s.along isProtocol ns).flatMap (Direct.propertiesAt types policy owner)) := by
  induction ns generalizing s with
  | nil => exact .nil
  | cons n ns ih =>
    have hrest := ih (fun x hx => hns x (List.mem_cons_of_mem _ hx)) (s.after isProtocol n)
    rw [Setting.along, List.flatMap_cons, Direct.propertiesAt]
    by_cases hr : n.rule = .propertyDeclaration
    · rw [List.filter_cons_of_pos (by simp [hr]), if_pos hr, List.flatMap_cons,
        property?_eq types _ _ (hns n List.mem_cons_self) hr]
      refine List.rel_append ?_ hrest
      cases memberFields n with
      | nil => exact .nil
      | cons x xs =>
        cases hx : readField? types x with
        | none => simp [hx]
        | some y =>
          simp only [List.take_succ_cons, List.take_zero, List.filterMap_cons, hx,
            List.filterMap_nil, List.map_cons, List.map_nil, List.head?_cons, Option.bind_some,
            Option.map_some, Option.toList_some]
          exact .cons ⟨rfl, rfl, _, rfl, rfl⟩ .nil
    · rw [List.filter_cons_of_neg (by simp [hr]), if_neg hr]
      exact hrest

theorem typeAt_declares_fields (types : TypeReader) (policy : Policy) (x : Bool × Node)
    (hn : x.2.Read)
    (hr : x.2.rule ∈ typeRules) : DeclaresFields types x.2 (Direct.typeAt types policy x) := by
  obtain ⟨name, hname⟩ := exists_name? hn hr
  have hread : ∀ m ∈ Direct.members x.2, m.Read := fun m hm => (read_of_mem_members hn hr hm).1
  rw [Direct.typeAt, hname, Option.getD_some, Direct.typeOf, Direct.foldl_gather]
  constructor
  · rw [Direct.occurrences_members hn hr (by decide)]
    exact ivarsAt_declare types policy name _ hread _
  · rw [Direct.occurrences_members hn hr (by decide)]
    exact propertiesAt_declare types policy name _ hread _

/-- Every type of a header has the fields that its parse node declares. -/
theorem ofOutline_declares_fields (maxDepth : Nat) (policy : Policy) {text : String} {tree : Node}
    (h : Header.parse text = .ok tree) :
    ∃ o, Header.outlineWithin maxDepth text = .ok o ∧
      List.Forall₂ (DeclaresFields (.respelled maxDepth)) (tree.occurrences typeRules)
        (ofOutline policy o) := by
  obtain ⟨o, houtline, ho⟩ := exists_outlineWithin h maxDepth
  refine ⟨o, houtline, ?_⟩
  have hdeclares := forall₂_ofOutline h ho policy
    (R := fun x d => DeclaresFields (.respelled maxDepth) x.2 d)
    (typeAt_declares_fields (.respelled maxDepth) policy)
  rw [← Direct.map_snd_audits_types false, List.forall₂_map_left_iff]
  refine hdeclares.imp fun x d hd => ⟨?_, ?_⟩
  · have hivars := hd.ivars
    rw [TypeDeclaration.unsourced, List.forall₂_map_right_iff] at hivars
    exact hivars.imp fun y v hv => ⟨hv.name, hv.ownedBy, hv.type⟩
  · have hproperties := hd.properties
    rw [TypeDeclaration.unsourced, List.forall₂_map_right_iff] at hproperties
    exact hproperties.imp fun y v hv => ⟨hv.name, hv.ownedBy, hv.type⟩

def getterHeader : String :=
  "@interface A \x7b\n  int *x, y[2];\n\x7d\n@property (getter=isOn) int on;\n@end"

/-- A class with two variables in one field declaration and a property with a getter of its own. -/
theorem ofOutline_declares_fields_getter : ∃ tree o,
    Header.parse getterHeader = .ok tree ∧ Header.outlineWithin 32 getterHeader = .ok o ∧
      List.Forall₂ (DeclaresFields (.respelled 32)) (tree.occurrences typeRules) (ofOutline {} o) ∧
      (ofOutline {} o).map (fun d => d.ivars.map (·.name)) = [["x", "y"]] ∧
      (ofOutline {} o).map (fun d => d.properties.map (·.name)) = [["isOn"]] := by
  have hok : (Header.parse getterHeader).isOk = true := by decide +kernel
  obtain ⟨tree, h⟩ := Header.exists_parse hok
  obtain ⟨o, ho, hdeclares⟩ := ofOutline_declares_fields 32 {} h
  have hnames : (Header.outlineWithin 32 getterHeader).toOption.map
        (fun o => ((ofOutline {} o).map (fun d => d.ivars.map (·.name)),
          (ofOutline {} o).map (fun d => d.properties.map (·.name)))) =
      some ([["x", "y"]], [["isOn"]]) := by
    decide +kernel
  rw [ho] at hnames
  obtain ⟨hivars, hproperties⟩ := Prod.mk.inj (Option.some.inj hnames)
  exact ⟨tree, o, h, ho, hdeclares, hivars, hproperties⟩

def declaratorsHeader : String := "@interface A\n@property int a, b;\n@end"

/-- The second declarator of a property has a name and a type, but it gives no property. -/
theorem property_second_declarator_lost : ∃ tree o,
    Header.parse declaratorsHeader = .ok tree ∧ Header.outlineWithin 32 declaratorsHeader = .ok o ∧
      (tree.occurrences [.propertyDeclaration]).map (fun p =>
        ((memberFields p).filterMap (readField? (.respelled 32))).map Prod.fst) = [["a", "b"]] ∧
      (ofOutline {} o).map (fun d => d.properties.map (·.name)) = [["a"]] := by
  have hok : (Header.parse declaratorsHeader).isOk = true := by decide +kernel
  obtain ⟨tree, h⟩ := Header.exists_parse hok
  obtain ⟨o, ho, -⟩ := exists_outlineWithin h 32
  have hdeclared : (Header.parse declaratorsHeader).toOption.map
      (fun tree => (tree.occurrences [.propertyDeclaration]).map fun p =>
        ((memberFields p).filterMap (readField? (.respelled 32))).map Prod.fst) =
      some [["a", "b"]] := by
    decide +kernel
  have hnames : (Header.outlineWithin 32 declaratorsHeader).toOption.map
      (fun o => (ofOutline {} o).map fun d => d.properties.map (·.name)) = some [["a"]] := by
    decide +kernel
  rw [h] at hdeclared
  rw [ho] at hnames
  exact ⟨tree, o, h, ho, Option.some.inj hdeclared, Option.some.inj hnames⟩

end HeaderBridge.Declaration
