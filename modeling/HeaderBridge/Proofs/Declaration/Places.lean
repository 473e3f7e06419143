import HeaderBridge.Proofs.Declaration.Direct

/-! # Where declarations stand

The declarations of a header follow from the rules and the texts of its parse
nodes. Where in the header the nodes stand makes no difference.
-/

namespace HeaderBridge

open Grammar Outline

/-! ### Types -/

/-- A reader of types for which it makes no difference where nodes stand. -/
structure Outline.TypeReader.Placeless (types : TypeReader) : Prop where
  typeName (n : Node) : types.typeName n.unplaced = types.typeName n
  declaration (specifiers declarator : Node) :
    types.declaration specifiers.unplaced declarator.unplaced =
      types.declaration specifiers declarator

theorem Outline.TypeReader.respelled_placeless (maxDepth : Nat) :
    (TypeReader.respelled maxDepth).Placeless where
  typeName n := by
    simp only [respelled, typeNameSpelling?, Node.childText?_unplaced]
  declaration specifiers declarator := by
    have hwords : specifierWords? specifiers.unplaced = specifierWords? specifiers := by
      simp only [specifierWords?, Node.child?_unplaced, Node.children_unplaced, List.map_map,
        Option.bind_eq_bind, Option.bind_map, Function.comp_def, Node.rule_unplaced,
        Node.text_unplaced]
    have htail : ∀ direct : Node, declaratorTail direct.unplaced = declaratorTail direct := by
      intro direct
      simp only [declaratorTail, Node.child?_unplaced, Node.childText?_unplaced,
        Node.childrenOf_unplaced, List.map_map, Function.comp_def, Node.text_unplaced]
      cases direct.child? .blockParameters with
      | none => rfl
      | some parameters => simp [Node.text_unplaced]
    simp only [respelled, declarationSpelling?, hwords, Node.childText?_unplaced,
      Node.child?_unplaced, Option.bind_eq_bind, Option.bind_map, Function.comp_def, htail]

theorem Outline.annotations_unplaced (n : Node) :
    annotations n.unplaced = (annotations n).map Node.unplaced := by
  obtain ⟨r, s, t, ns⟩ := n
  rw [Node.unplaced_mk, annotations, annotations, annotationsAll_eq, annotationsAll_eq,
    List.flatMap_map, List.flatMap_congr fun x _ => annotations_unplaced x]
  by_cases hr : r = .nullabilitySpecifier
  · rw [if_pos hr, if_pos hr, List.map_singleton, Node.unplaced_mk]
  · rw [if_neg hr, if_neg hr]
    by_cases hl : ListsTypes r
    · rw [if_pos hl, if_pos hl, List.map_nil]
    · rw [if_neg hl, if_neg hl, List.map_flatMap]

namespace Declaration.Direct

variable {types : TypeReader} (htypes : types.Placeless) (p : Place)
include htypes

/-! ### Members -/

theorem type?_unplaced (n : Node) : type? types n.unplaced = type? types n := by
  simp only [type?, Node.child?_unplaced, Option.bind_map, Function.comp_def, htypes.typeName]

omit htypes in
theorem nullability?_unplaced (n : Node) : nullability? n.unplaced = nullability? n := by
  simp only [nullability?, annotations_unplaced, List.map_map, Function.comp_def,
    Node.text_unplaced]

theorem piece?_unplaced (n : Node) : piece? types n.unplaced = piece? types n := by
  simp only [piece?, Node.childText?_unplaced, Node.child?_unplaced, Option.bind_map,
    Function.comp_def, type?_unplaced htypes, nullability?_unplaced]

theorem method?_unplaced (isOptional : Bool) (n : Node) :
    method? types p isOptional n.unplaced = method? types p isOptional n := by
  simp only [method?, Node.childText?_unplaced, Node.child?_unplaced, Option.bind_map,
    Function.comp_def, Node.childrenOf_unplaced, List.filterMap_map, type?_unplaced htypes,
    nullability?_unplaced, piece?_unplaced htypes]

omit htypes in
theorem modifiers_unplaced (n : Node) : modifiers n.unplaced = modifiers n := by
  have hmodifier : ∀ m : Node, modifierOf? m.unplaced = modifierOf? m := by
    intro m
    simp only [modifierOf?, Node.childText?_unplaced, Node.child?_unplaced]
    cases m.child? .getterKeyword <;> cases m.child? .setterKeyword <;> rfl
  simp only [modifiers, Node.child?_unplaced, Option.map_map, Function.comp_def,
    Node.childrenOf_unplaced, List.filterMap_map, hmodifier]

omit htypes in
theorem declaratorName?_unplaced (n : Node) :
    DeclaredType.declaratorName? n.unplaced = DeclaredType.declaratorName? n := by
  simp only [DeclaredType.declaratorName?, Node.child?_unplaced, Option.bind_eq_bind,
    Option.bind_map, Function.comp_def, Node.childText?_unplaced]

omit htypes in
theorem propertyParts?_unplaced (n : Node) : propertyParts? n.unplaced =
    (propertyParts? n).map fun z => (z.1.unplaced, z.2.1.unplaced, z.2.2.unplaced) := by
  simp only [propertyParts?, Node.child?_unplaced, Option.bind_eq_bind, Option.bind_map,
    Function.comp_def, Option.map_bind]
  rfl

theorem property?_unplaced (isOptional : Bool) (n : Node) :
    property? types p isOptional n.unplaced = property? types p isOptional n := by
  simp only [property?, propertyParts?_unplaced, Option.bind_eq_bind, Option.bind_map,
    Function.comp_def, declaratorName?_unplaced, htypes.declaration, modifiers_unplaced]

theorem fieldIvars_unplaced (access : AccessLevel) (n : Node) :
    fieldIvars types p access n.unplaced = fieldIvars types p access n := by
  have hivar : ∀ specifiers field : Node, ivar? types p access specifiers.unplaced field.unplaced =
      ivar? types p access specifiers field := by
    intro specifiers field
    simp only [ivar?, Node.child?_unplaced, Option.bind_eq_bind, Option.bind_map,
      Function.comp_def, declaratorName?_unplaced, htypes.declaration]
  simp only [fieldIvars, Node.child?_unplaced]
  cases n.child? .specifierQualifierList with
  | none => rfl
  | some specifiers =>
    cases n.child? .fieldDeclaratorList with
    | none => rfl
    | some list =>
      simp only [Option.map_some, Node.childrenOf_unplaced, List.filterMap_map, Function.comp_def,
        hivar]

theorem ivars_unplaced (access : AccessLevel) (ns : List Node) :
    ivars types p access (ns.map Node.unplaced) = ivars types p access ns := by
  induction ns generalizing access with
  | nil => rfl
  | cons n ns ih =>
    simp only [List.map_cons, ivars, Node.rule_unplaced, Node.text_unplaced, ih,
      fieldIvars_unplaced htypes]

/-! ### Types -/

omit htypes in
theorem name?_unplaced (n : Node) : name? n.unplaced = name? n := by
  simp only [name?, Node.rule_unplaced, Node.childText?_unplaced, Node.child?_unplaced,
    Option.bind_map, Function.comp_def]

omit htypes in
theorem members_unplaced (n : Node) : members n.unplaced = (members n).map Node.unplaced := by
  simp only [members, Node.children_unplaced, List.flatMap_map, List.map_flatMap,
    Node.rule_unplaced]
  refine List.flatMap_congr fun c _ => ?_
  by_cases hlist : c.rule = .interfaceDeclarationList ∨ c.rule = .protocolDeclarationList
  · simp only [if_pos hlist]
  · simp only [if_neg hlist, List.map_singleton]

theorem gather_unplaced (policy : Policy) (s : Gathering) (n : Node) :
    gather types policy s n.unplaced = gather types policy s n := by
  have hentries : ivarEntries n.unplaced = (ivarEntries n).map Node.unplaced := by
    simp only [ivarEntries, Node.children_unplaced, List.flatMap_map, List.map_flatMap]
  have hnames : (n.childrenOf .protocolName).map (Node.text ∘ Node.unplaced) =
      (n.childrenOf .protocolName).map Node.text :=
    List.map_congr_left fun m _ => Node.text_unplaced m
  simp only [gather, Node.rule_unplaced, Node.text_unplaced, Node.childrenOf_unplaced, List.map_map,
    hnames, hentries, ivars_unplaced htypes, property?_unplaced htypes, method?_unplaced htypes]

theorem addType_unplaced (policy : Policy) (s : List TypeDeclaration × Bool) (n : Node) :
    addType types policy s n.unplaced = addType types policy s n := by
  have htype : ∀ name, typeOf types policy s.2 n.unplaced name =
      typeOf types policy s.2 n name := by
    intro name
    simp only [typeOf, typeKind, Node.rule_unplaced, Node.childText?_unplaced, members_unplaced,
      List.foldl_map, gather_unplaced htypes]
  simp only [addType, Node.rule_unplaced, Node.text_unplaced, name?_unplaced, htype]

/-- The declarations of a header do not depend on where its parts stand. -/
theorem ofTree_unplaced (policy : Policy) (tree : Node) :
    ofTree types policy tree.unplaced = ofTree types policy tree := by
  simp only [ofTree, Node.children_unplaced, List.foldl_map, addType_unplaced htypes]

end Declaration.Direct

end HeaderBridge
