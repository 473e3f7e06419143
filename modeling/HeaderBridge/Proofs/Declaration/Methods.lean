import HeaderBridge.Proofs.Declaration.Settings

/-! # Every type and every method

A header declares one type for each interface, category and protocol in it, and
a type has one method for each method declaration whose selector has a name.
-/

namespace HeaderBridge.Declaration

open Grammar Outline

/-! ### Selectors in a parse tree -/

def unaryName? (m : Node) : Option String :=
  (m.child? .methodSelector).bind (·.childText? .selector)

def selectorPieces (m : Node) : List Node :=
  ((m.child? .methodSelector).map (·.childrenOf .keywordDeclarator)).getD []

def hasName (m : Node) : Bool :=
  (unaryName? m).isSome || ((selectorPieces m).head?.bind (·.childText? .selector)).isSome

/-- The text of a selector whose pieces have the given labels. -/
def joinLabels (ls : List (Option String)) : String :=
  String.join (ls.map fun l => l.getD "" ++ ":")

def selectorText (m : Node) : String :=
  (unaryName? m).getD (joinLabels ((selectorPieces m).map (·.childText? .selector)))

/-- A method is declared by a parse node. -/
structure DeclaresMethod (m : Node) (x : Method) : Prop where
  isStatic : x.member.isStatic = (m.childText? .methodKind = some "+" : Bool)
  selector : x.selector = selectorText m
  names : x.signature.parameters.map (fun p => some p.name) =
    (selectorPieces m).map (·.childText? .identifier)
  colons : x.signature.parameters.length = x.selector.toList.count ':'
  recomputed : x.signature.isInitializer = false → x.signature.parameters ≠ [] →
    x.selector =
      x.signature.name ++ ":" ++ joinLabels (x.signature.parameters.tail.map (·.label))

structure DeclaresType (n : Node) (d : TypeDeclaration) : Prop where
  name : Direct.name? n = some d.name
  kind : d.kind = Direct.typeKind n
  superclass : d.superclass = n.childText? .superclassName
  methods : List.Forall₂ DeclaresMethod ((n.occurrences [.methodDeclaration]).filter hasName)
    d.methods

variable {n : Node}

/-! ### Words of selectors -/

theorem count_colon_selector (hn : n.Read) (hr : n.rule = .selector) :
    n.text.toList.count ':' = 0 := by
  refine List.count_eq_zero.mpr fun hc => ?_
  have hident := hn.isIdentChar (by rw [hr]; decide) _ hc
  exact absurd hident (by decide)

theorem selector_alternatives (hn : n.Read) (hr : n.rule = .methodSelector) :
    (∃ x, n.child? .selector = some x ∧ n.childrenOf .keywordDeclarator = []) ∨
      n.child? .selector = none := by
  obtain ⟨x, c, hsolid, -, hread⟩ := hn.body (by rw [hr]; rfl)
  rw [hr] at hread
  let keywords : Expr := .seq (.many1 (.call .keywordDeclarator)) (.opt (.call .variadicMarker))
  have hbody : Rule.methodSelector.body = .choice keywords (.call .selector) := rfl
  rw [hbody, Expr.reading_choice] at hread
  cases hk : keywords.reading .spaced (x ++ c) with
  | some y =>
    right
    rw [hk] at hread
    obtain rfl := Option.some.inj hread
    refine List.find?_eq_none.mpr fun m hm => ?_
    have hrule := (Expr.reading_nodes hsolid hk m.unplaced (List.mem_map_of_mem hm)).2
    have hne : ∀ r ∈ keywords.seen.flatMap Rule.leaves, r ≠ .selector := by decide
    rw [Node.rule_unplaced] at hrule
    simpa using hne _ hrule
  | none =>
    left
    rw [hk, Option.none_or, Expr.reading_call] at hread
    obtain ⟨t, ms, hms⟩ := Rule.reading_singleton (.inl rfl) hread
    obtain ⟨m, hm, hrule⟩ := List.map_eq_singleton_iff.mp hms
    have hmr : m.rule = .selector := by
      rw [← Node.rule_unplaced, hrule]
      rfl
    refine ⟨m, ?_, ?_⟩
    · simp [Node.child?, hm, hmr]
    · simp [Node.childrenOf, hm, hmr]

/-! ### The pieces of a selector -/

def SpellsPiece (k : Node) (piece : Piece) : Prop :=
  k.childText? .selector = piece.label ∧ k.childText? .identifier = some piece.name

theorem forall₂_pieces (types : TypeReader) {ks : List Node}
    (hks : ∀ k ∈ ks, k.Read ∧ k.rule = .keywordDeclarator) :
    List.Forall₂ (fun k piece => Direct.piece? types k = some piece) ks
      (ks.filterMap (Direct.piece? types)) := by
  induction ks with
  | nil => exact .nil
  | cons k ks ih =>
    obtain ⟨hk, hr⟩ := hks k List.mem_cons_self
    obtain ⟨x, hx⟩ := hk.exists_child? (by rw [hr]; rfl) .identifier (by rw [hr]; rfl)
    have hname : k.childText? .identifier = some x.text := by rw [Node.childText?, hx]; rfl
    obtain ⟨piece, hpiece⟩ : ∃ piece, Direct.piece? types k = some piece := by
      rw [Direct.piece?, hname]
      exact ⟨_, rfl⟩
    rw [List.filterMap_cons, hpiece]
    exact .cons hpiece (ih fun m hm => hks m (List.mem_cons_of_mem _ hm))

theorem spellsPiece_pieces (types : TypeReader) {ks : List Node}
    (hks : ∀ k ∈ ks, k.Read ∧ k.rule = .keywordDeclarator) :
    List.Forall₂ SpellsPiece ks (ks.filterMap (Direct.piece? types)) := by
  refine (forall₂_pieces types hks).imp fun k piece hpiece => ?_
  obtain ⟨name, hname, rfl⟩ := Option.map_eq_some_iff.mp hpiece
  exact ⟨rfl, hname⟩

section Pieces

variable {ks : List Node} {pieces : List Piece} (h : List.Forall₂ SpellsPiece ks pieces)
include h

theorem map_label_pieces : ks.map (·.childText? .selector) = pieces.map (·.label) := by
  induction h with
  | nil => rfl
  | cons hk _ ih => rw [List.map_cons, List.map_cons, hk.1, ih]

theorem map_name_pieces :
    ks.map (·.childText? .identifier) = pieces.map (fun q => some q.name) := by
  induction h with
  | nil => rfl
  | cons hk _ ih => rw [List.map_cons, List.map_cons, hk.2, ih]

theorem head_label_pieces :
    ks.head?.bind (·.childText? .selector) = pieces.head?.bind (·.label) := by
  cases h with
  | nil => rfl
  | cons hk _ => exact hk.1

end Pieces

theorem joinLabels_cons (l : Option String) (ls : List (Option String)) :
    joinLabels (l :: ls) = l.getD "" ++ ":" ++ joinLabels ls := by
  rw [joinLabels, List.map_cons, String.join_cons, joinLabels]

theorem count_colon_join {ls : List (Option String)}
    (h : ∀ l ∈ ls, ∀ s ∈ l, s.toList.count ':' = 0) :
    (joinLabels ls).toList.count ':' = ls.length := by
  induction ls with
  | nil => rfl
  | cons l ls ih =>
    have hl : (l.getD "").toList.count ':' = 0 := by
      cases l with
      | none => rfl
      | some s => exact h _ List.mem_cons_self s rfl
    rw [joinLabels_cons, String.toList_append, String.toList_append,
      List.count_append, List.count_append, hl, ih fun l hl => h l (List.mem_cons_of_mem _ hl),
      List.length_cons, Nat.zero_add, Nat.add_comm]
    rfl

theorem parametersOf_names (p : Place) (first : Option String) (pieces : List Piece) :
    (parametersOf p first pieces).map (fun q => some q.name) =
      pieces.map (fun piece => some piece.name) := by
  cases pieces with
  | nil => rfl
  | cons piece pieces => simp [parametersOf, parameterOf]

theorem parametersOf_labels (p : Place) (first : Option String) (pieces : List Piece) :
    (parametersOf p first pieces).tail.map (·.label) = pieces.tail.map (·.label) := by
  cases pieces with
  | nil => rfl
  | cons piece pieces => simp [parametersOf, parameterOf]

/-! ### Methods -/

theorem nameAndSelector?_eq (unary : Option String) (pieces : List Piece) :
    nameAndSelector? unary pieces = (unary.or (pieces.head?.bind (·.label))).map fun name =>
      (name, unary.getD (joinLabels (pieces.map (·.label)))) := by
  cases unary with
  | some name => rfl
  | none =>
    cases pieces with
    | nil => rfl
    | cons piece pieces =>
      obtain ⟨label, name, type, nullability⟩ := piece
      rw [joinLabels, List.map_map]
      cases label <;> rfl

section MethodFrom

variable {p : Place} {member : Member} {isOptional isClassMethod : Bool} {unary : Option String}
  {pieces : List Piece} {type : Option DeclaredType} {nullability : Option Nullability} {x : Method}

theorem isSome_methodFrom :
    (methodFrom p member isOptional isClassMethod unary pieces type nullability).isSome =
      (unary.isSome || (pieces.head?.bind (·.label)).isSome) := by
  rw [methodFrom, nameAndSelector?_eq, Option.isSome_map, Option.isSome_map, Option.isSome_or]

variable (h : methodFrom p member isOptional isClassMethod unary pieces type nullability = some x)
include h

theorem isStatic_methodFrom : x.member.isStatic = isClassMethod := by
  obtain ⟨⟨name, selector⟩, -, rfl⟩ := Option.map_eq_some_iff.mp h
  rfl

theorem selector_methodFrom : x.selector = unary.getD (joinLabels (pieces.map (·.label))) := by
  rw [methodFrom, nameAndSelector?_eq, Option.map_map] at h
  obtain ⟨name, -, rfl⟩ := Option.map_eq_some_iff.mp h
  rfl

theorem parameters_methodFrom : ∃ first, x.signature.parameters = parametersOf p first pieces := by
  obtain ⟨⟨name, selector⟩, -, rfl⟩ := Option.map_eq_some_iff.mp h
  dsimp only
  split
  · exact ⟨_, rfl⟩
  · exact ⟨_, rfl⟩

theorem name_methodFrom (hinit : x.signature.isInitializer = false) :
    unary.or (pieces.head?.bind (·.label)) = some x.signature.name := by
  rw [methodFrom, nameAndSelector?_eq, Option.map_map] at h
  obtain ⟨name, hname, rfl⟩ := Option.map_eq_some_iff.mp h
  rw [hname]
  dsimp only [Function.comp] at hinit ⊢
  split at hinit
  · next hyes => exact absurd hinit (by simp [hyes])
  · next hno => rw [if_neg hno]

theorem result_methodFrom (hinit : x.signature.isInitializer = false) :
    x.signature.result =
      Lowering.swiftType { p.context with nullability } (type.getD defaultType) := by
  obtain ⟨⟨name, selector⟩, -, rfl⟩ := Option.map_eq_some_iff.mp h
  dsimp only at hinit ⊢
  split at hinit
  · next hyes => exact absurd hinit (by simp [hyes])
  · next hno => rw [if_neg hno]

/-- The selector of a method with parameters can be told from its name and the labels. -/
theorem selector_eq_of_parameters (hunary : unary = none)
    (hinit : x.signature.isInitializer = false) (hne : x.signature.parameters ≠ []) : x.selector =
      x.signature.name ++ ":" ++ joinLabels (x.signature.parameters.tail.map (·.label)) := by
  have hname := name_methodFrom h hinit
  obtain ⟨first, hparameters⟩ := parameters_methodFrom h
  rw [selector_methodFrom h, hunary, hparameters, parametersOf_labels]
  rw [hparameters] at hne
  cases pieces with
  | nil => exact absurd rfl hne
  | cons piece pieces =>
    rw [hunary] at hname
    have hlabel : piece.label = some x.signature.name := hname
    rw [Option.getD_none, List.map_cons, joinLabels_cons, hlabel]
    rfl

end MethodFrom

/-- A method declaration gives a method exactly if its selector has a name. -/
theorem method?_declares (types : TypeReader) (p : Place) (isOptional : Bool) (hn : n.Read)
    (hr : n.rule = .methodDeclaration) :
    (Direct.method? types p isOptional n).isSome = hasName n ∧
      ∀ x, Direct.method? types p isOptional n = some x → DeclaresMethod n x := by
  have hkind : n.rule.kind = .branch := by rw [hr]; rfl
  obtain ⟨s, hs⟩ := hn.exists_child? hkind .methodSelector (by rw [hr]; rfl)
  obtain ⟨hread, hrule, -⟩ := hn.of_child? hs
  have hks : ∀ k ∈ s.childrenOf .keywordDeclarator, k.Read ∧ k.rule = .keywordDeclarator := by
    intro k hk
    obtain ⟨hmem, hkr⟩ := Node.mem_childrenOf.mp hk
    exact ⟨(hread.part hmem).1, hkr⟩
  have hspells := spellsPiece_pieces types hks
  have hunary : unaryName? n = s.childText? .selector := by rw [unaryName?, hs]; rfl
  have hpieces : selectorPieces n = s.childrenOf .keywordDeclarator := by
    rw [selectorPieces, hs]
    rfl
  rw [Direct.method?, hs, Option.bind_some]
  constructor
  · rw [isSome_methodFrom, hasName, hunary, hpieces, head_label_pieces hspells]
  · intro x hx
    obtain ⟨first, hparameters⟩ := parameters_methodFrom hx
    have hselector : x.selector = selectorText n := by
      rw [selector_methodFrom hx, selectorText, hunary, hpieces, map_label_pieces hspells]
    have hnames : x.signature.parameters.map (fun q => some q.name) =
        (selectorPieces n).map (·.childText? .identifier) := by
      rw [hpieces, map_name_pieces hspells, hparameters, parametersOf_names]
    have hlength : x.signature.parameters.length = (selectorPieces n).length := by
      simpa using congrArg List.length hnames
    -- a selector is a word without a colon, or each of its pieces ends with one
    rcases selector_alternatives hread hrule with ⟨y, hy, hnil⟩ | hnone
    · have hzero : x.signature.parameters.length = 0 := by rw [hlength, hpieces, hnil]; rfl
      refine ⟨isStatic_methodFrom hx, hselector, hnames, ?_, ?_⟩
      · obtain ⟨hmem, hyr⟩ := Node.child?_eq_some hy
        have hword : x.selector = y.text := by
          rw [hselector, selectorText, hunary, Node.childText?, hy]
          rfl
        rw [hzero, hword, count_colon_selector (hread.part hmem).1 hyr]
      · exact fun _ hne => absurd (List.length_eq_zero_iff.mp hzero) hne
    · have hno : s.childText? .selector = none := by rw [Node.childText?, hnone]; rfl
      refine ⟨isStatic_methodFrom hx, hselector, hnames, ?_, selector_eq_of_parameters hx hno⟩
      rw [hselector, selectorText, hunary, hno, Option.getD_none, hpieces, count_colon_join,
        hlength, hpieces, List.length_map]
      intro l hl t ht
      obtain ⟨k, hk, rfl⟩ := List.mem_map.mp hl
      obtain ⟨y, hy, rfl⟩ := Option.map_eq_some_iff.mp ht
      obtain ⟨hmem, hyr⟩ := Node.child?_eq_some hy
      exact count_colon_selector ((hks k hk).1.part hmem).1 hyr

/-! ### Types -/

theorem methods_declare (types : TypeReader) (policy : Policy) (owner : String) (isProtocol : Bool)
    {ns : List Node} (hns : ∀ n ∈ ns, n.Read) (s : Setting) :
    List.Forall₂ DeclaresMethod
      ((ns.filter (·.rule ∈ [Rule.methodDeclaration])).filter hasName)
      ((s.along isProtocol ns).flatMap (Direct.methodsAt types policy owner)) := by
  induction ns generalizing s with
  | nil => exact .nil
  | cons n ns ih =>
    have hrest := ih (fun x hx => hns x (List.mem_cons_of_mem _ hx)) (s.after isProtocol n)
    rw [Setting.along, List.flatMap_cons, Direct.methodsAt]
    by_cases hr : n.rule = .methodDeclaration
    · obtain ⟨hsome, hdeclares⟩ := method?_declares types (s.place policy owner) s.optionalSection
        (hns n List.mem_cons_self) hr
      rw [List.filter_cons_of_pos (by simp [hr]), if_pos hr]
      cases hm : Direct.method? types (s.place policy owner) s.optionalSection n with
      | none =>
        rw [List.filter_cons_of_neg (by simp [← hsome, hm])]
        exact hrest
      | some x =>
        rw [List.filter_cons_of_pos (by simp [← hsome, hm])]
        exact .cons (hdeclares x hm) hrest
    · rw [List.filter_cons_of_neg (by simp [hr]), if_neg hr]
      exact hrest

theorem typeAt_declares (types : TypeReader) (policy : Policy) (x : Bool × Node) (hn : x.2.Read)
    (hr : x.2.rule ∈ typeRules) : DeclaresType x.2 (Direct.typeAt types policy x) := by
  obtain ⟨name, hname⟩ := exists_name? hn hr
  rw [Direct.typeAt, hname, Option.getD_some, Direct.typeOf, Direct.foldl_gather]
  refine ⟨hname, rfl, rfl, ?_⟩
  rw [Direct.occurrences_members hn hr (by decide)]
  exact methods_declare types policy name _ (fun m hm => (read_of_mem_members hn hr hm).1) _

/-- Every type of a header is declared, in source order and with all its methods that have a
name. -/
theorem ofOutline_declares (maxDepth : Nat) (policy : Policy) {text : String} {tree : Node}
    (h : Header.parse text = .ok tree) :
    ∃ o, Header.outlineWithin maxDepth text = .ok o ∧
      List.Forall₂ DeclaresType (tree.occurrences typeRules) (ofOutline policy o) := by
  obtain ⟨o, houtline, ho⟩ := exists_outlineWithin h maxDepth
  refine ⟨o, houtline, ?_⟩
  have hdeclares := forall₂_ofOutline h ho policy (R := fun x d => DeclaresType x.2 d)
    (typeAt_declares (.respelled maxDepth) policy)
  rw [← Direct.map_snd_audits_types false, List.forall₂_map_left_iff]
  refine hdeclares.imp fun x d hd => ⟨hd.name, hd.kind, hd.superclass, ?_⟩
  have hmethods := hd.methods
  rw [TypeDeclaration.unsourced, List.forall₂_map_right_iff] at hmethods
  exact hmethods.imp fun m y hy => ⟨hy.isStatic, hy.selector, hy.names, hy.colons, hy.recomputed⟩

def namelessHeader : String := "@interface A (C)\n- (int)f:(int)x :(int)y;\n- :(int)z;\n+ g;\n@end"

/-- A category with three methods, the second of which has no name. -/
theorem ofOutline_declares_category : ∃ tree o,
    Header.parse namelessHeader = .ok tree ∧ Header.outlineWithin 32 namelessHeader = .ok o ∧
      List.Forall₂ DeclaresType (tree.occurrences typeRules) (ofOutline {} o) ∧
      (ofOutline {} o).map (fun d => d.methods.map (·.selector)) = [["f::", "g"]] := by
  have hok : (Header.parse namelessHeader).isOk = true := by decide +kernel
  obtain ⟨tree, h⟩ := Header.exists_parse hok
  obtain ⟨o, ho, hdeclares⟩ := ofOutline_declares 32 {} h
  refine ⟨tree, o, h, ho, hdeclares, ?_⟩
  have hselectors : (Header.outlineWithin 32 namelessHeader).toOption.map
        (fun o => (ofOutline {} o).map (fun d => d.methods.map (·.selector))) =
      some [["f::", "g"]] := by
    decide +kernel
  rw [ho] at hselectors
  exact Option.some.inj hselectors

end HeaderBridge.Declaration
