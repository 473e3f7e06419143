import HeaderBridge.Proofs.Declaration.Methods
import HeaderBridge.Proofs.DeclaredType.OwnNullability

/-! # The nullability of method types

The types of a method are lowered with the first nullability word in their
parentheses. That is the word of the type itself only if no inner layer of the
type has one in front of it.
-/

namespace HeaderBridge.Declaration

open Grammar Outline DeclaredType

/-- Whether the first nullability word of a method type says the same as the words of the type
as a whole; an array has no nullability of its own. -/
def firstWordIsOwn (n : Node) : Bool :=
  (n.child? .typeName).all fun t => !hidesDeclarator t &&
    (spellsArray t || (ownWords t).findSome? Nullability.ofSpelling? = Direct.nullability? n)

/-- A Swift type is what a method type is lowered to: the first nullability word decides, and where
it is the type's own, the type alone does. -/
structure LowersTo (ctx : Lowering.Context) (types : TypeReader) (n : Option Node) (s : SwiftType) :
    Prop where
  first : s = Lowering.swiftType { ctx with nullability := n.bind Direct.nullability? }
    ((n.bind (Direct.type? types)).getD defaultType)
  own : ∀ k t, n = some k → Direct.type? types k = some t → firstWordIsOwn k = true →
    s = Lowering.swiftType ctx t

/-- A method has the types that a method declaration spells; its parameters may escape. -/
structure LowersMethod (types : TypeReader) (policy : Policy) (owner : String) (x : Bool × Node)
    (m : Method) : Prop where
  selector : m.selector = selectorText x.2
  parameters : List.Forall₂ (fun k q => ∃ s,
      LowersTo (Place.mk policy owner x.1).context types (k.child? .methodType) s ∧
        q.type = s.addAttribute .escaping)
    (selectorPieces x.2) m.signature.parameters
  result : m.signature.isInitializer = false →
    LowersTo (Place.mk policy owner x.1).context types (x.2.child? .methodType) m.signature.result

/-! ### Method types -/

theorem swiftType_own (ctx : Lowering.Context) (hctx : ctx.nullability = none)
    {external : Option Nullability} {t : DeclaredType}
    (h : Lowering.isReference t = false ∨ t.nullability = external) :
    Lowering.swiftType { ctx with nullability := external } t = Lowering.swiftType ctx t := by
  rw [Lowering.swiftType, Lowering.swiftType, Lowering.finish, Lowering.finish, hctx]
  rcases h with h | rfl
  · rw [h]
    rfl
  · rw [Option.or_self, Option.none_or]

/-- Method types are lowered with their first nullability word. -/
theorem lowersTo_first (ctx : Lowering.Context) (hctx : ctx.nullability = none) (d : Nat)
    {n : Option Node} (hn : ∀ k, n = some k → k.Read ∧ k.rule = .methodType) :
    LowersTo ctx (.respelled d) n (Lowering.swiftType
      { ctx with nullability := n.bind Direct.nullability? }
      ((n.bind (Direct.type? (.respelled d))).getD defaultType)) := by
  refine ⟨rfl, ?_⟩
  rintro k t rfl ht hown
  obtain ⟨hk, -⟩ := hn k rfl
  rw [Option.bind_some, Option.bind_some, ht, Option.getD_some]
  rw [Direct.type?] at ht
  cases hname : k.child? .typeName with
  | none => simp [hname] at ht
  | some m =>
    obtain ⟨hm, hmr, -⟩ := hk.of_child? hname
    simp only [firstWordIsOwn, hname, Option.all_some, Bool.and_eq_true, Bool.not_eq_true',
      Bool.or_eq_true, decide_eq_true_eq] at hown
    rw [hname, Option.bind_some] at ht
    have hdirect := readWithin_typeNameSpelling hm hmr hown.1 d
    have hnullability := nullability_readTypeName hm hmr (hdirect.symm.trans ht)
    refine swiftType_own ctx hctx ?_
    by_cases harray : spellsArray m = true
    · rw [if_pos harray] at hnullability
      exact .inl hnullability
    · rw [if_neg harray] at hnullability
      exact .inr (hnullability.trans (hown.2.resolve_left harray))

/-! ### Methods -/

theorem methodType_of_child {n k : Node} (hn : n.Read)
    (hk : n.child? .methodType = some k) : k.Read ∧ k.rule = .methodType := by
  obtain ⟨hread, hrule, -⟩ := hn.of_child? hk
  exact ⟨hread, hrule⟩

theorem parametersOf_lower (d : Nat) (p : Place) (first : Option String) {ks : List Node}
    (hks : ∀ k ∈ ks, k.Read ∧ k.rule = .keywordDeclarator) :
    List.Forall₂ (fun k q => ∃ s, LowersTo p.context (.respelled d) (k.child? .methodType) s ∧
        q.type = s.addAttribute .escaping)
      ks (parametersOf p first (ks.filterMap (Direct.piece? (.respelled d)))) := by
  have hone : ∀ (k : Node) (piece : Piece) (label : Option String),
      (k.Read ∧ k.rule = .keywordDeclarator) ∧ Direct.piece? (.respelled d) k = some piece →
      ∃ s, LowersTo p.context (.respelled d) (k.child? .methodType) s ∧
        (parameterOf p piece label).type = s.addAttribute .escaping := by
    rintro k piece label ⟨⟨hk, -⟩, hpiece⟩
    obtain ⟨name, -, rfl⟩ := Option.map_eq_some_iff.mp hpiece
    exact ⟨_, lowersTo_first p.context rfl d fun m hm => methodType_of_child hk hm, rfl⟩
  have hpieces := (List.forall₂_and_left _ _).mpr ⟨hks, forall₂_pieces (.respelled d) hks⟩
  generalize ks.filterMap (Direct.piece? (.respelled d)) = pieces at hpieces ⊢
  cases hpieces with
  | nil => exact .nil
  | cons hk hrest =>
    exact .cons (hone _ _ _ hk) (List.forall₂_map_right_iff.mpr (hrest.imp fun k q => hone k q _))

theorem method?_lowers (d : Nat) (p : Place) (isOptional : Bool) {n : Node} (hn : n.Read)
    (hr : n.rule = .methodDeclaration) {m : Method}
    (hm : Direct.method? (.respelled d) p isOptional n = some m) :
    LowersMethod (.respelled d) p.policy p.owner (p.audited, n) m := by
  have hkind : n.rule.kind = .branch := by rw [hr]; rfl
  obtain ⟨s, hs⟩ := hn.exists_child? hkind .methodSelector (by rw [hr]; rfl)
  obtain ⟨hread, -⟩ := hn.of_child? hs
  have hks : ∀ k ∈ s.childrenOf .keywordDeclarator, k.Read ∧ k.rule = .keywordDeclarator := by
    intro k hk
    obtain ⟨hmem, hkr⟩ := Node.mem_childrenOf.mp hk
    exact ⟨(hread.part hmem).1, hkr⟩
  have hselector := ((method?_declares (.respelled d) p isOptional hn hr).2 m hm).selector
  rw [Direct.method?, hs, Option.bind_some] at hm
  refine ⟨hselector, ?_, ?_⟩
  · obtain ⟨first, hparameters⟩ := parameters_methodFrom hm
    have hpieces : selectorPieces n = s.childrenOf .keywordDeclarator := by
      rw [selectorPieces, hs]
      rfl
    rw [hparameters, hpieces]
    exact parametersOf_lower d p first hks
  · intro hinit
    rw [result_methodFrom hm hinit]
    exact lowersTo_first p.context rfl d fun k hk => methodType_of_child hn hk

theorem methods_lower (d : Nat) (policy : Policy) (owner : String) (isProtocol : Bool)
    {ns : List Node} (hns : ∀ n ∈ ns, n.Read) (s : Setting) :
    List.Forall₂ (LowersMethod (.respelled d) policy owner)
      ((Direct.audits s.audited
        (ns.filter (·.rule ∈ [Rule.nonnullAuditMarker, Rule.methodDeclaration]))).filter
          (hasName ·.2))
      ((s.along isProtocol ns).flatMap (Direct.methodsAt (.respelled d) policy owner)) := by
  induction ns generalizing s with
  | nil => exact .nil
  | cons n ns ih =>
    have hn := hns n List.mem_cons_self
    have hrest := ih (fun x hx => hns x (List.mem_cons_of_mem _ hx)) (s.after isProtocol n)
    rw [Direct.audited_after hn] at hrest
    rw [Setting.along, List.flatMap_cons, Direct.methodsAt]
    by_cases hmarker : n.rule = .nonnullAuditMarker
    · rw [if_pos hmarker] at hrest
      rw [List.filter_cons_of_pos (by simp [hmarker]), Direct.audits, if_pos hmarker,
        if_neg (by simp [hmarker])]
      exact hrest
    · rw [if_neg hmarker] at hrest
      by_cases hr : n.rule = .methodDeclaration
      · have hsome :=
          (method?_declares (.respelled d) (s.place policy owner) s.optionalSection hn hr).1
        rw [List.filter_cons_of_pos (by simp [hr]), if_pos hr, Direct.audits, if_neg hmarker]
        cases hm : Direct.method? (.respelled d) (s.place policy owner) s.optionalSection n with
        | none =>
          rw [List.filter_cons_of_neg (by simp [← hsome, hm])]
          exact hrest
        | some x =>
          rw [List.filter_cons_of_pos (by simp [← hsome, hm])]
          exact .cons (method?_lowers d _ _ hn hr hm) hrest
      · rw [List.filter_cons_of_neg (by simp [hr, hmarker]), if_neg hr]
        exact hrest

/-- The types of every method are lowered with the first nullability word in their parentheses, and
as the types alone are where that word is their own. -/
theorem ofOutline_lowers_methods (maxDepth : Nat) (policy : Policy) {text : String} {tree : Node}
    (h : Header.parse text = .ok tree) :
    ∃ o, Header.outlineWithin maxDepth text = .ok o ∧
      List.Forall₂ (fun x d => List.Forall₂ (LowersMethod (.respelled maxDepth) policy d.name)
          ((Direct.audits x.1 (x.2.occurrences [.nonnullAuditMarker, .methodDeclaration])).filter
            (hasName ·.2)) d.methods)
        (Direct.audits false (tree.occurrences Direct.auditedTypes)) (ofOutline policy o) := by
  obtain ⟨o, houtline, ho⟩ := exists_outlineWithin h maxDepth
  refine ⟨o, houtline, ?_⟩
  have hlowers := forall₂_ofOutline h ho policy (R := fun x d =>
      List.Forall₂ (LowersMethod (.respelled maxDepth) policy d.name)
        ((Direct.audits x.1 (x.2.occurrences [.nonnullAuditMarker, .methodDeclaration])).filter
          (hasName ·.2)) d.methods) ?_
  · refine hlowers.imp fun x d hd => ?_
    rw [TypeDeclaration.unsourced, List.forall₂_map_right_iff] at hd
    exact hd.imp fun y m hm => ⟨hm.selector, hm.parameters, hm.result⟩
  · intro x hx hr
    obtain ⟨name, hname⟩ := exists_name? hx hr
    rw [Direct.typeAt, hname, Option.getD_some, Direct.typeOf, Direct.foldl_gather,
      Direct.occurrences_members hx hr (by decide)]
    exact methods_lower maxDepth policy name _ (fun m hm => (read_of_mem_members hx hr hm).1)
      ⟨x.1, false⟩

/-- The Swift types of the parameters of methods, as they are printed. -/
def parameterTypes (ds : List TypeDeclaration) : List String :=
  ds.flatMap fun d => d.methods.flatMap fun m => m.signature.parameters.map (·.type.render)

def ownWordsHeader : String :=
  "@protocol A\n- f:(id (^ _Nullable)(id _Nonnull))x g:(int * * _Nullable)y;\n@end"

/-- A block and a pointer to a pointer whose first nullability words are their own. -/
theorem ofOutline_lowers_methods_own_words : ∃ tree o,
    Header.parse ownWordsHeader = .ok tree ∧ Header.outlineWithin 32 ownWordsHeader = .ok o ∧
    (tree.occurrences [.methodType]).map firstWordIsOwn = [true, true] ∧
    List.Forall₂ (fun x d => List.Forall₂ (LowersMethod (.respelled 32) {} d.name)
        ((Direct.audits x.1 (x.2.occurrences [.nonnullAuditMarker, .methodDeclaration])).filter
          (hasName ·.2)) d.methods)
      (Direct.audits false (tree.occurrences Direct.auditedTypes)) (ofOutline {} o) := by
  have hok : (Header.parse ownWordsHeader).isOk = true := by decide +kernel
  obtain ⟨tree, h⟩ := Header.exists_parse hok
  obtain ⟨o, ho, hlowers⟩ := ofOutline_lowers_methods 32 {} h
  have hown : (Header.parse ownWordsHeader).toOption.map
        (fun tree => (tree.occurrences [.methodType]).map firstWordIsOwn) = some [true, true] := by
    decide +kernel
  rw [h] at hown
  exact ⟨tree, o, h, ho, Option.some.inj hown, hlowers⟩

def innerWordHeader : String :=
  "@interface A\n- (void)foo:(NSString * _Nullable * _Nonnull)err;\n@end"

/-- A word behind an inner star makes a parameter optional whose own word says that it is not. -/
theorem inner_word_decides_parameter : ∃ tree o,
    Header.parse innerWordHeader = .ok tree ∧ Header.outlineWithin 32 innerWordHeader = .ok o ∧
    parameterTypes (ofOutline {} o) = ["AutoreleasingUnsafeMutablePointer<String?>?"] ∧
    ((tree.occurrences [.keywordDeclarator]).filterMap (Direct.piece? (.respelled 32))).map
        (fun piece => (piece.type.map
          fun t => (Lowering.swiftType { instanceType := some "A" } t).render)) =
      [some "AutoreleasingUnsafeMutablePointer<String?>"] := by
  have hok : (Header.parse innerWordHeader).isOk = true := by decide +kernel
  obtain ⟨tree, h⟩ := Header.exists_parse hok
  obtain ⟨o, ho, -⟩ := exists_outlineWithin h 32
  have hparameters : (Header.outlineWithin 32 innerWordHeader).toOption.map
        (fun o => parameterTypes (ofOutline {} o)) =
      some ["AutoreleasingUnsafeMutablePointer<String?>?"] := by
    decide +kernel
  have hown : (Header.parse innerWordHeader).toOption.map
        (fun tree => ((tree.occurrences [.keywordDeclarator]).filterMap
          (Direct.piece? (.respelled 32))).map (fun piece => (piece.type.map
            fun t => (Lowering.swiftType { instanceType := some "A" } t).render))) =
      some [some "AutoreleasingUnsafeMutablePointer<String?>"] := by
    decide +kernel
  rw [ho] at hparameters
  rw [h] at hown
  exact ⟨tree, o, h, ho, Option.some.inj hparameters, Option.some.inj hown⟩

end HeaderBridge.Declaration
