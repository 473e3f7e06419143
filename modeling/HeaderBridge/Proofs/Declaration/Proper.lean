import HeaderBridge.Proofs.Declaration.AssumeNonnull
import HeaderBridge.Proofs.Declaration.Methods
import HeaderBridge.Proofs.DeclaredType.Proper
import HeaderBridge.Proofs.Outline.Wording

/-! # Proper declarations

A declaration is proper if its names are plain and its types are proper. All
declarations of a header are, where types may be unwrapped implicitly. They are also
where this is not allowed, if the whole header is taken to be audited and none of its
words leaves a nullability open.
-/

namespace HeaderBridge

open Grammar Grammar.Expr Outline Text
open Nullability (isClosed settles)

/-! ### Declarations -/

/-- The texts that stand with a member are plain. -/
structure Member.Plain (m : Member) : Prop where
  attributes : ∀ a ∈ m.attributes, a = "@objc"
  annotations : ∀ a ∈ m.annotations, isPlain a = true

structure Ivar.Proper (unwraps : Bool) (v : Ivar) : Prop where
  member : v.member.Plain
  name : isPlain v.name = true
  type : v.storage.type.isProper isPlain unwraps = true

structure Property.Proper (unwraps : Bool) (p : Property) : Prop where
  member : p.member.Plain
  name : isPlain p.name = true
  type : p.storage.type.isProper isPlain unwraps = true

structure Parameter.Proper (unwraps : Bool) (p : Parameter) : Prop where
  label : p.label.all isPlain = true
  name : isPlain p.name = true
  type : p.type.isProper isPlain unwraps = true

structure Signature.Proper (unwraps : Bool) (s : Signature) : Prop where
  name : isPlain s.name = true
  initializer : s.isInitializer = true → s.name = "init"
  parameters : ∀ p ∈ s.parameters, p.Proper unwraps
  result : s.result.isProper isPlain unwraps = true

structure Method.Proper (unwraps : Bool) (m : Method) : Prop where
  member : m.member.Plain
  signature : m.signature.Proper unwraps

/-- The types of a declaration are proper, and its names are plain. -/
structure TypeDeclaration.Proper (unwraps : Bool) (d : TypeDeclaration) : Prop where
  category : ∀ c, d.kind = .extensionType (some c) → isPlain c = true
  name : isPlain d.name = true
  superclass : d.superclass.all isPlain = true
  protocols : ∀ p ∈ d.protocols, isPlain p = true
  ivars : ∀ v ∈ d.ivars, v.Proper unwraps
  properties : ∀ p ∈ d.properties, p.Proper unwraps
  methods : ∀ m ∈ d.methods, m.Proper unwraps

variable {unwraps : Bool}

/-! ### Spellings of types -/

theorem Text.infix_trimEnd (s : String) : (trimEnd s).toList <:+: s.toList := by
  have hsuffix : dropBlanks s.toList.reverse <:+ s.toList.reverse := List.dropWhile_suffix _
  rw [← List.reverse_prefix, List.reverse_reverse] at hsuffix
  rw [trimEnd, String.toList_ofList]
  exact hsuffix.isInfix

theorem Text.infix_trim (s : String) : (trim s).toList <:+: s.toList := by
  refine (infix_trimEnd (trimStart s)).trans ?_
  rw [trimStart, String.toList_ofList]
  exact (List.dropWhile_suffix _).isInfix

namespace Settled

theorem trim {s : String} (h : Settled unwraps s.toList) : Settled unwraps (Text.trim s).toList :=
  h.mono (infix_trim s)

theorem intercalate {ss : List String} (h : ∀ s ∈ ss, Settled unwraps s.toList) :
    Settled unwraps (" ".intercalate ss).toList := by
  induction ss with
  | nil => exact .nil
  | cons s ss ih =>
    have hs := h s List.mem_cons_self
    have hss := ih fun t ht => h t (List.mem_cons_of_mem _ ht)
    cases ss with
    | nil => rwa [String.intercalate_singleton]
    | cons t ts =>
      rw [String.intercalate_cons_cons, String.toList_append, String.toList_append,
        List.append_assoc]
      exact hs.append_cons (by decide) hss

end Settled

namespace Outline

theorem exists_bracket {n : Node} (h : n.Settled unwraps) (hr : n.rule = .declaratorSuffix) :
    ∃ y, n.text.toList = '[' :: y ∧ Settled unwraps y := by
  obtain ⟨cs, c, -, hread⟩ := h.read
  rw [hr] at hread
  obtain ⟨x, l, hx, hsuffix, -⟩ := suffix_reading hread
  have htext := Rule.reading_text (.inl rfl) hread
  rw [Node.text_unplaced, hx, List.append_left_inj] at htext
  obtain ⟨y, hy⟩ := hsuffix.exists_cons
  refine ⟨y, htext ▸ hy, h.text.mono ?_⟩
  rw [← htext, hy]
  exact (List.suffix_cons '[' y).isInfix

theorem settled_typeNameSpelling {n : Node} (hn : n.Settled unwraps) {s : String}
    (h : typeNameSpelling? n = some s) : Settled unwraps s.toList := by
  simp only [typeNameSpelling?, Option.bind_eq_bind, Option.bind_eq_some_iff] at h
  obtain ⟨specifiers, hspecifiers, h⟩ := h
  obtain rfl := Option.some.inj h
  have hfirst := hn.settled_childText .specifierQualifierList
  rw [hspecifiers] at hfirst
  refine Settled.mono ?_ (infix_trimEnd _)
  rw [String.toList_append, String.toList_append, List.append_assoc]
  exact hfirst.trim.append_cons (by decide) (hn.settled_childText .abstractDeclarator).trim

theorem settled_append_suffixes {ns : List Node}
    (hns : ∀ n ∈ ns, n.Settled unwraps ∧ n.rule = .declaratorSuffix) {cs : List Char}
    (hcs : Settled unwraps cs) :
    Settled unwraps (cs ++ (String.join (ns.map fun n => Text.trim n.text)).toList) := by
  induction ns generalizing cs with
  | nil => simpa [String.toList_join] using hcs
  | cons n ns ih =>
    obtain ⟨hn, hr⟩ := hns n List.mem_cons_self
    obtain ⟨y, hy, hsettled⟩ := exists_bracket hn hr
    rw [List.map_cons, String.join_cons, String.toList_append, ← List.append_assoc,
      hn.read.trim_suffix hr, hy]
    exact ih (fun x hx => hns x (List.mem_cons_of_mem _ hx)) (hcs.append_cons (by decide) hsettled)

theorem settled_append_tail {n : Node} (hn : n.Settled unwraps) {cs : List Char}
    (hcs : Settled unwraps cs) : Settled unwraps (cs ++ (declaratorTail n).toList) := by
  unfold declaratorTail
  cases hparameters : n.child? .blockParameters with
  | none => exact settled_append_suffixes (fun x hx => hn.childrenOf hx) hcs
  | some parameters =>
    have hword := hn.settled_childText .nullabilitySpecifier
    have hlist := (hn.child? hparameters).text.trim
    have hcaret :
        Settled unwraps ('(' :: '^' :: ((n.childText? .nullabilitySpecifier).getD "").toList) :=
      Settled.nil.append_cons (by decide) (Settled.nil.append_cons (by decide) hword)
    simp only [String.toList_append, List.append_assoc]
    rw [← List.append_assoc, ← List.append_assoc]
    refine Settled.append_cons (by decide) ?_ hlist
    rw [List.append_assoc]
    exact hcs.append_cons (by decide) hcaret

theorem settled_declarationSpelling {specifiers declarator : Node} (hs : specifiers.Settled unwraps)
    (hd : declarator.Settled unwraps) {s : String}
    (h : declarationSpelling? specifiers declarator = some s) : Settled unwraps s.toList := by
  simp only [declarationSpelling?, specifierWords?, Option.bind_eq_bind,
    Option.bind_eq_some_iff] at h
  obtain ⟨words, ⟨-, -, hwords⟩, direct, hdirect, h⟩ := h
  obtain rfl := Option.some.inj hwords
  obtain rfl := Option.some.inj h
  rw [String.toList_append]
  refine settled_append_tail (hd.child? hdirect) (Settled.intercalate fun w hw => ?_)
  rcases List.mem_append.mp hw with hw | hw
  · obtain ⟨part, hpart, rfl⟩ := List.mem_map.mp hw
    split
    · exact (hs.part hpart).text.trim
    · exact (hs.part hpart).text
  · obtain ⟨t, ht, rfl⟩ := Option.map_eq_some_iff.mp (Option.mem_toList.mp hw)
    have htext := hd.settled_childText .pointer
    rw [ht] at htext
    exact htext.trim

/-- A reader of types that are proper where nothing is left open. -/
structure TypeReader.Proper (unwraps : Bool) (types : TypeReader) : Prop where
  typeName : ∀ {n : Node} {t : DeclaredType}, n.Settled unwraps → types.typeName n = some t →
    t.isProper unwraps = true
  declaration : ∀ {specifiers declarator : Node} {t : DeclaredType}, specifiers.Settled unwraps →
    declarator.Settled unwraps → types.declaration specifiers declarator = some t →
      t.isProper unwraps = true

theorem TypeReader.respelled_proper (maxDepth : Nat) :
    (TypeReader.respelled maxDepth).Proper unwraps := by
  constructor
  · intro n t hn h
    obtain ⟨s, hs, h⟩ := Option.bind_eq_some_iff.mp h
    exact DeclaredType.isProper_readWithin (settled_typeNameSpelling hn hs) h
  · intro specifiers declarator t hspecifiers hdeclarator h
    obtain ⟨s, hs, h⟩ := Option.bind_eq_some_iff.mp h
    exact DeclaredType.isProper_readWithin
      (settled_declarationSpelling hspecifiers hdeclarator hs) h

theorem settled_of_mem_annotations : ∀ {n : Node}, n.Settled unwraps →
    ∀ x ∈ annotations n, x.Settled unwraps
  | .mk r s t ns, hn, x, hx => by
    rw [annotations, annotationsAll_eq] at hx
    split at hx
    · rw [List.mem_singleton.mp hx]
      exact hn
    · split at hx
      · cases hx
      · obtain ⟨m, hm, hx⟩ := List.mem_flatMap.mp hx
        exact settled_of_mem_annotations (hn.part hm) x hx

end Outline

/-! ### Members -/

namespace Declaration

open DeclaredType (isPlain_of_isIdent)

structure Piece.Proper (unwraps : Bool) (q : Piece) : Prop where
  label : q.label.all isPlain = true
  name : isPlain q.name = true
  type : q.type.all (DeclaredType.isProper unwraps) = true
  nullability : q.nullability.all (isClosed unwraps) = true

theorem Place.plain_plainMember (p : Place) (access : AccessLevel) :
    (p.plainMember access).Plain := by
  refine ⟨fun a ha => ?_, fun a ha => by cases ha⟩
  rw [plainMember] at ha
  split at ha
  · exact List.mem_singleton.mp ha
  · cases ha

theorem isIdentChar_toLower {c : Char} (h : isIdentChar c = true) :
    isIdentChar c.toLower = true := by
  have hall : ∀ n < 123, isIdentChar (Char.ofNat n) = true →
      isIdentChar (Char.ofNat n).toLower = true := by decide
  have hrange := toNat_of_isIdentChar h
  have hc := hall c.toNat (by omega)
  rw [Char.ofNat_toNat] at hc
  exact hc h

theorem isPlain_initializerLabel? {name : String} (h : IsIdent name.toList) :
    (initializerLabel? name).all isPlain = true := by
  unfold initializerLabel? afterStart?
  split
  · next c cs hcs =>
    rw [Option.ite_none_right_eq_some, Option.some.injEq] at hcs
    have hchars : ∀ x ∈ c :: cs, isIdentChar x = true := fun x hx =>
      h.chars x (List.mem_of_mem_drop (hcs.2 ▸ hx))
    rw [List.forall_mem_cons] at hchars
    refine isPlain_of_isIdentChar ?_
    rw [String.toList_ofList, List.forall_mem_cons]
    exact ⟨isIdentChar_toLower hchars.1, hchars.2⟩
  · rfl

section Members

variable {p : Place} (hp : p.context.toSetting.Proper unwraps)
include hp

theorem isProper_memberType {type : Option DeclaredType}
    (htype : type.all (DeclaredType.isProper unwraps) = true) {nullability : Option Nullability}
    (hnullability : nullability.all (isClosed unwraps) = true) :
    (Lowering.swiftType { p.context with nullability } (type.getD defaultType)).isProper isPlain
      unwraps = true := by
  refine Lowering.isProper_swiftType ?_ hnullability ?_
  · exact hp
  · cases type with
    | none => rfl
    | some t => exact htype

theorem proper_parameterOf {q : Piece} (hq : q.Proper unwraps) {label : Option String}
    (hlabel : label.all isPlain = true) : (parameterOf p q label).Proper unwraps :=
  ⟨hlabel, hq.name,
    SwiftType.isProper_addAttribute _ (isProper_memberType hp hq.type hq.nullability)⟩

theorem proper_parametersOf {first : Option String} (hfirst : first.all isPlain = true)
    {qs : List Piece} (hqs : ∀ q ∈ qs, q.Proper unwraps) :
    ∀ x ∈ parametersOf p first qs, x.Proper unwraps := by
  cases qs with
  | nil => simp [parametersOf]
  | cons q qs =>
    intro x hx
    rcases List.mem_cons.mp hx with rfl | hx
    · exact proper_parameterOf hp (hqs q List.mem_cons_self) hfirst
    · obtain ⟨r, hr, rfl⟩ := List.mem_map.mp hx
      have hr := hqs r (List.mem_cons_of_mem _ hr)
      exact proper_parameterOf hp hr hr.label

theorem proper_methodFrom {member : Member} (hmember : member.Plain)
    {isOptional isClassMethod : Bool}
    {unary : Option String} (hunary : ∀ w ∈ unary, IsIdent w.toList) {qs : List Piece}
    (hqs : ∀ q ∈ qs, q.Proper unwraps) (hlabels : ∀ q ∈ qs, ∀ w ∈ q.label, IsIdent w.toList)
    {type : Option DeclaredType} (htype : type.all (DeclaredType.isProper unwraps) = true)
    {nullability : Option Nullability} (hnullability : nullability.all (isClosed unwraps) = true)
    {m : Method}
    (h : methodFrom p member isOptional isClassMethod unary qs type nullability = some m) :
    m.Proper unwraps := by
  rw [methodFrom, nameAndSelector?_eq, Option.map_map, Option.map_eq_some_iff] at h
  obtain ⟨name, hname, rfl⟩ := h
  have hname : IsIdent name.toList := by
    cases unary with
    | some word =>
      obtain rfl := Option.some.inj hname
      exact hunary _ rfl
    | none =>
      obtain ⟨q, hq, hlabel⟩ := Option.bind_eq_some_iff.mp hname
      exact hlabels q (List.mem_of_head? hq) name hlabel
  refine ⟨⟨hmember.attributes, hmember.annotations⟩, ?_⟩
  dsimp only [Function.comp]
  split
  · exact ⟨show isPlain "init" = true by decide, fun _ => rfl,
      proper_parametersOf hp (isPlain_initializerLabel? hname) hqs, rfl⟩
  · next hinit =>
    exact ⟨isPlain_of_isIdent hname, fun h => absurd h hinit, proper_parametersOf hp rfl hqs,
      isProper_memberType hp htype hnullability⟩

theorem proper_propertyFrom {member : Member} (hmember : member.Plain) {isOptional : Bool}
    {name : String} (hname : isPlain name = true) {type : DeclaredType}
    (htype : type.isProper unwraps = true) {modifiers : List Modifier}
    (hplain : ∀ m ∈ modifiers, isPlain m.text = true)
    (hwords : ∀ m ∈ modifiers, ∀ w ∈ m.word?, settles unwraps w = true) :
    (propertyFrom p member isOptional name type modifiers).Proper unwraps := by
  have hgetter : ∀ g ∈ modifiers.findSome? Modifier.getter?, isPlain g = true := by
    intro g hg
    obtain ⟨m, hm, hmg⟩ := List.exists_of_findSome?_eq_some hg
    cases m with
    | getter s => exact Option.some.inj hmg ▸ hplain _ hm
    | _ => cases hmg
  have hsetter : ∀ g ∈ modifiers.findSome? Modifier.setter?, isPlain g = true := by
    intro g hg
    obtain ⟨m, hm, hmg⟩ := List.exists_of_findSome?_eq_some hg
    cases m with
    | setter s => exact Option.some.inj hmg ▸ hplain _ hm
    | _ => cases hmg
  refine ⟨⟨hmember.attributes, fun a ha => ?_⟩, ?_, ?_⟩
  · rcases List.mem_append.mp ha with ha | ha
    · obtain ⟨g, -, rfl⟩ := Option.map_eq_some_iff.mp (Option.mem_toList.mp ha)
      rw [isPlain_append, isPlain_append, hname]
      decide
    · obtain ⟨g, hg, rfl⟩ := Option.map_eq_some_iff.mp (Option.mem_toList.mp ha)
      rw [isPlain_append, isPlain_append, hsetter g hg]
      decide
  · dsimp only [propertyFrom]
    cases hg : modifiers.findSome? Modifier.getter? with
    | none => exact hname
    | some g => exact hgetter g hg
  · refine Lowering.isProper_lower ?_ (Nullability.isClosed_findSome? fun w hw => ?_) htype
    · exact hp
    · obtain ⟨m, hm, hw⟩ := List.mem_filterMap.mp hw
      exact hwords m hm w hw

end Members

namespace Direct

variable {types : TypeReader} (htypes : types.Proper unwraps) {n : Node} (hn : n.Settled unwraps)
include hn

theorem isClosed_nullability? : (nullability? n).all (isClosed unwraps) = true := by
  refine Nullability.isClosed_findSome? fun w hw => ?_
  obtain ⟨x, hx, rfl⟩ := List.mem_map.mp hw
  exact (settled_of_mem_annotations hn x hx).text.word

theorem proper_modifiers : ∀ m ∈ modifiers n,
    isPlain m.text = true ∧ ∀ w ∈ m.word?, settles unwraps w = true := by
  intro m hm
  unfold modifiers at hm
  cases hlist : n.child? .propertyAttributesList with
  | none => simp [hlist] at hm
  | some list =>
    rw [hlist, Option.map_some, Option.getD_some] at hm
    obtain ⟨a, ha, hm⟩ := List.mem_filterMap.mp hm
    have ha := ((hn.child? hlist).childrenOf ha).1
    refine ⟨isPlain_of_isIdent (isIdent_modifierOf? ha.read hm), fun w hw => ?_⟩
    unfold modifierOf? at hm
    split at hm
    · obtain ⟨name, -, rfl⟩ := Option.map_eq_some_iff.mp hm
      cases hw
    · obtain ⟨name, -, rfl⟩ := Option.map_eq_some_iff.mp hm
      cases hw
    · obtain ⟨word, hword, rfl⟩ := Option.map_eq_some_iff.mp hm
      obtain rfl := Option.some.inj hw
      rcases Option.or_eq_some_iff.mp hword with hword | ⟨-, hword⟩
      · exact ha.settles_childText? hword
      · exact ha.settles_childText? hword

include htypes

theorem isProper_type? : (type? types n).all (DeclaredType.isProper unwraps) = true := by
  rw [Option.all_eq_true]
  intro t ht
  obtain ⟨x, hx, ht⟩ := Option.bind_eq_some_iff.mp ht
  exact htypes.typeName (hn.child? hx) ht

theorem proper_methodType :
    ((n.child? .methodType).bind (type? types)).all (DeclaredType.isProper unwraps) = true ∧
      ((n.child? .methodType).bind nullability?).all (isClosed unwraps) = true := by
  cases hm : n.child? .methodType with
  | none => exact ⟨rfl, rfl⟩
  | some x =>
    have hx := hn.child? hm
    exact ⟨isProper_type? htypes hx, isClosed_nullability? hx⟩

theorem proper_piece? {q : Piece} (h : piece? types n = some q) :
    q.Proper unwraps ∧ ∀ w ∈ q.label, IsIdent w.toList := by
  obtain ⟨name, hname, rfl⟩ := Option.map_eq_some_iff.mp h
  obtain ⟨htype, hnullability⟩ := proper_methodType htypes hn
  have hlabel : ∀ w ∈ n.childText? .selector, IsIdent w.toList := fun w hw =>
    isIdent_childText? hn.read (by decide) hw
  exact ⟨⟨(Option.all_eq_true _ _).mpr fun w hw => isPlain_of_isIdent (hlabel w hw),
    isPlain_of_isIdent (isIdent_childText? hn.read (by decide) hname), htype, hnullability⟩, hlabel⟩

variable {p : Place} (hp : p.context.toSetting.Proper unwraps)
include hp

theorem proper_method? {isOptional : Bool} {m : Method}
    (h : method? types p isOptional n = some m) : m.Proper unwraps := by
  obtain ⟨selector, hselector, h⟩ := Option.bind_eq_some_iff.mp h
  have hselector := hn.child? hselector
  obtain ⟨htype, hnullability⟩ := proper_methodType htypes hn
  have hpieces : ∀ q ∈ (selector.childrenOf .keywordDeclarator).filterMap (piece? types),
      q.Proper unwraps ∧ ∀ w ∈ q.label, IsIdent w.toList := by
    intro q hq
    obtain ⟨x, hx, hq⟩ := List.mem_filterMap.mp hq
    exact proper_piece? htypes (hselector.childrenOf hx).1 hq
  exact proper_methodFrom hp (p.plain_plainMember _)
    (fun w hw => isIdent_childText? hselector.read (by decide) hw) (fun q hq => (hpieces q hq).1)
    (fun q hq => (hpieces q hq).2) htype hnullability h

theorem proper_property? {isOptional : Bool} {x : Property}
    (h : property? types p isOptional n = some x) : x.Proper unwraps := by
  simp only [property?, propertyParts?, Option.bind_eq_bind, Option.bind_eq_some_iff,
    Option.pure_def, Option.some.injEq] at h
  obtain ⟨_, ⟨field, hfield, specifiers, hspecifiers, list, hlist, first, hfirst, declarator,
    hdeclarator, rfl⟩, name, hname, type, htype, rfl⟩ := h
  have hfield := hn.child? hfield
  have hdeclarator := ((hfield.child? hlist).child? hfirst).child? hdeclarator
  exact proper_propertyFrom hp (p.plain_plainMember _)
    (isPlain_of_isIdent (isIdent_declaratorName? hdeclarator.read hname))
    (htypes.declaration (hfield.child? hspecifiers) hdeclarator htype)
    (fun m hm => (proper_modifiers hn m hm).1) (fun m hm => (proper_modifiers hn m hm).2)

theorem proper_fieldIvars {access : AccessLevel} :
    ∀ v ∈ fieldIvars types p access n, v.Proper unwraps := by
  intro v hv
  unfold fieldIvars at hv
  split at hv
  · next specifiers list hspecifiers hlist =>
    obtain ⟨field, hfield, hv⟩ := List.mem_filterMap.mp hv
    simp only [ivar?, Option.bind_eq_bind, Option.bind_eq_some_iff, Option.pure_def,
      Option.some.injEq] at hv
    obtain ⟨declarator, hdeclarator, name, hname, type, htype, rfl⟩ := hv
    have hdeclarator := ((hn.child? hlist).childrenOf hfield).1.child? hdeclarator
    exact ⟨p.plain_plainMember _,
      isPlain_of_isIdent (isIdent_declaratorName? hdeclarator.read hname),
      Lowering.isProper_lower hp rfl (htypes.declaration (hn.child? hspecifiers) hdeclarator htype)⟩
  · cases hv

omit hn in
theorem proper_ivars {ns : List Node} (hns : ∀ n ∈ ns, n.Settled unwraps) (access : AccessLevel) :
    ∀ v ∈ ivars types p access ns, v.Proper unwraps := by
  induction ns generalizing access with
  | nil => simp [ivars]
  | cons n ns ih =>
    have hrest := ih fun x hx => hns x (List.mem_cons_of_mem _ hx)
    intro v hv
    unfold ivars at hv
    split at hv
    · exact hrest _ v hv
    · rcases List.mem_append.mp hv with hv | hv
      · exact proper_fieldIvars htypes (hns n List.mem_cons_self) hp v hv
      · exact hrest _ v hv
    · exact hrest _ v hv

/-! ### Types -/

omit hn hp

omit htypes in
theorem settled_members (hn : n.Settled unwraps) : ∀ x ∈ members n, x.Settled unwraps := by
  intro x hx
  obtain ⟨c, hc, hx⟩ := List.mem_flatMap.mp hx
  have hc := hn.part hc
  split at hx
  · exact hc.part hx
  · rwa [List.mem_singleton.mp hx]

variable {policy : Policy} (hpolicy : (unwraps || policy.assumeNonnull) = true)
include hpolicy

theorem proper_gather {g : Gathering} (hg : g.declaration.Proper unwraps) (hn : n.Settled unwraps) :
    (gather types policy g n).declaration.Proper unwraps := by
  have hplace : (Place.context ⟨policy, g.declaration.name, g.audited⟩).toSetting.Proper
      unwraps := by
    refine ⟨?_, hg.name⟩
    rw [Place.context, ← Bool.or_assoc, hpolicy]
    rfl
  have hkeyword : (((Keyword.ofSpelling? n.text).map (afterKeyword g)).getD g).declaration =
      g.declaration := by
    cases Keyword.ofSpelling? n.text with
    | none => rfl
    | some k => cases k <;> rfl
  unfold gather
  split
  · refine { hg with protocols := fun p hp =>
      (List.mem_append.mp hp).elim (hg.protocols p) fun hp => ?_ }
    obtain ⟨name, hname, rfl⟩ := List.mem_map.mp hp
    obtain ⟨x, hx, rfl⟩ := List.mem_map.mp hname
    obtain ⟨hx, hr⟩ := hn.childrenOf hx
    exact Lowering.isPlain_protocolName (isPlain_of_isIdent (hx.read.isIdent (by rw [hr]; decide)))
  · refine { hg with ivars := fun v hv => (List.mem_append.mp hv).elim (hg.ivars v) fun hv => ?_ }
    refine proper_ivars htypes hplace (fun x hx => ?_) _ v hv
    obtain ⟨c, hc, hx⟩ := List.mem_flatMap.mp hx
    exact (hn.part hc).part hx
  · refine { hg with properties := fun x hx =>
      (List.mem_append.mp hx).elim (hg.properties x) fun hx => ?_ }
    exact proper_property? htypes hn hplace (Option.mem_toList.mp hx)
  · refine { hg with methods := fun m hm =>
      (List.mem_append.mp hm).elim (hg.methods m) fun hm => ?_ }
    exact proper_method? htypes hn hplace (Option.mem_toList.mp hm)
  · exact hkeyword ▸ hg
  · exact hkeyword ▸ hg
  · exact hg

theorem proper_foldl_gather {g : Gathering} (hg : g.declaration.Proper unwraps) {ns : List Node}
    (hns : ∀ n ∈ ns, n.Settled unwraps) :
    (ns.foldl (gather types policy) g).declaration.Proper unwraps := by
  induction ns generalizing g with
  | nil => exact hg
  | cons n ns ih =>
    exact ih (proper_gather htypes hpolicy hg (hns n List.mem_cons_self))
      fun x hx => hns x (List.mem_cons_of_mem _ hx)

theorem proper_typeOf (hn : n.Settled unwraps) {name : String} (hname : isPlain name = true)
    (audited : Bool) : (typeOf types policy audited n name).declaration.Proper unwraps := by
  refine proper_foldl_gather htypes hpolicy ?_ (settled_members hn)
  constructor
  · intro c hc
    unfold typeKind at hc
    split at hc
    · exact isPlain_of_isIdent
        (isIdent_childText? hn.read (by decide) (TypeKind.extensionType.inj hc))
    · cases hc
    · cases hc
  · exact hname
  · exact (Option.all_eq_true _ _).mpr fun w hw =>
      isPlain_of_isIdent (isIdent_childText? hn.read (by decide) hw)
  all_goals exact fun x hx => by cases hx

theorem proper_addType (hn : n.Settled unwraps) {s : List TypeDeclaration × Bool}
    (hs : ∀ d ∈ s.1, d.Proper unwraps) : ∀ d ∈ (addType types policy s n).1, d.Proper unwraps := by
  unfold addType
  cases hname : name? n with
  | none => split <;> exact hs
  | some name =>
    have hplain := isPlain_of_isIdent (isIdent_name? hn.read hname)
    have hadd : ∀ d ∈ s.1 ++ [(typeOf types policy s.2 n name).declaration], d.Proper unwraps := by
      rw [List.forall_mem_append, List.forall_mem_singleton]
      exact ⟨hs, proper_typeOf htypes hpolicy hn hplain s.2⟩
    split
    · exact hs
    · exact hadd
    · exact hadd
    · exact hadd
    · exact hs

theorem proper_ofTree {tree : Node} (htree : ∀ n ∈ tree.children, n.Settled unwraps) :
    ∀ d ∈ ofTree types policy tree, d.Proper unwraps := by
  have hfold : ∀ (ns : List Node) (s : List TypeDeclaration × Bool), (∀ n ∈ ns, n.Settled unwraps) →
      (∀ d ∈ s.1, d.Proper unwraps) →
        ∀ d ∈ (ns.foldl (addType types policy) s).1, d.Proper unwraps := by
    intro ns
    induction ns with
    | nil => exact fun s _ hs => hs
    | cons n ns ih =>
      intro s hns hs
      exact ih _ (fun x hx => hns x (List.mem_cons_of_mem _ hx))
        (proper_addType htypes hpolicy (hns n List.mem_cons_self) hs)
  exact hfold tree.children ([], false) htree (by simp)

end Direct

end Declaration

/-! ### Headers -/

namespace Header

theorem settled_of_parse {text : String} {tree : Node} (h : parse text = .ok tree)
    (hs : Settled unwraps text.toList) : ∀ n ∈ tree.children, n.Settled unwraps := by
  have hchildren : tree.children.map Node.unplaced = (units text.toList).2 ++ [.atEnd] := by
    rw [← Node.children_unplaced, (parse_eq_ok h).2]
    rfl
  intro n hn
  refine ⟨(read_of_parse h n hn).1, ?_⟩
  have hmem := List.mem_map_of_mem (f := Node.unplaced) hn
  rw [hchildren, List.mem_append, List.mem_singleton] at hmem
  rw [← Node.text_unplaced]
  rcases hmem with hmem | hmem
  · exact hs.mono (infix_of_mem_units hmem)
  · rw [hmem]
    exact .nil

theorem proper_of_parse {text : String} {tree : Node} (h : parse text = .ok tree)
    (hs : Settled unwraps text.toList) (policy : Declaration.Policy)
    (hpolicy : (unwraps || policy.assumeNonnull) = true) :
    ∀ d ∈ Declaration.Direct.ofTree (.respelled DeclaredType.defaultMaxDepth) policy tree,
      d.Proper unwraps :=
  Declaration.Direct.proper_ofTree (TypeReader.respelled_proper _) hpolicy (settled_of_parse h hs)

end Header

end HeaderBridge
