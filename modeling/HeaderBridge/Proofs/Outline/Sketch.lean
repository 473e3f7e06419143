import HeaderBridge.Proofs.Grammar.Visits
import HeaderBridge.Proofs.Outline.Handlers

/-! # The outline as a function of the parse tree

What a parse node adds to an outline is a list of trees that depends on the node
and on three facts about where it is met. The walk over a parse tree plants
exactly these trees under the innermost open node, so the outline of a header
can be read off its parse tree without following the walk.
-/

namespace HeaderBridge.Outline

open Grammar Progress

/-! ### Trees to be planted -/

/-- A tree of nodes that is not part of an outline yet. -/
inductive Sketch where
  | mk (kind : Kind) (span : Option Span) (parts : List Sketch)

namespace Sketch

def kind : Sketch → Kind
  | mk k _ _ => k

def parts : Sketch → List Sketch
  | mk _ _ ps => ps

@[simp] theorem kind_mk (k : Kind) (span : Option Span) (ps : List Sketch) :
    (mk k span ps).kind = k := rfl

@[simp] theorem parts_mk (k : Kind) (span : Option Span) (ps : List Sketch) :
    (mk k span ps).parts = ps := rfl

def leaf (kind : Kind) (n : Node) : Sketch := mk kind (some (spanOf n)) []

@[simp] theorem kind_leaf (k : Kind) (n : Node) : (leaf k n).kind = k := rfl

def leaf? (kind : String → Kind) (n : Option Node) : List Sketch :=
  (n.map fun n => leaf (kind n.text) n).toList

end Sketch

mutual

/-- The outline with a tree as the last one under a node. -/
def plant (o : Outline) (top : Nat) : Sketch → Outline
  | .mk kind span parts => plantAll (o.hang top { kind, span }) o.size parts

def plantAll (o : Outline) (top : Nat) : List Sketch → Outline
  | [] => o
  | s :: ss => plantAll (plant o top s) top ss

end

theorem plantAll_append (o : Outline) (top : Nat) (ss ts : List Sketch) :
    o.plantAll top (ss ++ ts) = (o.plantAll top ss).plantAll top ts := by
  induction ss generalizing o with
  | nil => rfl
  | cons s ss ih => exact ih (o.plant top s)

mutual

/-- The node of an outline holds the tree. -/
def Sketch.StandsAt (o : Outline) : Sketch → Nat → Prop
  | .mk kind span parts, id => ∃ e, o.get? id = some e ∧ e.kind = kind ∧ e.span = span ∧
    Sketch.StandAt o parts e.children

def Sketch.StandAt (o : Outline) : List Sketch → List Nat → Prop
  | [], ids => ids = []
  | s :: ss, ids => ∃ id rest, ids = id :: rest ∧ s.StandsAt o id ∧ Sketch.StandAt o ss rest

end

/-- Trees were planted under the node `top`, and nothing else happened. -/
structure Planted (o o' : Outline) (top : Nat) (ss : List Sketch) : Prop where
  size_le : o.size ≤ o'.size
  kept : ∀ i, i < o.size → i ≠ top → o'.get? i = o.get? i
  /-- The trees are laid out behind all that was there, behind the other children, and go on
  standing there in every outline that keeps the new nodes. -/
  top_entry : ∃ ids, o'.get? top =
      (o.get? top).map (fun t => { t with children := t.children ++ ids }) ∧
    Layout o' top o.size ids o'.size ∧
    ∀ o₁ : Outline, (∀ i, o.size ≤ i → i < o'.size → o₁.get? i = o'.get? i) →
      Sketch.StandAt o₁ ss ids

mutual

theorem planted_plant {o : Outline} {top : Nat} (h : top < o.size) :
    ∀ s, Planted o (o.plant top s) top [s]
  | .mk kind span parts => by
    have hsize : (o.hang top { kind, span }).size = o.size + 1 := size_hang
    have htop : o.size < (o.hang top { kind, span }).size := by omega
    obtain ⟨hle, hkept, ids, hids, hlayout, hstand⟩ := planted_plantAll htop parts
    rw [get?_hang_size h] at hids
    rw [plant]
    refine ⟨by omega, fun i hi hne => ?_, [o.size], ?_, ?_, fun o₁ ho₁ => ?_⟩
    · rw [hkept i (by omega) (by omega), get?_hang_of_ne hi hne]
    · rw [hkept top (by omega) (by omega), get?_hang_top h]
    · rw [hsize] at hlayout
      refine .single (by rw [parentOf, hids]; rfl) ?_
      simpa only [childrenOf, hids, Option.map_some, List.nil_append] using hlayout
    · refine ⟨o.size, [], rfl, ?_, rfl⟩
      refine ⟨_, (ho₁ o.size (Nat.le_refl _) (by omega)).trans hids, rfl, rfl, ?_⟩
      exact hstand o₁ fun i hi hi' => ho₁ i (by omega) hi'

theorem planted_plantAll {o : Outline} {top : Nat} (h : top < o.size) :
    ∀ ss, Planted o (o.plantAll top ss) top ss
  | [] => by
    refine ⟨Nat.le_refl _, fun _ _ _ => rfl, [], ?_, .nil _ _, fun _ _ => rfl⟩
    simp [plantAll]
  | s :: ss => by
    obtain ⟨hle, hkept, ids, hids, hlayout, hstand⟩ := planted_plant h s
    have htop : top < (o.plant top s).size := by omega
    obtain ⟨hle', hkept', ids', hids', hlayout', hstand'⟩ := planted_plantAll htop ss
    rw [plantAll]
    refine ⟨by omega, fun i hi hne => ?_, ids ++ ids', ?_, ?_, fun o₁ ho₁ => ?_⟩
    · rw [hkept' i (by omega) hne, hkept i hi hne]
    · simp only [hids', hids, Option.map_map, Function.comp_def, List.append_assoc]
    · exact (hlayout.congr fun i hi hi' => hkept' i hi' (by omega)).append hlayout'
    · obtain ⟨id, rest, rfl, hs, rfl⟩ : Sketch.StandAt o₁ [s] ids := by
        refine hstand o₁ fun i hi hi' => ?_
        rw [ho₁ i hi (by omega), hkept' i hi' (by omega)]
      exact ⟨id, ids', rfl, hs, hstand' o₁ fun i hi hi' => ho₁ i (by omega) hi'⟩

end

/-! ### What a parse node adds -/

/-- Where a parse node is met. -/
structure Scope where
  /-- The tag of the innermost open node. -/
  tag : Tag
  /-- Inside a generic type, where lists of protocols open no node. -/
  inGeneric : Bool := false
  /-- Inside a list of types, where nullability is not the declaration's. -/
  inList : Bool := false

namespace Scope

def opens? (c : Scope) (r : Rule) : Option Kind :=
  if c.inGeneric ∧ r = .protocolList then none
  else
    match headerTargets.lookup r with
    | some (.fresh tag) => tag.fresh?
    | _ => none

def inside (c : Scope) (r : Rule) : Scope :=
  { c with
    inGeneric := c.inGeneric || r = .genericTypeSpecifier
    inList := c.inList || ListsTypes r }

end Scope

/-- What a parse node says about the node that it has opened. -/
def filled (n : Node) (k : Kind) : Kind :=
  match n.rule with
  | .classInterface | .categoryInterface =>
    match (n.child? .className).bind (·.childText? .identifier) with
    | some name => k.setName name
    | none => k
  | .protocolDeclaration =>
    match n.childText? .identifier with
    | some name => k.setName name
    | none => k
  | .methodDeclaration => .method (n.childText? .methodKind = some "+")
  | _ => k

def ivarSketch? (types : TypeReader) (specifiers field : Node) : Option Sketch := do
  let declarator ← field.child? .declarator
  let name ← DeclaredType.declaratorName? declarator
  let type ← types.declaration specifiers declarator
  return .mk .ivar (some (spanOf field))
    [.mk (.typeName type) none [], .leaf (.identifier name) declarator]

/-- The first declarator of a property, with the field declaration and its specifiers. -/
def propertyParts? (n : Node) : Option (Node × Node × Node) := do
  let field ← n.child? .fieldDeclaration
  let specifiers ← field.child? .specifierQualifierList
  let first ← (← field.child? .fieldDeclaratorList).child? .fieldDeclarator
  return (field, specifiers, ← first.child? .declarator)

/-- The leaves that a parse node adds itself, in the given scope. -/
def leaves (types : TypeReader) (c : Scope) (n : Node) : List Sketch :=
  match n.rule with
  | .classInterface | .categoryInterface =>
    Sketch.leaf? .superclassName (n.child? .superclassName)
      ++ Sketch.leaf? .categoryName (n.child? .categoryName)
  | .protocolName => if c.tag = .protocolList then [.leaf (.protocolName n.text) n] else []
  | .accessModifier | .protocolSectionKeyword | .nonnullAuditMarker =>
    ((Keyword.ofSpelling? n.text).map fun k => Sketch.leaf (.keyword k) n).toList
  | .fieldDeclaration =>
    if c.tag = .ivarList then
      match n.child? .specifierQualifierList, n.child? .fieldDeclaratorList with
      | some specifiers, some list =>
        (list.childrenOf .fieldDeclarator).filterMap (ivarSketch? types specifiers)
      | _, _ => []
    else []
  | .propertyDeclaration =>
    match propertyParts? n with
    | none => []
    | some (field, specifiers, declarator) =>
      ((DeclaredType.declaratorName? declarator).map fun name =>
          Sketch.leaf (.identifier name) declarator).toList
        ++ ((types.declaration specifiers declarator).map fun type =>
          Sketch.leaf (.typeName type) field).toList
  | .propertyAttribute => ((modifierOf? n).map fun m => Sketch.leaf (.modifier m) n).toList
  | .methodSelector => Sketch.leaf? .identifier (n.child? .selector)
  | .keywordDeclarator =>
    Sketch.leaf? .identifier (n.child? .selector) ++ Sketch.leaf? .identifier (n.child? .identifier)
  | .typeName => ((types.typeName n).map fun type => Sketch.leaf (.typeName type) n).toList
  | .nullabilitySpecifier =>
    if c.inList ∨ c.tag = .ivarList then [] else [.leaf (.nullability n.text) n]
  | _ => []

mutual

/-- The trees that visiting a parse node adds under the innermost open node. -/
def sketches (types : TypeReader) (c : Scope) : Node → List Sketch
  | .mk r s t ns =>
    match c.opens? r with
    | some kind =>
      let c := { c with tag := kind.tag }
      [.mk (filled (.mk r s t ns) kind) (some (spanOf (.mk r s t ns)))
        (leaves types c (.mk r s t ns) ++ sketchesAll types (c.inside r) ns)]
    | none => leaves types c (.mk r s t ns) ++ sketchesAll types (c.inside r) ns

/-- The trees that visiting parse nodes one after the other adds. -/
def sketchesAll (types : TypeReader) (c : Scope) : List Node → List Sketch
  | [] => []
  | n :: ns => sketches types c n ++ sketchesAll types c ns

end

theorem sketches_eq (types : TypeReader) (c : Scope) (n : Node) : sketches types c n =
    match c.opens? n.rule with
    | some kind =>
      [.mk (filled n kind) (some (spanOf n))
        (leaves types { c with tag := kind.tag } n
          ++ sketchesAll types ({ c with tag := kind.tag }.inside n.rule) n.children)]
    | none => leaves types c n ++ sketchesAll types (c.inside n.rule) n.children := by
  obtain ⟨r, s, t, ns⟩ := n
  rw [sketches]
  rfl

theorem sketchesAll_eq (types : TypeReader) (c : Scope) (ns : List Node) :
    sketchesAll types c ns = ns.flatMap (sketches types c) := by
  induction ns with
  | nil => rfl
  | cons n ns ih => rw [sketchesAll, ih, List.flatMap_cons]

/-! ### Steps that plant trees -/

namespace Progress

def plant (p : Progress) (top : Nat) (ss : List Sketch) : Progress :=
  { p with draft := { p.draft with outline := p.draft.outline.plantAll top ss } }

structure Inside (p : Progress) (top : Nat) (tag : Tag) : Prop where
  ready : p.Ready top
  has_tag : (p.draft.outline.get? top).map (·.kind.tag) = some tag

variable {p : Progress} {top : Nat} {tag : Tag}

theorem plant_append (p : Progress) (top : Nat) (ss ts : List Sketch) :
    (p.plant top ss).plant top ts = p.plant top (ss ++ ts) := by
  simp only [plant, plantAll_append]

theorem Inside.plant (h : p.Inside top tag) (ss : List Sketch) :
    (p.plant top ss).Inside top tag := by
  obtain ⟨hle, -, ids, hids, -⟩ := planted_plantAll h.ready.top_lt ss
  refine ⟨⟨h.ready.opened, Nat.lt_of_lt_of_le h.ready.top_lt hle⟩, ?_⟩
  rw [← h.has_tag, Progress.plant, hids, Option.map_map]
  rfl

theorem Inside.currentWith? (h : p.Inside top tag) (tag' : Tag) :
    p.draft.currentWith? tag' = .ok (if tag = tag' then some top else none) := by
  obtain ⟨t, ht, hcur⟩ := h.ready.entry
  have htag := h.has_tag
  rw [ht] at htag
  rw [hcur, ← Option.some.inj htag]

theorem Inside.isIn (h : p.Inside top tag) (tag' : Tag) : p.isIn tag' = .ok (tag = tag') := by
  simp only [Progress.isIn, h.currentWith?, ok_bind, pure_eq_ok]
  by_cases heq : tag = tag' <;> simp [heq]

theorem Ready.leaf (h : p.Ready top) (kind : Kind) (n : Node) :
    p.leaf kind n = .ok (p.plant top [.leaf kind n]) := by
  obtain ⟨rest, ho⟩ := h.opened
  have hl := Draft.addLeaf_eq (e := { kind, span := some (spanOf n) }) ho h.top_lt rfl
  simp only [Progress.leaf, hl, ok_bind, pure_eq_ok]
  rfl

theorem Ready.leaf? (h : p.Ready top) (kind : String → Kind) (n : Option Node) :
    p.leaf? kind n = .ok (p.plant top (Sketch.leaf? kind n)) := by
  cases n with
  | none => rfl
  | some n => exact h.leaf _ n

end Progress

/-- A step that plants the given trees wherever a node with the given tag is open. -/
def Plants (tag : Tag) (step : Progress → Except Fault Progress) (ss : List Sketch) : Prop :=
  ∀ p top, p.Inside top tag → step p = .ok (p.plant top ss)

namespace Plants

variable {tag : Tag} {step next : Progress → Except Fault Progress} {ss ts : List Sketch}

theorem nothing : Plants tag .ok [] := fun _ _ _ => rfl

theorem andThen (h : Plants tag step ss) (h' : Plants tag next ts) :
    Plants tag (fun p => (step p).bind next) (ss ++ ts) := by
  intro p top hp
  simp only [h p top hp, Except.bind, h' _ top (hp.plant ss), plant_append]

theorem foldlM {α : Type} {step : Progress → α → Except Fault Progress} {f : α → List Sketch}
    (h : ∀ x, Plants tag (fun p => step p x) (f x)) (xs : List α) :
    Plants tag (fun p => xs.foldlM step p) (xs.flatMap f) := by
  induction xs with
  | nil => exact nothing
  | cons x xs ih =>
    rw [List.flatMap_cons]
    exact (h x).andThen ih

theorem leaf (kind : Kind) (n : Node) : Plants tag (fun p => p.leaf kind n) [.leaf kind n] :=
  fun _ _ hp => hp.ready.leaf kind n

theorem leaf? (kind : String → Kind) (n : Option Node) :
    Plants tag (fun p => p.leaf? kind n) (Sketch.leaf? kind n) :=
  fun _ _ hp => hp.ready.leaf? kind n

end Plants

/-! ### The rules -/

section Rules

variable {tag : Tag} (n : Node)

theorem plants_enterProtocolName : Plants tag (enterProtocolName n)
    (if tag = .protocolList then [.leaf (.protocolName n.text) n] else []) := by
  intro p top hp
  simp only [enterProtocolName, hp.isIn, ok_bind, pure_eq_ok]
  by_cases htag : tag = .protocolList
  · simp only [htag, decide_true, if_true]
    exact hp.ready.leaf _ n
  · simp only [htag, decide_false, if_false]
    rfl

theorem plants_enterKeyword : Plants tag (enterKeyword n)
    ((Keyword.ofSpelling? n.text).map fun k => Sketch.leaf (.keyword k) n).toList := by
  unfold enterKeyword
  cases Keyword.ofSpelling? n.text with
  | none => exact .nothing
  | some k => exact .leaf _ n

theorem plants_addIvar (types : TypeReader) (specifiers : Node) :
    Plants tag (fun p => addIvar types specifiers p n) (ivarSketch? types specifiers n).toList := by
  intro p top hp
  obtain ⟨rest, ho⟩ := hp.ready.opened
  have htop := hp.ready.top_lt
  unfold addIvar ivarSketch?
  cases hd : n.child? .declarator with
  | none => rfl
  | some declarator =>
    cases hname : DeclaredType.declaratorName? declarator with
    | none => simp [hname]; rfl
    | some name =>
      cases htype : types.declaration specifiers declarator with
      | none => simp [hname, htype]; rfl
      | some type =>
        have hleaf := Draft.addLeaf_eq (e := { kind := .ivar, span := some (spanOf n) }) ho htop rfl
        let o₁ := p.draft.outline.hang top { kind := .ivar, span := some (spanOf n) }
        let o₂ := o₁.hang p.draft.outline.size { kind := .typeName type }
        have h₁ : p.draft.outline.size < o₁.size := by simp only [o₁, size_hang]; omega
        have h₂ : p.draft.outline.size < o₂.size := by simp only [o₂, size_hang]; omega
        have hadd₁ := add_eq_hang (e := { kind := .typeName type }) h₁ rfl
        have hadd₂ := add_eq_hang
          (e := { kind := .identifier name, span := some (spanOf declarator) }) h₂ rfl
        simp only [o₁, o₂] at hadd₁ hadd₂
        simp only [Option.bind_eq_bind, Option.bind_some, Option.pure_def, hname, htype, hleaf,
          ok_bind, pure_eq_ok, hadd₁, hadd₂]
        rfl

theorem plants_enterField (types : TypeReader) :
    Plants .ivarList (enterField types n)
      (match n.child? .specifierQualifierList, n.child? .fieldDeclaratorList with
      | some specifiers, some list =>
        (list.childrenOf .fieldDeclarator).filterMap (ivarSketch? types specifiers)
      | _, _ => []) := by
  intro p top hp
  simp only [enterField, hp.isIn, ok_bind, pure_eq_ok, decide_true, if_true]
  cases n.child? .specifierQualifierList with
  | none => rfl
  | some specifiers =>
    cases n.child? .fieldDeclaratorList with
    | none => rfl
    | some list =>
      simp only [List.filterMap_eq_flatMap_toList]
      exact Plants.foldlM (fun x => plants_addIvar x types specifiers) _ p top hp

theorem plants_enterProperty (types : TypeReader) : Plants tag (enterProperty types n)
    (match propertyParts? n with
    | none => []
    | some (field, specifiers, declarator) =>
      ((DeclaredType.declaratorName? declarator).map fun name =>
          Sketch.leaf (.identifier name) declarator).toList
        ++ ((types.declaration specifiers declarator).map fun type =>
          Sketch.leaf (.typeName type) field).toList) := by
  unfold enterProperty
  simp only
  split
  · next hparts =>
    rw [show propertyParts? n = none from hparts]
    exact .nothing
  · next field specifiers declarator hparts =>
    rw [show propertyParts? n = some (field, specifiers, declarator) from hparts]
    simp only
    cases DeclaredType.declaratorName? declarator with
    | none =>
      cases types.declaration specifiers declarator with
      | none => exact .nothing
      | some type => exact .leaf _ _
    | some name =>
      cases types.declaration specifiers declarator with
      | none => exact (Plants.leaf _ _).andThen .nothing
      | some type => exact (Plants.leaf _ _).andThen (.leaf _ _)

theorem plants_enterAttribute : Plants tag (enterAttribute n)
    ((modifierOf? n).map fun m => Sketch.leaf (.modifier m) n).toList := by
  unfold enterAttribute
  cases modifierOf? n with
  | none => exact .nothing
  | some m => exact .leaf _ n

theorem plants_enterTypeName (types : TypeReader) : Plants tag (enterTypeName types n)
    ((types.typeName n).map fun type => Sketch.leaf (.typeName type) n).toList := by
  unfold enterTypeName
  cases types.typeName n with
  | none => exact .nothing
  | some type => exact .leaf _ n

theorem plants_enterNullability {p : Progress} {top : Nat} (hp : p.Inside top tag) :
    enterNullability n p = .ok (p.plant top
      (if 0 < p.nesting ∨ tag = .ivarList then [] else [.leaf (.nullability n.text) n])) := by
  simp only [enterNullability, hp.isIn, ok_bind, pure_eq_ok]
  by_cases hn : 0 < p.nesting
  · simp only [hn, decide_true, Bool.true_or, if_true, true_or]
    rfl
  · by_cases htag : tag = .ivarList
    · simp only [hn, htag, decide_false, decide_true, Bool.or_true, if_true, or_true]
      rfl
    · simp only [hn, htag, decide_false, Bool.or_false, Bool.false_eq_true, if_false, or_false]
      exact hp.ready.leaf _ n

end Rules

/-! ### Filling in the open node -/

theorem ext_get? {o o' : Outline} (h : ∀ i, o.get? i = o'.get? i) : o = o' := by
  obtain ⟨entries⟩ := o
  obtain ⟨entries'⟩ := o'
  exact congrArg Outline.mk (Array.ext_getElem? h)

namespace Progress

variable {p : Progress} {top : Nat} {tag : Tag}

theorem modifyKind_id (p : Progress) (top : Nat) : p.modifyKind top (fun k => k) = p := by
  have hid : p.draft.outline.modify top (fun e => { e with kind := e.kind }) = p.draft.outline := by
    apply ext_get?
    intro i
    rw [get?_modify]
    split <;> simp
  rw [modifyKind, hid]

theorem Inside.modifyKind (h : p.Inside top tag) {f : Kind → Kind}
    (hf : ∀ k, k.tag = tag → (f k).tag = tag) : (p.modifyKind top f).Inside top tag := by
  obtain ⟨t, ht, -⟩ := h.ready.entry
  have htag := h.has_tag
  rw [ht, Option.map_some, Option.some.injEq] at htag
  refine ⟨⟨h.ready.opened, ?_⟩, ?_⟩
  · simpa [Progress.modifyKind] using h.ready.top_lt
  · simp only [Progress.modifyKind, get?_modify, if_true, ht, Option.map_some, hf _ htag]

end Progress

theorem enterInterface_eq {p : Progress} {top : Nat} {tag : Tag} {n : Node} (hp : p.Inside top tag)
    (htag : tag = .classInterface ∨ tag = .categoryInterface)
    (hr : n.rule = .classInterface ∨ n.rule = .categoryInterface) :
    enterInterface n p = .ok ((p.modifyKind top (filled n)).plant top
      (Sketch.leaf? .superclassName (n.child? .superclassName)
        ++ Sketch.leaf? .categoryName (n.child? .categoryName))) := by
  -- the name is filled in first, and the leaves follow
  let named : Progress := match (n.child? .className).bind (·.childText? .identifier) with
    | some name => p.modifyKind top (Kind.setName name)
    | none => p
  have hnamed : named = p.modifyKind top (filled n) := by
    simp only [named]
    cases hname : (n.child? .className).bind (·.childText? .identifier) with
    | none =>
      have hf : filled n = fun k => k := by
        funext k
        rcases hr with hr | hr <;> simp [filled, hr, hname]
      rw [hf, modifyKind_id]
    | some name =>
      have hf : filled n = Kind.setName name := by
        funext k
        rcases hr with hr | hr <;> simp [filled, hr, hname]
      rw [hf]
  have hin : named.Inside top tag := by
    rw [hnamed]
    refine hp.modifyKind fun k hk => ?_
    rw [← hk]
    unfold filled
    rcases hr with hr | hr <;> rw [hr] <;> simp only <;> split <;> simp [Kind.tag_setName]
  have hleaves := (Plants.leaf? .superclassName (n.child? .superclassName)).andThen
    (Plants.leaf? .categoryName (n.child? .categoryName)) named top hin
  rw [← hnamed, ← hleaves]
  rcases htag with rfl | rfl <;> simp only [enterInterface, hp.currentWith?] <;> rfl

theorem enterProtocol_eq {p : Progress} {top : Nat} {n : Node}
    (hp : p.Inside top .protocolDeclaration) (hr : n.rule = .protocolDeclaration) :
    enterProtocol n p = .ok (p.modifyKind top (filled n)) := by
  simp only [enterProtocol, hp.currentWith?, ok_bind, pure_eq_ok, if_true]
  cases hname : n.childText? .identifier with
  | none =>
    have hf : filled n = fun k => k := by
      funext k
      simp [filled, hr, hname]
    rw [hf, modifyKind_id]
  | some name =>
    have hf : filled n = Kind.setName name := by
      funext k
      simp [filled, hr, hname]
    rw [hf]

theorem enterMethod_eq {p : Progress} {top : Nat} {n : Node} (hp : p.Inside top .method)
    (hr : n.rule = .methodDeclaration) :
    enterMethod n p = .ok (p.modifyKind top (filled n)) := by
  have hf : filled n = fun _ => .method (n.childText? .methodKind = some "+") := by
    funext k
    simp [filled, hr]
  simp only [enterMethod, hp.currentWith?, ok_bind, pure_eq_ok, if_true, hf]

/-! ### Entering a rule -/

/-- The open nodes and the rules in effect are those of a scope. -/
structure Progress.InScope (p : Progress) (top : Nat) (c : Scope) : Prop where
  inside : p.Inside top c.tag
  targets : p.rules.targets = headerTargets
  exceptions : ∀ r, r ∈ p.rules.exceptions ↔ c.inGeneric = true ∧ r = .protocolList
  nesting : 0 < p.nesting ↔ c.inList = true

section Scope

variable {p : Progress} {top : Nat} {c : Scope} {r : Rule}

theorem lookup_of_opens? {kind : Kind} (h : c.opens? r = some kind) :
    headerTargets.lookup r = some (.fresh kind.tag) ∧ kind.tag.fresh? = some kind := by
  unfold Scope.opens? at h
  split at h
  · simp at h
  · split at h
    · next tag htarget =>
      rw [Tag.tag_of_fresh? h]
      exact ⟨htarget, h⟩
    · simp at h

theorem Progress.InScope.target?_of_opens? (h : p.InScope top c) {kind : Kind}
    (hk : c.opens? r = some kind) : p.rules.target? r = some (.fresh kind.tag) := by
  have hne : ¬ (c.inGeneric = true ∧ r = .protocolList) := by
    intro hg
    simp [Scope.opens?, hg] at hk
  have hnot : p.rules.isSuppressed r = false := by
    simpa [RuleMap.isSuppressed, h.exceptions] using hne
  rw [RuleMap.target?, hnot, h.targets]
  exact (lookup_of_opens? hk).1

theorem Progress.InScope.target?_eq_none (h : p.InScope top c) (hu : r ≠ .translationUnit)
    (hk : c.opens? r = none) : p.rules.target? r = none := by
  unfold RuleMap.target?
  split
  · rfl
  · next hnot =>
    have hne : ¬ (c.inGeneric = true ∧ r = .protocolList) := by
      simpa [RuleMap.isSuppressed, h.exceptions] using hnot
    rw [h.targets]
    cases htarget : headerTargets.lookup r with
    | none => rfl
    | some target =>
      obtain ⟨tag, kind, rfl, hfresh, -⟩ := lookup_headerTargets r hu target htarget
      simp [Scope.opens?, hne, htarget, hfresh] at hk

theorem Progress.InScope.inside_rule (h : p.InScope top c) (r : Rule) :
    { p with rules := rulesInside r p.rules, nesting := nestingInside r p.nesting }.InScope top
      (c.inside r) := by
  refine ⟨⟨⟨h.inside.ready.opened, h.inside.ready.top_lt⟩, h.inside.has_tag⟩, ?_, fun r' => ?_, ?_⟩
  · rw [targets_rulesInside, h.targets]
  · by_cases hg : r = .genericTypeSpecifier
    · simp only [rulesInside, hg, if_true, RuleMap.suppress, List.mem_cons, h.exceptions,
        Scope.inside]
      simp
    · simp [rulesInside, hg, h.exceptions, Scope.inside]
  · by_cases hl : ListsTypes r
    · simp [nestingInside, hl, Scope.inside]
    · simp [nestingInside, hl, Scope.inside, h.nesting]

theorem Progress.InScope.plant (h : p.InScope top c) (ss : List Sketch) :
    (p.plant top ss).InScope top c :=
  ⟨h.inside.plant ss, h.targets, h.exceptions, h.nesting⟩

end Scope

/-- The rules whose nodes are filled in when they are entered. -/
def fillsNode (r : Rule) : Prop :=
  r = .classInterface ∨ r = .categoryInterface ∨ r = .protocolDeclaration ∨ r = .methodDeclaration

instance (r : Rule) : Decidable (fillsNode r) := by unfold fillsNode; infer_instance

theorem filled_eq {n : Node} (h : ¬ fillsNode n.rule) (k : Kind) : filled n k = k := by
  simp only [fillsNode, not_or] at h
  unfold filled
  split <;> simp_all

theorem tag_filled {n : Node} {tag : Tag} {k : Kind} (hk : k.tag = tag)
    (hown : fillsNode n.rule → headerTargets.lookup n.rule = some (.fresh tag)) :
    (filled n k).tag = tag := by
  by_cases hf : fillsNode n.rule
  · have hown := hown hf
    unfold filled
    split
    · split <;> simp [Kind.tag_setName, hk]
    · split <;> simp [Kind.tag_setName, hk]
    · split <;> simp [Kind.tag_setName, hk]
    · next hr =>
      have htarget : headerTargets.lookup .methodDeclaration = some (.fresh .method) := rfl
      rw [hr, htarget, Option.some.injEq, Target.fresh.injEq] at hown
      exact hown
    · exact hk
  · rw [filled_eq hf, hk]

/-- Entering a rule fills in the open node, plants the leaves of the parse node and
goes inside. -/
theorem enterParts_eq (types : TypeReader) {p : Progress} {top : Nat} {c : Scope} {n : Node}
    (hp : p.InScope top c)
    (hown : fillsNode n.rule → headerTargets.lookup n.rule = some (.fresh c.tag)) :
    enterParts types n p = .ok { (p.modifyKind top (filled n)).plant top (leaves types c n) with
      rules := rulesInside n.rule p.rules
      nesting := nestingInside n.rule p.nesting } := by
  have hin := hp.inside
  -- a rule that fills in nothing only plants, and goes inside
  have hplain : ∀ {r ss}, n.rule = r → ¬ fillsNode r → leaves types c n = ss →
      (.ok { p.plant top ss with
        rules := rulesInside r p.rules
        nesting := nestingInside r p.nesting } : Except Fault Progress) =
      .ok { (p.modifyKind top (filled n)).plant top (leaves types c n) with
        rules := rulesInside n.rule p.rules
        nesting := nestingInside n.rule p.nesting } := by
    rintro r ss rfl hf rfl
    have hid : filled n = fun k => k := funext fun k => filled_eq hf k
    rw [hid, modifyKind_id]
  have htag : ∀ {r tag}, n.rule = r → fillsNode r → headerTargets.lookup r = some (.fresh tag) →
      c.tag = tag := by
    rintro r tag rfl hf htarget
    have h := hown hf
    rw [htarget, Option.some.injEq, Target.fresh.injEq] at h
    exact h.symm
  unfold enterParts
  split
  · next hr =>
    rw [enterInterface_eq hin (.inl (htag hr (by decide) rfl)) (.inl hr), leaves, hr]
    rfl
  · next hr =>
    rw [enterInterface_eq hin (.inr (htag hr (by decide) rfl)) (.inr hr), leaves, hr]
    rfl
  · next hr =>
    rw [htag hr (by decide) rfl] at hin
    rw [enterProtocol_eq hin hr, leaves, hr]
    rfl
  · next hr =>
      exact (plants_enterProtocolName n p top hin).trans
        (hplain hr (by decide) (by simp [leaves, hr]))
  · next hr =>
      exact (plants_enterKeyword n p top hin).trans (hplain hr (by decide) (by simp [leaves, hr]))
  · next hr =>
      exact (plants_enterKeyword n p top hin).trans (hplain hr (by decide) (by simp [leaves, hr]))
  · next hr =>
      exact (plants_enterKeyword n p top hin).trans (hplain hr (by decide) (by simp [leaves, hr]))
  · next hr =>
    by_cases hlist : c.tag = .ivarList
    · rw [hlist] at hin
      refine (plants_enterField n types p top hin).trans (hplain hr (by decide) ?_)
      rw [leaves, hr]
      exact if_pos hlist
    · have hskip : enterField types n p = .ok p := by
        simp only [enterField, hin.isIn, hlist, ok_bind]
        rfl
      exact hskip.trans (hplain hr (by decide) (show _ = [] by simp [leaves, hr, hlist]))
  · next hr =>
    exact (plants_enterProperty n types p top hin).trans
      (hplain hr (by decide) (by rw [leaves, hr]))
  · next hr =>
      exact (plants_enterAttribute n p top hin).trans (hplain hr (by decide) (by simp [leaves, hr]))
  · next hr =>
    rw [htag hr (by decide) rfl] at hin
    rw [enterMethod_eq hin hr, leaves, hr]
    rfl
  · next hr =>
    exact (hin.ready.leaf? _ _).trans (hplain hr (by decide) (by simp [leaves, hr]))
  · next hr =>
    exact ((Plants.leaf? _ _).andThen (Plants.leaf? _ _) p top hin).trans
      (hplain hr (by decide) (by simp [leaves, hr]))
  · next hr =>
    exact (plants_enterTypeName n types p top hin).trans
      (hplain hr (by decide) (by simp [leaves, hr]))
  · next hr =>
    refine (plants_enterNullability n hin).trans (hplain hr (by decide) ?_)
    simp only [leaves, hr, hp.nesting]
  · next hr => exact hplain hr (by decide) (show _ = [] by simp [leaves, hr])
  · next hr => exact hplain hr (by decide) (show _ = [] by simp [leaves, hr])
  · next hr => exact hplain hr (by decide) (show _ = [] by simp [leaves, hr])
  · next hr => exact hplain hr (by decide) (show _ = [] by simp [leaves, hr])
  · have hleaves : leaves types c n = [] := by
      unfold leaves
      split <;> simp_all
    have hin : rulesInside n.rule p.rules = p.rules ∧
        nestingInside n.rule p.nesting = p.nesting := by
      simp_all [rulesInside, nestingInside, ListsTypes]
    have h := hplain (r := n.rule) rfl (by simp_all [fillsNode]) hleaves
    rw [hin.1, hin.2] at h ⊢
    exact h

/-! ### The walk -/

/-- Visiting some parse nodes plants the given trees in every scope, and never takes back a level
of nesting that is not there. -/
def PlantsInScope (types : TypeReader) (es : List Event) (ss : Scope → List Sketch) : Prop :=
  ∀ p top c, p.InScope top c → Event.handleAll (visit types) es p = .ok (p.plant top (ss c)) ∧
    Event.Along (visit types) NestingOpen es p

theorem modify_hang {o : Outline} {top : Nat} (h : top < o.size) (e : Entry) (f : Kind → Kind) :
    (o.hang top e).modify o.size (fun e => { e with kind := f e.kind }) =
      o.hang top { e with kind := f e.kind } := by
  have hne : top ≠ o.size := by omega
  apply ext_get?
  intro i
  simp only [hang, get?_modify, get?_alloc]
  by_cases hi : i = o.size
  · simp [hi, hne]
  · simp [hi, Ne.symm hi]

theorem parts_eq {types : TypeReader} {n : Node}
    (hn : PlantsInScope types (Node.eventsAll n.children) (sketchesAll types · n.children))
    {p : Progress} {top : Nat} {c : Scope} (hp : p.InScope top c)
    (hown : fillsNode n.rule → headerTargets.lookup n.rule = some (.fresh c.tag)) :
    ∃ p₁ p₂, enterParts types n p = .ok p₁ ∧
      Event.handleAll (visit types) (Node.eventsAll n.children) p₁ = .ok p₂ ∧
      Event.Along (visit types) NestingOpen (Node.eventsAll n.children) p₁ ∧
      NestingOpen (.leave n) p₂ ∧
      leaveParts n p₂ = (p.modifyKind top (filled n)).plant top
        (leaves types c n ++ sketchesAll types (c.inside n.rule) n.children) := by
  have henter := enterParts_eq types hp hown
  have hfilled : (p.modifyKind top (filled n)).InScope top c :=
    ⟨hp.inside.modifyKind fun k hk => tag_filled hk hown, hp.targets, hp.exceptions, hp.nesting⟩
  obtain ⟨hparts, halong⟩ := hn _ top _ ((hfilled.plant (leaves types c n)).inside_rule n.rule)
  refine ⟨_, _, henter, hparts, halong, ?_, ?_⟩
  · rintro m hm hl
    obtain rfl : n = m := Event.leave.inj hm
    exact Nat.lt_of_lt_of_eq (Nat.succ_pos _) (if_pos hl).symm
  · rw [leaveParts_inside n _ p.rules p.nesting rfl rfl, ← plant_append]
    rfl

theorem handleAll_node {types : TypeReader} {n : Node} {p p₁ p₂ p' : Progress}
    (henter : visit types (.enter n) p = .ok p₁)
    (hparts : Event.handleAll (visit types) (Node.eventsAll n.children) p₁ = .ok p₂)
    (halong : Event.Along (visit types) NestingOpen (Node.eventsAll n.children) p₁)
    (hnesting : NestingOpen (.leave n) p₂) (hleave : visit types (.leave n) p₂ = .ok p') :
    Event.handleAll (visit types) n.events p = .ok p' ∧
      Event.Along (visit types) NestingOpen n.events p := by
  have hevents : n.events = [.enter n] ++ (Node.eventsAll n.children ++ [.leave n]) := by
    cases n
    rfl
  have hfirst : Event.handleAll (visit types) [.enter n] p = .ok p₁ := by
    simp only [Event.handleAll_cons, henter, Except.bind, Event.handleAll_nil]
  rw [hevents]
  refine ⟨?_, Event.Along.append (.single ?_) hfirst (halong.append hparts (.single hnesting))⟩
  · simp only [Event.handleAll_append, Event.handleAll_cons, henter, hparts, Except.bind, hleave,
      Event.handleAll_nil]
  · intro m hm
    cases hm

theorem visit_leave (types : TypeReader) {n : Node} {p q : Progress} {d : Draft}
    (hq : leaveParts n p = q) (hd : q.rules.leave n.rule q.draft = .ok d) :
    visit types (.leave n) p = .ok { q with draft := d } := by
  simp only [visit, hq, hd, ok_bind, pure_eq_ok]

theorem plantsInScope_node {types : TypeReader} {n : Node} (hu : n.rule ≠ .translationUnit)
    (hn : PlantsInScope types (Node.eventsAll n.children) (sketchesAll types · n.children)) :
    PlantsInScope types n.events (sketches types · n) := by
  intro p top c hp
  obtain ⟨rest, ho⟩ := hp.inside.ready.opened
  have htop := hp.inside.ready.top_lt
  have hfirst : ∀ {d p₁}, p.rules.enter n.rule (some (spanOf n)) p.draft = .ok d →
      enterParts types n { p with draft := d.2 } = .ok p₁ → visit types (.enter n) p = .ok p₁ := by
    intro d p₁ henter h₁
    simp only [visit, henter, ok_bind, h₁]
  cases hk : c.opens? n.rule with
  | none =>
    have htar := hp.target?_eq_none hu hk
    have hfills : ¬ fillsNode n.rule := by
      intro hf
      rcases hf with h | h | h | h <;> rw [h] at hk <;> simp [Scope.opens?] at hk <;> cases hk
    obtain ⟨p₁, p₂, h₁, h₂, halong, hnesting, hleave⟩ :=
      parts_eq hn hp (fun hf => absurd hf hfills)
    refine handleAll_node (hfirst (enter_unmapped htar (some (spanOf n)) p.draft).1 h₁) h₂ halong
      hnesting ?_
    have hid : filled n = fun k => k := funext fun k => filled_eq hfills k
    rw [hid, modifyKind_id] at hleave
    rw [visit_leave types hleave (enter_unmapped htar none _).2]
    simp only [sketches_eq, hk]
  | some kind =>
    have htar := hp.target?_of_opens? hk
    obtain ⟨hlookup, hfresh⟩ := lookup_of_opens? hk
    let p₀ : Progress := { p with draft :=
      ⟨p.draft.outline.hang top { kind, span := some (spanOf n) },
        p.draft.outline.size :: p.draft.opened⟩ }
    have hsize : p.draft.outline.size < p₀.draft.outline.size := by simp only [p₀, size_hang]; omega
    have hp₀ : p₀.InScope p.draft.outline.size { c with tag := kind.tag } := by
      refine ⟨⟨⟨⟨_, rfl⟩, hsize⟩, ?_⟩, hp.targets, hp.exceptions, hp.nesting⟩
      simp only [p₀, get?_hang_size htop, Option.map_some]
    obtain ⟨p₁, p₂, h₁, h₂, halong, hnesting, hleave⟩ := parts_eq hn hp₀ (fun _ => hlookup)
    refine handleAll_node (hfirst (enter_fresh htar hfresh ho htop (some (spanOf n))) h₁) h₂ halong
      hnesting ?_
    -- the node that is closed is the one that was opened
    have hin := (hp₀.inside.modifyKind fun k hk => tag_filled hk fun _ => hlookup).plant
      (leaves types { c with tag := kind.tag } n
        ++ sketchesAll types ({ c with tag := kind.tag }.inside n.rule) n.children)
    obtain ⟨e, he, htag⟩ := Option.map_eq_some_iff.mp hin.has_tag
    rw [visit_leave types hleave (leave_fresh htar rfl he htag)]
    have hfilled := modify_hang htop { kind, span := some (spanOf n) } (filled n)
    simp only [sketches_eq, hk, Progress.plant, Progress.modifyKind, p₀, hfilled, plantAll,
      Outline.plant]

mutual

/-- A tree without a node for the whole header plants its sketches. -/
theorem plantsInScope_events (types : TypeReader) : ∀ n : Node,
    (∀ m, Node.Within m n → m.rule ≠ .translationUnit) →
      PlantsInScope types n.events (sketches types · n)
  | .mk r s t ns, h =>
    plantsInScope_node (n := .mk r s t ns) (h _ .self)
      (plantsInScope_eventsAll types ns fun _ hc m hm => h m (.inside hc hm))

theorem plantsInScope_eventsAll (types : TypeReader) : ∀ ns : List Node,
    (∀ n ∈ ns, ∀ m, Node.Within m n → m.rule ≠ .translationUnit) →
      PlantsInScope types (Node.eventsAll ns) (sketchesAll types · ns)
  | [], _ => fun _ _ _ _ => ⟨rfl, .nil⟩
  | n :: ns, h => by
    intro p top c hp
    obtain ⟨h₁, halong₁⟩ := plantsInScope_events types n (h n List.mem_cons_self) p top c hp
    obtain ⟨h₂, halong₂⟩ := plantsInScope_eventsAll types ns
      (fun m hm => h m (List.mem_cons_of_mem _ hm)) _ top c (hp.plant (sketches types c n))
    refine ⟨?_, halong₁.append h₁ halong₂⟩
    simp only [Node.eventsAll, Event.handleAll_append, h₁, Except.bind, h₂, plant_append,
      sketchesAll]

end

/-- The walk over the parse tree of a header plants the sketches of its parts under the root. At its
end nothing is open, and nothing is switched off. -/
theorem walk_eq (types : TypeReader) {text : String} {tree : Node}
    (h : Header.parse text = .ok tree) :
    walk (visit types) tree .start = .ok { Progress.start with draft :=
      ⟨Outline.empty.plantAll root (tree.children.flatMap (sketches types { tag := .header })),
        []⟩ } ∧
      Event.Along (visit types) NestingOpen tree.events .start := by
  obtain ⟨hrule, hbelow⟩ := parse_translationUnit h
  obtain ⟨r, s, t, ns⟩ := tree
  simp only [Node.rule, Node.children] at hrule hbelow ⊢
  subst hrule
  -- the root is opened first, and stays open over all that follows
  let p₀ : Progress := { Progress.start with draft := ⟨.empty, [root]⟩ }
  have hscope : p₀.InScope root { tag := .header } :=
    ⟨⟨⟨⟨[], rfl⟩, by decide⟩, rfl⟩, rfl, by simp [p₀, Progress.start, headerRules], by decide⟩
  obtain ⟨hparts, halong⟩ := plantsInScope_eventsAll types ns hbelow p₀ root _ hscope
  simp only [sketchesAll_eq] at hparts
  have hend : NestingOpen (.leave (.mk .translationUnit s t ns))
      (p₀.plant root (ns.flatMap (sketches types { tag := .header }))) := by
    rintro m hm hl
    obtain rfl := Event.leave.inj hm
    simp [ListsTypes, Node.rule] at hl
  have hleave := visit_leave types (n := .mk .translationUnit s t ns)
    (p := p₀.plant root (ns.flatMap (sketches types { tag := .header }))) rfl rfl
  rw [walk_eq_handleAll]
  exact handleAll_node rfl hparts halong hend hleave

/-- The outline of a header holds the sketches of its parse tree. -/
theorem ofTreeWith_eq (types : TypeReader) {text : String} {tree : Node}
    (h : Header.parse text = .ok tree) :
    ofTreeWith types tree =
      .ok (Outline.empty.plantAll root
        (tree.children.flatMap (sketches types { tag := .header }))) := by
  rw [ofTreeWith, (walk_eq types h).1]
  rfl

theorem layout_plantAll (ss : List Sketch) {o : Outline} (ho : o = Outline.empty.plantAll root ss) :
    o.parentOf root = none ∧ 0 < o.size ∧ Layout o root 1 (o.childrenOf root) o.size := by
  subst ho
  obtain ⟨hle, -, ids, hids, hlayout, -⟩ :=
    planted_plantAll (show root < Outline.empty.size by decide) ss
  refine ⟨by rw [parentOf, hids]; rfl, Nat.lt_of_lt_of_le (by decide) hle, ?_⟩
  have hchildren : (Outline.empty.plantAll root ss).childrenOf root = ids := by
    rw [childrenOf, hids]
    rfl
  rw [hchildren]
  exact hlayout

end HeaderBridge.Outline
