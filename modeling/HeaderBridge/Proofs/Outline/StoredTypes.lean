import HeaderBridge.Proofs.Grammar.Alternatives
import HeaderBridge.Proofs.Outline.Arrangement

/-! # The types that an outline stores

Every type in the outline of a header belongs to a declaration in the parse tree:
to an instance variable with a name, to the first declarator of a property, or to
the parentheses of a method. The outline stores those that can be read, in source
order and nothing else.
-/

namespace HeaderBridge.Outline

open Grammar

/-! ### Types in source order -/

def typesIn (o : Outline) : List DeclaredType :=
  o.entries.toList.filterMap fun e => e.kind.type?

mutual

def Sketch.types : Sketch → List DeclaredType
  | .mk kind _ parts => kind.type?.toList ++ Sketch.typesAll parts

def Sketch.typesAll : List Sketch → List DeclaredType
  | [] => []
  | s :: ss => s.types ++ Sketch.typesAll ss

end

theorem Sketch.typesAll_eq (ss : List Sketch) : Sketch.typesAll ss = ss.flatMap Sketch.types := by
  induction ss with
  | nil => rfl
  | cons s ss ih => rw [typesAll, ih, List.flatMap_cons]

theorem typesIn_modify {f : Entry → Entry} (hf : ∀ e, (f e).kind = e.kind) (o : Outline)
    (id : Nat) : (o.modify id f).typesIn = o.typesIn := by
  have hlist : ∀ (es : List Entry) (i : Nat),
      (es.modify i f).filterMap (fun e => e.kind.type?) = es.filterMap fun e => e.kind.type? := by
    intro es
    induction es with
    | nil => simp
    | cons e es ih => rintro (_ | i) <;> simp [hf, ih, List.filterMap_cons]
  rw [typesIn, modify, Array.toList_modify, hlist, typesIn]

theorem typesIn_hang (o : Outline) (top : Nat) (e : Entry) :
    (o.hang top e).typesIn = o.typesIn ++ e.kind.type?.toList := by
  rw [hang, typesIn_modify (by simp), typesIn_modify (by simp)]
  simp only [typesIn, alloc, Array.toList_push, List.filterMap_append, List.filterMap_cons,
    List.filterMap_nil]
  cases e.kind.type? <;> rfl

mutual

theorem typesIn_plant (o : Outline) (top : Nat) :
    ∀ s : Sketch, (o.plant top s).typesIn = o.typesIn ++ s.types
  | .mk kind span parts => by
    rw [plant, typesIn_plantAll _ _ parts, typesIn_hang, Sketch.types, List.append_assoc]

theorem typesIn_plantAll (o : Outline) (top : Nat) :
    ∀ ss : List Sketch, (o.plantAll top ss).typesIn = o.typesIn ++ Sketch.typesAll ss
  | [] => by rw [plantAll, Sketch.typesAll, List.append_nil]
  | s :: ss => by
    rw [plantAll, typesIn_plantAll _ _ ss, typesIn_plant _ _ s, Sketch.typesAll, List.append_assoc]

end

/-! ### Types of parse nodes -/

def typedRules : List Rule := [.visibilitySection, .propertyDeclaration, .typeName]

namespace TypeReader

variable (types : TypeReader)

/-- The type of a declarator that has a name. -/
def fieldType? (specifiers field : Node) : Option DeclaredType := do
  let declarator ← field.child? .declarator
  let _ ← DeclaredType.declaratorName? declarator
  types.declaration specifiers declarator

def fieldTypes (n : Node) : List DeclaredType :=
  match n.child? .specifierQualifierList, n.child? .fieldDeclaratorList with
  | some specifiers, some list =>
    (list.childrenOf .fieldDeclarator).filterMap (types.fieldType? specifiers)
  | _, _ => []

/-- The types that a parse node declares, as far as they can be read. -/
def typesOf (n : Node) : List DeclaredType :=
  match n.rule with
  | .visibilitySection => (n.childrenOf .fieldDeclaration).flatMap types.fieldTypes
  | .propertyDeclaration =>
    ((propertyParts? n).bind fun (_, specifiers, declarator) =>
      types.declaration specifiers declarator).toList
  | .typeName => (types.typeName n).toList
  | _ => []

/-- The types that a parse node adds by itself. -/
def leafTypes (c : Scope) (n : Node) : List DeclaredType :=
  match n.rule with
  | .fieldDeclaration => if c.tag = .ivarList then types.fieldTypes n else []
  | .visibilitySection => []
  | _ => types.typesOf n

end TypeReader

variable {types : TypeReader}

theorem types_leaf {α : Type} (x : Option α) (k : α → Kind) (m : α → Node) :
    Sketch.typesAll (x.map fun a => Sketch.leaf (k a) (m a)).toList =
      (x.bind fun a => (k a).type?).toList := by
  cases x with
  | none => rfl
  | some a => simp [Sketch.leaf, Sketch.typesAll, Sketch.types]

theorem types_ivarSketches (specifiers : Node) (fields : List Node) :
    Sketch.typesAll (fields.filterMap (ivarSketch? types specifiers)) =
      fields.filterMap (types.fieldType? specifiers) := by
  induction fields with
  | nil => rfl
  | cons f fs ih =>
    rw [List.filterMap_cons, List.filterMap_cons, ivarSketch?, TypeReader.fieldType?]
    cases f.child? .declarator with
    | none => exact ih
    | some d =>
      cases hname : DeclaredType.declaratorName? d with
      | none => simpa [hname] using ih
      | some name =>
        cases htype : types.declaration specifiers d with
        | none => simpa [hname, htype] using ih
        | some t => simp [hname, htype, Sketch.typesAll, Sketch.types, Sketch.leaf, Kind.type?, ih]

theorem types_leaves (c : Scope) (n : Node) :
    Sketch.typesAll (leaves types c n) = types.leafTypes c n := by
  have happend : ∀ ss ts : List Sketch,
      Sketch.typesAll (ss ++ ts) = Sketch.typesAll ss ++ Sketch.typesAll ts := by
    simp [Sketch.typesAll_eq]
  cases hr : n.rule
  case fieldDeclaration =>
    simp only [leaves, TypeReader.leafTypes, hr]
    by_cases hc : c.tag = .ivarList
    · simp only [hc, if_true, TypeReader.fieldTypes]
      cases n.child? .specifierQualifierList with
      | none => rfl
      | some specifiers =>
        cases n.child? .fieldDeclaratorList with
        | none => rfl
        | some list => exact types_ivarSketches specifiers _
    · simp only [hc, if_false]
      rfl
  case propertyDeclaration =>
    simp only [leaves, TypeReader.leafTypes, TypeReader.typesOf, hr]
    cases propertyParts? n with
    | none => rfl
    | some parts => simp [happend, types_leaf, Kind.type?]
  case typeName =>
    simp [leaves, TypeReader.leafTypes, TypeReader.typesOf, hr, types_leaf]
  case protocolName =>
    simp only [leaves, TypeReader.leafTypes, TypeReader.typesOf, hr]
    split <;> simp [Sketch.leaf, Sketch.typesAll, Sketch.types, Kind.type?]
  case nullabilitySpecifier =>
    simp only [leaves, TypeReader.leafTypes, TypeReader.typesOf, hr]
    split <;> simp [Sketch.leaf, Sketch.typesAll, Sketch.types, Kind.type?]
  all_goals
    simp [leaves, TypeReader.leafTypes, TypeReader.typesOf, hr, Sketch.leaf?, happend, types_leaf,
      Kind.type?, Sketch.typesAll]

/-! ### Types of trees -/

theorem type?_filled {c : Scope} {n : Node} {kind : Kind} (h : c.opens? n.rule = some kind) :
    (filled n kind).type? = none := by
  obtain ⟨hlookup, -⟩ := lookup_of_opens? h
  have hall : ∀ r ∈ Rule.all, headerTargets.lookup r ≠ some (.fresh .typeName) := by decide
  have htag : (filled n kind).tag ≠ .typeName := by
    rw [tag_filled rfl fun _ => hlookup]
    exact fun heq => Rule.forall_of_all hall n.rule (heq ▸ hlookup)
  revert htag
  cases filled n kind <;> simp [Kind.tag, Kind.type?]

theorem types_sketches_eq (c : Scope) (n : Node) :
    Sketch.typesAll (sketches types c n) = types.leafTypes (c.opened n.rule) n ++
      n.children.flatMap fun x => Sketch.typesAll (sketches types (c.within n.rule) x) := by
  have hparts : Sketch.typesAll (leaves types (c.opened n.rule) n ++
        sketchesAll types (c.within n.rule) n.children) =
      types.leafTypes (c.opened n.rule) n ++
        n.children.flatMap fun x => Sketch.typesAll (sketches types (c.within n.rule) x) := by
    rw [← types_leaves, sketchesAll_eq]
    simp only [Sketch.typesAll_eq, List.flatMap_append, List.flatMap_assoc]
  rw [sketches_eq_opened]
  cases hopens : c.opens? n.rule with
  | none => exact hparts
  | some kind =>
    simp only [Sketch.typesAll, Sketch.types, type?_filled hopens, Option.toList_none,
      List.nil_append, List.append_nil]
    exact hparts

theorem tag_within (c : Scope) :
    (c.within .propertyDeclaration).tag = .property ∧
      (c.within .visibilitySection).tag = c.tag ∧ (c.opened .fieldDeclaration).tag = c.tag := by
  obtain ⟨tag, inGeneric, inList⟩ := c
  cases inGeneric <;> exact ⟨rfl, rfl, rfl⟩

/-- A field declaration adds types by itself in a list of instance variables only. -/
theorem leafTypes_of_part {c : Scope} {n x : Node} (hn : n.Read) (hx : x ∈ n.children)
    (hr : n.rule ≠ .visibilitySection) (hxr : x.rule = .fieldDeclaration) :
    types.leafTypes (c.within n.rule) x = [] := by
  have hall : ∀ r ∈ Rule.all, r.kind = .branch → r ≠ .visibilitySection →
      .fieldDeclaration ∈ r.body.seen.flatMap Rule.leaves → r = .propertyDeclaration := by
    decide +kernel
  obtain ⟨-, hbranch, hpart⟩ := hn.part hx
  have hproperty := Rule.forall_of_all hall n.rule hbranch hr (hxr ▸ hpart)
  simp [TypeReader.leafTypes, hxr, hproperty, (tag_within c).1]

/-- No types are declared below the parts of a section of instance variables. -/
theorem occurrences_of_section {n x : Node} (hn : n.Read) (hr : n.rule = .visibilitySection)
    (hx : x ∈ n.children) : x.occurrences typedRules = [] := by
  let rs : List Rule := .accessModifier :: .fieldDeclaration :: Rule.all.filter (· ∉ declaring)
  have hclosed : ∀ r ∈ rs, r ∉ typedRules ∧
      (r.kind = .branch → ∀ r' ∈ r.body.seen.flatMap Rule.leaves, r' ∈ rs) := by decide +kernel
  have hparts : ∀ r' ∈ Rule.visibilitySection.body.seen.flatMap Rule.leaves, r' ∈ rs := by
    decide +kernel
  obtain ⟨hread, hrule⟩ := hn.part_of hr hparts hx
  exact hread.occurrences_of_closed hrule hclosed

theorem leafTypes_eq (c : Scope) {n : Node} (hr : n.rule ≠ .visibilitySection) :
    types.leafTypes (c.opened n.rule) n =
      (if n.rule = .fieldDeclaration then types.leafTypes c n else []) ++
        (if n.rule ∈ typedRules then [n] else []).flatMap types.typesOf := by
  cases hrule : n.rule
  case visibilitySection => exact absurd hrule hr
  case fieldDeclaration =>
    simp [TypeReader.leafTypes, hrule, (tag_within c).2.2, typedRules]
  all_goals simp [TypeReader.leafTypes, TypeReader.typesOf, hrule, typedRules]

section Step

variable {c : Scope} {n : Node} (hn : n.Read)
  (hparts : ∀ x ∈ n.children, Sketch.typesAll (sketches types (c.within n.rule) x) =
    (if x.rule = .fieldDeclaration then types.leafTypes (c.within n.rule) x else []) ++
      (x.occurrences typedRules).flatMap types.typesOf)
include hn hparts

theorem types_section (hr : n.rule = .visibilitySection) (hc : c.tag = .ivarList) :
    Sketch.typesAll (sketches types c n) = (n.occurrences typedRules).flatMap types.typesOf := by
  have hfields : ∀ ns : List Node,
      (ns.filter (·.rule = .fieldDeclaration)).flatMap types.fieldTypes =
      ns.flatMap fun x => if x.rule = .fieldDeclaration then types.fieldTypes x else [] := by
    intro ns
    induction ns with
    | nil => rfl
    | cons x xs ih => by_cases hx : x.rule = .fieldDeclaration <;> simp [hx, ih]
  have hbelow : ∀ x ∈ n.children, Sketch.typesAll (sketches types (c.within n.rule) x) =
      if x.rule = .fieldDeclaration then types.fieldTypes x else [] := by
    intro x hx
    rw [hparts x hx, occurrences_of_section hn hr hx, hr]
    by_cases hxr : x.rule = .fieldDeclaration
    · simp [hxr, TypeReader.leafTypes, (tag_within c).2.1, hc]
    · simp [hxr]
  have hnone : n.children.flatMap (Node.occurrences typedRules) = [] :=
    List.flatMap_eq_nil_iff.mpr fun x hx => occurrences_of_section hn hr hx
  rw [types_sketches_eq, List.flatMap_congr hbelow, ← hfields, Node.occurrences_eq, hnone]
  simp [TypeReader.leafTypes, TypeReader.typesOf, hr, typedRules, Node.childrenOf]

theorem types_other (hr : n.rule ≠ .visibilitySection) : Sketch.typesAll (sketches types c n) =
    (if n.rule = .fieldDeclaration then types.leafTypes c n else []) ++
      (n.occurrences typedRules).flatMap types.typesOf := by
  have hbelow : ∀ x ∈ n.children, Sketch.typesAll (sketches types (c.within n.rule) x) =
      (x.occurrences typedRules).flatMap types.typesOf := by
    intro x hx
    rw [hparts x hx]
    split
    · next hxr => rw [leafTypes_of_part hn hx hr hxr, List.nil_append]
    · rfl
  rw [types_sketches_eq, List.flatMap_congr hbelow, leafTypes_eq c hr, Node.occurrences_eq,
    List.flatMap_append, List.flatMap_assoc, List.append_assoc]

end Step

/-- The trees of a parse node have the types that the nodes in it declare. The types that a field
declaration adds itself are those of the section around it. -/
theorem types_sketches : ∀ (n : Node) (c : Scope), n.Read → c.Admits n.rule →
    Sketch.typesAll (sketches types c n) =
      (if n.rule = .fieldDeclaration then types.leafTypes c n else []) ++
        (n.occurrences typedRules).flatMap types.typesOf
  | .mk r s t ns, c, hn, hc => by
    have hparts : ∀ x ∈ ns, Sketch.typesAll (sketches types (c.within r) x) =
        (if x.rule = .fieldDeclaration then types.leafTypes (c.within r) x else []) ++
          (x.occurrences typedRules).flatMap types.typesOf := by
      intro x hx
      obtain ⟨hread, hbranch, hpart⟩ := hn.part hx
      exact types_sketches x _ hread (hc.part hbranch hpart)
    by_cases hr : r = .visibilitySection
    · subst hr
      rw [if_neg (by simp [Node.rule]), List.nil_append]
      exact types_section hn hparts rfl (List.mem_singleton.mp hc.host)
    · exact types_other hn hparts hr

/-- The outline of an accepted header stores the types that the parse tree declares. -/
theorem typesIn_ofTreeWith {text : String} {tree : Node} (h : Header.parse text = .ok tree)
    (types : TypeReader) :
    ∃ o, ofTreeWith types tree = .ok o ∧
      o.typesIn = (tree.occurrences typedRules).flatMap types.typesOf := by
  have hall : ∀ r ∈ Rule.translationUnit.body.seen.flatMap Rule.leaves,
      .header ∈ hosts r ∧ r ≠ .protocolList ∧ r ≠ .fieldDeclaration := by decide
  have hparts : ∀ n ∈ tree.children, Sketch.typesAll (sketches types { tag := .header } n) =
      (n.occurrences typedRules).flatMap types.typesOf := by
    intro n hn
    obtain ⟨hread, hrule⟩ := Header.read_of_parse h n hn
    obtain ⟨hhost, hlist, hfield⟩ := hall _ hrule
    rw [types_sketches n _ hread ⟨hhost, fun heq => absurd heq hlist⟩, if_neg hfield,
      List.nil_append]
  have hroot : tree.rule ∉ typedRules := by
    rw [(parse_translationUnit h).1]
    decide
  refine ⟨_, ofTreeWith_eq types h, ?_⟩
  rw [typesIn_plantAll, Node.occurrences_eq, if_neg hroot, List.nil_append, List.flatMap_assoc,
    ← List.flatMap_congr hparts]
  simp only [Sketch.typesAll_eq, List.flatMap_assoc]
  rfl

end HeaderBridge.Outline
