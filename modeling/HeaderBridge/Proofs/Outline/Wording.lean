import HeaderBridge.Proofs.DeclaredType.Written
import HeaderBridge.Proofs.Outline.Faithfulness

/-! # The words of an outline

Nothing of a header but its identifiers and its types reaches the outline. Every
text that a node carries is a single identifier, and every type is a written one.
-/

namespace HeaderBridge.Outline

open Grammar Declaration

/-! ### Names of parse nodes -/

section Names

variable {n : Node} (hn : n.Read)
include hn

theorem isIdent_child? {r : Rule} (hr : r ∈ Rule.names) {x : Node} (h : n.child? r = some x) :
    IsIdent x.text.toList := by
  obtain ⟨hmem, hrule⟩ := Node.child?_eq_some h
  exact (hn.part hmem).1.isIdent (by rwa [hrule])

theorem isIdent_childText? {r : Rule} (hr : r ∈ Rule.names) {name : String}
    (h : n.childText? r = some name) : IsIdent name.toList := by
  obtain ⟨x, hx, rfl⟩ := Option.map_eq_some_iff.mp h
  exact isIdent_child? hn hr hx

theorem isIdent_nullability (hr : n.rule = .nullabilitySpecifier) : IsIdent n.text.toList := by
  have hall : ∀ w ∈ Rule.nullabilitySpecifier.spellings, startsIdent w.toList = true ∧
      ∀ c ∈ w.toList, isIdentChar c = true := by decide
  obtain ⟨hstart, hchars⟩ := hall _ (DeclaredType.mem_nullability_of_read hn hr)
  exact ⟨hstart, hchars⟩

theorem isIdent_declaratorName? {name : String} (h : DeclaredType.declaratorName? n = some name) :
    IsIdent name.toList := by
  obtain ⟨direct, hdirect, h⟩ := Option.bind_eq_some_iff.mp h
  exact isIdent_childText? (hn.part (Node.child?_eq_some hdirect).1).1 (by decide) h

theorem isIdent_name? {name : String} (h : Direct.name? n = some name) : IsIdent name.toList := by
  unfold Direct.name? at h
  split at h
  · exact isIdent_childText? hn (by decide) h
  · obtain ⟨x, hx, h⟩ := Option.bind_eq_some_iff.mp h
    exact isIdent_childText? (hn.part (Node.child?_eq_some hx).1).1 (by decide) h

end Names

/-! ### Worded nodes -/

def Modifier.text : Modifier → String
  | keyword s | getter s | setter s => s

/-- What a node carries is a single identifier or a written type. -/
def Kind.Worded : Kind → Prop
  | .classInterface slot | .categoryInterface slot | .protocolDeclaration slot =>
    ∃ name, slot = .valid name ∧ IsIdent name.toList
  | .modifier m => IsIdent m.text.toList
  | .protocolName s | .superclassName s | .categoryName s | .identifier s | .nullability s =>
    IsIdent s.toList
  | .typeName t => DeclaredType.Written .declared t
  | _ => True

inductive Sketch.Worded : Sketch → Prop where
  | mk {kind : Kind} {span : Option Span} {parts : List Sketch} :
      kind.Worded → (∀ s ∈ parts, s.Worded) → Worded (.mk kind span parts)

theorem Sketch.Worded.kind {s : Sketch} (h : s.Worded) : s.kind.Worded := by
  cases h with
  | mk hkind _ => exact hkind

theorem Sketch.Worded.parts {s : Sketch} (h : s.Worded) : ∀ q ∈ s.parts, q.Worded := by
  cases h with
  | mk _ hparts => exact hparts

theorem Sketch.worded_leaf {k : Kind} (hk : k.Worded) (n : Node) : (Sketch.leaf k n).Worded :=
  .mk hk (by simp)

/-! ### Trees of parse nodes -/

structure TypeReader.Writes (types : TypeReader) : Prop where
  typeName {n : Node} {t : DeclaredType} : types.typeName n = some t →
    DeclaredType.Written .declared t
  declaration {specifiers declarator : Node} {t : DeclaredType} :
    types.declaration specifiers declarator = some t → DeclaredType.Written .declared t

theorem TypeReader.respelled_writes (maxDepth : Nat) : (TypeReader.respelled maxDepth).Writes where
  typeName h := by
    obtain ⟨s, -, h⟩ := Option.bind_eq_some_iff.mp h
    exact DeclaredType.written_of_readWithin h
  declaration h := by
    obtain ⟨s, -, h⟩ := Option.bind_eq_some_iff.mp h
    exact DeclaredType.written_of_readWithin h

theorem isIdent_modifierOf? {n : Node} (hn : n.Read) {m : Modifier} (h : modifierOf? n = some m) :
    IsIdent m.text.toList := by
  unfold modifierOf? at h
  split at h
  · obtain ⟨name, hname, rfl⟩ := Option.map_eq_some_iff.mp h
    exact isIdent_childText? hn (by decide) hname
  · obtain ⟨name, hname, rfl⟩ := Option.map_eq_some_iff.mp h
    exact isIdent_childText? hn (by decide) hname
  · obtain ⟨word, hword, rfl⟩ := Option.map_eq_some_iff.mp h
    rcases Option.or_eq_some_iff.mp hword with hword | ⟨-, hword⟩
    · exact isIdent_childText? hn (by decide) hword
    · obtain ⟨x, hx, rfl⟩ := Option.map_eq_some_iff.mp hword
      obtain ⟨hmem, hrule⟩ := Node.child?_eq_some hx
      exact isIdent_nullability (hn.part hmem).1 hrule

section Sketches

variable {types : TypeReader} (htypes : types.Writes)
include htypes

theorem worded_ivarSketch? {specifiers field : Node} (hfield : field.Read) {s : Sketch}
    (h : ivarSketch? types specifiers field = some s) : s.Worded := by
  unfold ivarSketch? at h
  simp only [Option.bind_eq_bind, Option.bind_eq_some_iff, Option.pure_def, Option.some.injEq] at h
  obtain ⟨declarator, hdeclarator, name, hname, type, htype, rfl⟩ := h
  have hdeclarator := (hfield.part (Node.child?_eq_some hdeclarator).1).1
  refine .mk trivial fun q hq => ?_
  rcases List.mem_pair.mp hq with rfl | rfl
  · exact .mk (htypes.declaration htype) (by simp)
  · exact Sketch.worded_leaf (k := .identifier name) (isIdent_declaratorName? hdeclarator hname) _

theorem worded_leafOf {n m : Node} (hn : n.Read) {k : Kind} (h : LeafOf types n k m) :
    k.Worded := by
  cases h with
  | superclass hx | category hx => exact isIdent_child? hn (by decide) hx
  | piece hr hx =>
    exact isIdent_child? hn (by rcases List.mem_pair.mp hr with rfl | rfl <;> decide) hx
  | protocolName hr => exact hn.isIdent (by rw [hr]; decide)
  | keyword => trivial
  | propertyName _ hparts hname =>
    simp only [propertyParts?, Option.bind_eq_bind, Option.bind_eq_some_iff, Option.pure_def,
      Option.some.injEq, Prod.mk.injEq] at hparts
    obtain ⟨field, hfield, _, -, list, hlist, first, hfirst, _, hdeclarator, -, -, rfl⟩ := hparts
    have hlist := ((hn.of_child? hfield).1.of_child? hlist).1
    exact isIdent_declaratorName? ((hlist.of_child? hfirst).1.of_child? hdeclarator).1 hname
  | propertyType _ ht => exact htypes.declaration ht
  | modifier h => exact isIdent_modifierOf? hn h
  | typeName h => exact htypes.typeName h
  | nullability hr => exact isIdent_nullability hn hr

omit htypes

theorem worded_opened {n : Node} (hn : n.Read) {c : Scope} {kind : Kind}
    (h : c.opens? n.rule = some kind) : (filled n kind).Worded := by
  obtain ⟨hlookup, -⟩ := lookup_of_opens? h
  have hall : ∀ r ∈ Rule.all, ∀ tag ∈ Tag.all, headerTargets.lookup r = some (.fresh tag) →
      (r ∈ typeRules ∧ tag ∈ typeTags) ∨ tag ∈ [.ivarList, .protocolList, .property, .modifierList,
        .method, .methodType, .selector, .keywordDeclarator] := by decide +kernel
  have htag : (filled n kind).tag = kind.tag := tag_filled rfl fun _ => hlookup
  rcases Rule.forall_of_all hall n.rule _ (Tag.mem_all kind.tag) hlookup with ⟨htype, hmem⟩ | hmem
  · obtain ⟨name, hname⟩ := exists_name? hn htype
    rw [filled_of_name? htype hname]
    cases kind <;> simp [Kind.tag, typeTags] at hmem <;> exact ⟨name, rfl, isIdent_name? hn hname⟩
  · rw [← htag] at hmem
    generalize filled n kind = k at hmem
    cases k <;> simp [Kind.tag] at hmem <;> trivial

theorem worded_sketches (htypes : types.Writes) (n : Node) (c : Scope) (hn : n.Read) :
    ∀ s ∈ sketches types c n, s.Worded := by
  refine forall_sketches (Q := fun _ n => n.Read) (P := fun _ _ s => s.Worded)
    (fun hn hx => ⟨(hn.part hx).1, fun hs => hs⟩) (fun hn hs => ?_)
    (fun hn hopens _ hparts => .mk (worded_opened hn hopens) hparts) n c hn
  rcases mem_leaves hs with ⟨k, m, hleaf, rfl⟩ | ⟨list, field, specifiers, hlist, hfield, hs⟩
  · exact Sketch.worded_leaf (worded_leafOf htypes hn hleaf) m
  · exact worded_ivarSketch? htypes ((hn.of_child? hlist).1.part hfield).1 hs

end Sketches

/-! ### Outlines -/

def Worded (o : Outline) : Prop := ∀ i k, o.kindOf? i = some k → k.Worded

/-- The outline of a header repeats identifiers and types, and nothing else. -/
theorem worded_of_parse {types : TypeReader} (htypes : types.Writes) {text : String} {tree : Node}
    {o : Outline} (h : Header.parse text = .ok tree) (ho : ofTreeWith types tree = .ok o) :
    Worded o := by
  have ha := arranged_of_parse h ho
  rw [ofTreeWith_eq types h] at ho
  obtain rfl := Except.ok.inj ho
  intro i k hk
  rcases Nat.eq_zero_or_pos i with rfl | hpos
  · obtain rfl : Kind.header = k := Option.some.inj (ha.top.symm.trans hk)
    trivial
  · obtain ⟨e, he, -⟩ := Option.map_eq_some_iff.mp hk
    obtain ⟨s, hs, hworded⟩ := ha.layout.exists_sketch (P := Sketch.Worded) (fun _ h => h.parts)
      (standAt_root _)
      (fun s hs => by
        obtain ⟨n, hn, hs⟩ := List.mem_flatMap.mp hs
        exact worded_sketches htypes n _ (Header.read_of_parse h n hn).1 s hs)
      i hpos (lt_size_of_get? he)
    obtain rfl : s.kind = k := Option.some.inj (hs.kindOf?.symm.trans hk)
    exact hworded.kind

end HeaderBridge.Outline
