import HeaderBridge.Proofs.Grammar.Headers
import HeaderBridge.Proofs.Grammar.Occurrences
import HeaderBridge.Proofs.Outline.Respelling
import HeaderBridge.Proofs.Outline.StoredTypes

/-! # Outlines with types from parse nodes

The outline of a header is the one in which every type is read from its parse
nodes, except for the declarations in which a comment swallows a fragment.
-/

namespace HeaderBridge

open Grammar

namespace Outline

open DeclaredType

/-! ### Readers that agree on a tree -/

/-- The readers agree on the declarations of a tree. -/
structure TypeReader.AgreeIn (types types' : TypeReader) (tree : Node) : Prop where
  typeName : ∀ n : Node, n.Within tree → n.rule = .typeName → types.typeName n = types'.typeName n
  declaration : ∀ s f d : Node, s.Within tree → f.Within tree → s.rule = .specifierQualifierList →
    f.rule = .fieldDeclarator → f.child? .declarator = some d →
    types.declaration s d = types'.declaration s d

theorem within_part {m n c : Node} (hn : n.Within m) (hc : c ∈ n.children) : c.Within m := by
  induction hn with
  | self => exact .child hc .self
  | inside hin h ih => exact .inside hin ih

theorem within_child? {m n c : Node} {r : Rule} (hn : n.Within m) (hc : n.child? r = some c) :
    c.Within m ∧ c.rule = r := by
  obtain ⟨hmem, hr⟩ := Node.child?_eq_some hc
  exact ⟨within_part hn hmem, hr⟩

section Agree

variable {types types' : TypeReader} {tree : Node} (h : types.AgreeIn types' tree)
include h

theorem ivarSketch?_congr {s f : Node} (hs : s.Within tree) (hsr : s.rule = .specifierQualifierList)
    (hf : f.Within tree) (hfr : f.rule = .fieldDeclarator) :
    ivarSketch? types s f = ivarSketch? types' s f := by
  rw [ivarSketch?, ivarSketch?]
  cases hd : f.child? .declarator with
  | none => rfl
  | some d =>
    simp only [Option.bind_eq_bind, Option.bind_some, h.declaration s f d hs hf hsr hfr hd]

theorem propertyParts?_within {n field s d : Node} (hn : n.Within tree)
    (hp : propertyParts? n = some (field, s, d)) :
      types.declaration s d = types'.declaration s d := by
  simp only [propertyParts?, Option.bind_eq_bind, Option.bind_eq_some_iff, Option.pure_def,
    Option.some.injEq, Prod.mk.injEq] at hp
  obtain ⟨field, hfield, s, hs, list, hlist, f, hf, d, hd, rfl, rfl, rfl⟩ := hp
  have hfield := (within_child? hn hfield).1
  obtain ⟨hs, hsr⟩ := within_child? hfield hs
  obtain ⟨hf, hfr⟩ := within_child? (within_child? hfield hlist).1 hf
  exact h.declaration s f d hs hf hsr hfr hd

theorem leaves_congr {n : Node} (hn : n.Within tree) (c : Scope) :
    leaves types c n = leaves types' c n := by
  cases hr : n.rule
  case fieldDeclaration =>
    simp only [leaves, hr]
    by_cases hc : c.tag = .ivarList
    · rw [if_pos hc, if_pos hc]
      cases hs : n.child? .specifierQualifierList with
      | none => rfl
      | some s =>
        cases hl : n.child? .fieldDeclaratorList with
        | none => rfl
        | some list =>
          refine List.filterMap_congr fun f hf => ?_
          obtain ⟨hmem, hfr⟩ := Node.mem_childrenOf.mp hf
          obtain ⟨hs, hsr⟩ := within_child? hn hs
          exact ivarSketch?_congr h hs hsr (within_part (within_child? hn hl).1 hmem) hfr
    · rw [if_neg hc, if_neg hc]
  case propertyDeclaration =>
    simp only [leaves, hr]
    cases hp : propertyParts? n with
    | none => rfl
    | some parts =>
      obtain ⟨field, s, d⟩ := parts
      simp only [propertyParts?_within h hn hp]
  case typeName => simp only [leaves, hr, h.typeName n hn hr]
  all_goals simp only [leaves, hr]

end Agree

theorem sketches_congr {types types' : TypeReader} {tree : Node} (h : types.AgreeIn types' tree) :
    ∀ (n : Node), n.Within tree → ∀ c, sketches types c n = sketches types' c n
  | .mk r s t ns, hn, c => by
    have hparts : ∀ c, sketchesAll types c ns = sketchesAll types' c ns := fun c => by
      rw [sketchesAll_eq, sketchesAll_eq]
      exact List.flatMap_congr fun x hx => sketches_congr h x (within_part hn hx) c
    rw [sketches, sketches]
    cases c.opens? r with
    | none => simp only [leaves_congr h hn, hparts]
    | some kind => simp only [leaves_congr h hn, hparts]

/-- Readers that agree on the tree of a header give the same outline. -/
theorem ofTreeWith_congr {types types' : TypeReader} {text : String} {tree : Node}
    (h : types.AgreeIn types' tree) (hp : Header.parse text = .ok tree) :
    ofTreeWith types tree = ofTreeWith types' tree := by
  rw [ofTreeWith_eq types hp, ofTreeWith_eq types' hp,
    List.flatMap_congr fun n hn => sketches_congr h n (.child hn .self) _]

/-! ### Types from parse nodes -/

def TypeReader.direct (maxDepth : Nat) : TypeReader where
  typeName := readTypeName (.ofLevels maxDepth)
  declaration := readDeclaration (.ofLevels maxDepth)

/-- Types are read from their parse nodes, unless a comment hides one of their fragments when
they are spelled anew. -/
def TypeReader.directUnlessHidden (maxDepth : Nat) : TypeReader where
  typeName n :=
    if hidesDeclarator n then (respelled maxDepth).typeName n else (direct maxDepth).typeName n
  declaration s d :=
    if hidesTail d then (respelled maxDepth).declaration s d else (direct maxDepth).declaration s d

/-- Whether a comment hides a fragment of the type of a declaration. -/
def hidesFragment (n : Node) : Bool :=
  match n.rule with
  | .typeName => hidesDeclarator n
  | .fieldDeclarator => (n.child? .declarator).any hidesTail
  | _ => false

section Parsed

variable {text : String} {tree : Node} (h : Header.parse text = .ok tree)
include h

theorem read_within {n : Node} (hn : n.Within tree) (hr : n.rule ≠ .translationUnit) : n.Read := by
  cases hn with
  | self => exact absurd (parse_translationUnit h).1 hr
  | inside hc hn => exact (Header.read_of_parse h _ hc).1.within hn

theorem typeName_eq_direct {n : Node} (hn : n.Within tree) (hr : n.rule = .typeName)
    (hhide : hidesDeclarator n = false) (d : Nat) :
    (TypeReader.respelled d).typeName n = (TypeReader.direct d).typeName n :=
  readWithin_typeNameSpelling (read_within h hn (by rw [hr]; decide)) hr hhide d

theorem declaration_eq_direct {s f d : Node} (hs : s.Within tree) (hf : f.Within tree)
    (hsr : s.rule = .specifierQualifierList) (hd : f.child? .declarator = some d)
    (hhide : hidesTail d = false) (n : Nat) :
    (TypeReader.respelled n).declaration s d = (TypeReader.direct n).declaration s d := by
  obtain ⟨hd, hdr⟩ := within_child? hf hd
  exact readWithin_declarationSpelling (read_within h hs (by rw [hsr]; decide)) hsr
    (read_within h hd (by rw [hdr]; decide)) hdr hhide n

theorem agreeIn_directUnlessHidden (maxDepth : Nat) :
    (TypeReader.respelled maxDepth).AgreeIn (.directUnlessHidden maxDepth) tree := by
  refine ⟨fun n hn hr => ?_, fun s f d hs hf hsr hfr hd => ?_⟩
  · simp only [TypeReader.directUnlessHidden]
    by_cases hhide : hidesDeclarator n = true
    · rw [if_pos hhide]
    · rw [if_neg hhide]
      exact typeName_eq_direct h hn hr (by simpa using hhide) maxDepth
  · simp only [TypeReader.directUnlessHidden]
    by_cases hhide : hidesTail d = true
    · rw [if_pos hhide]
    · rw [if_neg hhide]
      exact declaration_eq_direct h hs hf hsr hd (by simpa using hhide) maxDepth

theorem agreeIn_direct (maxDepth : Nat)
    (hclear : ∀ n ∈ tree.occurrences [.typeName, .fieldDeclarator], hidesFragment n = false) :
    (TypeReader.respelled maxDepth).AgreeIn (.direct maxDepth) tree := by
  refine ⟨fun n hn hr => ?_, fun s f d hs hf hsr hfr hd => ?_⟩
  · have hhide := hclear n (Node.mem_occurrences_of_within hn (by simp [hr]))
    simp only [hidesFragment, hr] at hhide
    exact typeName_eq_direct h hn hr hhide maxDepth
  · have hhide := hclear f (Node.mem_occurrences_of_within hf (by simp [hfr]))
    simp only [hidesFragment, hfr, hd, Option.any_some] at hhide
    exact declaration_eq_direct h hs hf hsr hd hhide maxDepth

/-- The outline of an accepted header holds the types that its parse nodes denote, except for
declarations with a hidden fragment; without those it is the outline with types read directly.
The types in it are those of the sections of instance variables, of the properties and of the
type names in the parse tree, in source order. -/
theorem ofTree_types_direct (maxDepth : Nat) :
    (ofTree maxDepth tree = ofTreeWith (.directUnlessHidden maxDepth) tree ∧
      ∃ o, ofTree maxDepth tree = .ok o ∧ o.typesIn = (tree.occurrences typedRules).flatMap
        (TypeReader.directUnlessHidden maxDepth).typesOf) ∧
    ((∀ n ∈ tree.occurrences [.typeName, .fieldDeclarator], hidesFragment n = false) →
      ofTree maxDepth tree = ofTreeWith (.direct maxDepth) tree ∧
      ∃ o, ofTree maxDepth tree = .ok o ∧ o.typesIn = (tree.occurrences typedRules).flatMap
        (TypeReader.direct maxDepth).typesOf) := by
  constructor
  · have heq : ofTree maxDepth tree = _ :=
      ofTreeWith_congr (agreeIn_directUnlessHidden h maxDepth) h
    exact ⟨heq, heq ▸ typesIn_ofTreeWith h _⟩
  · intro hclear
    have heq : ofTree maxDepth tree = _ := ofTreeWith_congr (agreeIn_direct h maxDepth hclear) h
    exact ⟨heq, heq ▸ typesIn_ofTreeWith h _⟩

end Parsed

/-- Comments within the stars and behind the last fragment hide nothing. -/
def commentedTypes : String :=
  "@interface A \x7b\n int * // c\n _Nonnull a[2] /* d */ [3];\n\x7d\n" ++
    "- (id (^)(int x) // e\n)f;\n@end"

theorem ofTree_types_direct_comments : ∃ tree o,
    Header.parse commentedTypes = .ok tree ∧
    (∀ n ∈ tree.occurrences [.typeName, .fieldDeclarator], hidesFragment n = false) ∧
    ofTree 32 tree = ofTreeWith (.direct 32) tree ∧ ofTree 32 tree = .ok o ∧
    o.typesIn = (tree.occurrences typedRules).flatMap (TypeReader.direct 32).typesOf ∧
    o.typesIn =
      [.array (.array (.qualified (.pointer (.named "int")) ["_Nonnull"]) "2") "3",
        .block none (.object []) [.named "int"]] := by
  have hok : (Header.parse commentedTypes).isOk = true := by decide +kernel
  obtain ⟨tree, h⟩ := Header.exists_parse hok
  have hshown : (Header.parse commentedTypes).toOption.map (fun tree =>
      ((tree.occurrences [.typeName, .fieldDeclarator]).all fun n => !hidesFragment n,
        (ofTree 32 tree).toOption.map typesIn)) =
      some (true, some [.array (.array (.qualified (.pointer (.named "int")) ["_Nonnull"]) "2") "3",
        .block none (.object []) [.named "int"]]) := by decide +kernel
  rw [h] at hshown
  obtain ⟨hall, htypes⟩ := Prod.mk.inj (Option.some.inj hshown)
  have hclear : ∀ n ∈ tree.occurrences [.typeName, .fieldDeclarator], hidesFragment n = false := by
    simpa using hall
  obtain ⟨heq, o, ho, hdirect⟩ := (ofTree_types_direct h 32).2 hclear
  rw [ho] at htypes
  exact ⟨tree, o, h, hclear, heq, ho, hdirect, Option.some.inj htypes⟩

/-- A comment behind the stars hides the brackets of an array. -/
theorem property_comment_hides_array : ∃ tree,
    Header.parse "@interface A\n@property int * // c\n x[4];\n@end" = .ok tree ∧
    (ofTree 32 tree).toOption.map typesIn = some [.pointer (.named "int")] ∧
    (ofTreeWith (.direct 32) tree).toOption.map typesIn =
      some [.array (.pointer (.named "int")) "4"] := by
  have hok : (Header.parse "@interface A\n@property int * // c\n x[4];\n@end").isOk = true := by
    decide +kernel
  obtain ⟨tree, h⟩ := Header.exists_parse hok
  have htypes : (Header.parse "@interface A\n@property int * // c\n x[4];\n@end").toOption.map
      (fun tree => ((ofTree 32 tree).toOption.map typesIn,
        (ofTreeWith (.direct 32) tree).toOption.map typesIn)) =
      some (some [.pointer (.named "int")], some [.array (.pointer (.named "int")) "4"]) := by
    decide +kernel
  rw [h] at htypes
  obtain ⟨hrespelled, hdirect⟩ := Prod.mk.inj (Option.some.inj htypes)
  exact ⟨tree, h, hrespelled, hdirect⟩

end Outline

end HeaderBridge
