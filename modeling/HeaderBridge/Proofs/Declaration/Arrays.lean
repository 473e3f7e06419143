import HeaderBridge.Proofs.Declaration.Fields
import HeaderBridge.Proofs.DeclaredType.RoundTrip
import HeaderBridge.Proofs.DeclaredType.Written
import HeaderBridge.Proofs.Outline.DirectTypes

/-! # Arrays of arrays

The brackets behind a declarator are applied from left to right, each one around
what stands before it. An array of several dimensions becomes tuples in tuples,
with the last dimension outermost: the other way round than C reads it.
-/

namespace HeaderBridge

open Grammar Lowering

/-- Tuples of the given sizes in each other, the first one outermost, around an element. -/
def SwiftType.grid (dims : List Nat) (element : SwiftType) : SwiftType :=
  dims.foldr (fun n t => .tuple (List.replicate n t)) element

namespace SwiftType

theorem grid_append (ms ns : List Nat) (t : SwiftType) : grid (ms ++ ns) t = grid ms (grid ns t) :=
  List.foldr_append ..

theorem grid_injective {ms ns : List Nat} (hlength : ms.length = ns.length) (hms : ∀ n ∈ ms, 0 < n)
    {t u : SwiftType} (h : grid ms t = grid ns u) : ms = ns := by
  induction ms generalizing ns with
  | nil => exact (List.length_eq_zero_iff.mp hlength.symm).symm
  | cons m ms ih =>
    cases ns with
    | nil => cases hlength
    | cons n ns =>
      obtain ⟨hm, hms⟩ := List.forall_mem_cons.mp hms
      have htuple : List.replicate m (grid ms t) = List.replicate n (grid ns u) := tuple.inj h
      obtain ⟨rfl, helements⟩ := List.replicate_inj.mp htuple
      rw [ih (Nat.succ.inj hlength) hms (helements.resolve_left (Nat.ne_of_gt hm))]

/-- Sizes in reverse order give the same tuples only if they are the same from both ends. -/
theorem grid_reverse_eq_iff {dims : List Nat} (hdims : ∀ n ∈ dims, 0 < n) (t : SwiftType) :
    grid dims.reverse t = grid dims t ↔ dims.reverse = dims := by
  constructor
  · refine grid_injective (List.length_reverse) fun n hn => hdims n (List.mem_reverse.mp hn)
  · exact fun h => by rw [h]

end SwiftType

namespace Lowering

open SwiftType (grid)

def elementType (s : Setting) (t : DeclaredType) : SwiftType := finish s none t (core s t)

/-- Each pair of brackets puts a tuple around the type before it. -/
theorem elementType_arrays (s : Setting) {ls : List String} {dims : List Nat}
    (hls : ls.map readLength? = dims.map some) (hdims : ∀ n ∈ dims, 2 ≤ n ∧ n ≤ maxTupleLength)
    (t : DeclaredType) :
    elementType s (ls.foldl .array t) = grid dims.reverse (elementType s t) := by
  induction ls generalizing t dims with
  | nil =>
    obtain rfl : dims = [] := List.map_eq_nil_iff.mp hls.symm
    rfl
  | cons l ls ih =>
    cases dims with
    | nil => cases hls
    | cons n dims =>
      obtain ⟨hl, hls⟩ := List.cons.inj hls
      obtain ⟨hn, hdims⟩ := List.forall_mem_cons.mp hdims
      have harray : elementType s (.array t l) = .tuple (List.replicate n (elementType s t)) := by
        change arrayType (elementType s t) l = _
        rw [arrayType, hl]
        simp [show n ≠ 1 by omega, show 1 < n by omega, hn.2]
      rw [List.foldl_cons, ih hls hdims, List.reverse_cons, SwiftType.grid_append, harray]
      rfl

theorem exists_array {ls : List String} {dims : List Nat} (hne : dims ≠ [])
    (hls : ls.map readLength? = dims.map some) (t : DeclaredType) :
    ∃ u l, ls.foldl .array t = .array u l := by
  have hne : ls ≠ [] := by
    rintro rfl
    exact hne (List.map_eq_nil_iff.mp hls.symm)
  refine ⟨ls.dropLast.foldl .array t, ls.getLast hne, ?_⟩
  nth_rewrite 1 [← List.dropLast_concat_getLast hne]
  exact List.foldl_append ..

theorem swiftType_arrays (ctx : Context) {ls : List String} {dims : List Nat} (hne : dims ≠ [])
    (hls : ls.map readLength? = dims.map some) (hdims : ∀ n ∈ dims, 2 ≤ n ∧ n ≤ maxTupleLength)
    (t : DeclaredType) :
    swiftType ctx (ls.foldl .array t) = grid dims.reverse (elementType ctx.toSetting t) := by
  rw [← elementType_arrays ctx.toSetting hls hdims t]
  obtain ⟨u, l, harray⟩ := exists_array hne hls t
  rw [harray]
  rfl

end Lowering

namespace DeclaredType

open SwiftType (grid)

variable {dims : List Nat} {ls : List String} {e : DeclaredType}

/-! ### Brackets in a parse tree -/

/-- The type of specifiers that have no words for the declared entity as a whole. -/
def bareBase? (inner : Inner) (list : Node) : Option DeclaredType :=
  if (outerWords list).specifiers = [] ∧ (outerWords list).qualifiers = [] then readBase inner list
  else none

def lengthIn (suffix : Node) : String := Text.trim ((suffix.childText? .arrayLength).getD "")

def dimensions? (declarator : Node) : Option (List Nat) := do
  let direct ← declarator.child? .directDeclarator
  if (declarator.child? .pointer).isSome || (direct.child? .blockParameters).isSome then none
  else (direct.childrenOf .declaratorSuffix).mapM fun s => readLength? (lengthIn s)

theorem bareBase?_eq_some {inner : Inner} {list : Node} {t : DeclaredType}
    (h : bareBase? inner list = some t) :
    readBase inner list = some t ∧ ∀ u : DeclaredType, (outerWords list).wrap u = u := by
  rw [bareBase?] at h
  split at h
  · next hnone =>
    refine ⟨h, fun u => ?_⟩
    rw [Adornment.wrap, hnone.1, hnone.2]
    rfl
  · cases h

theorem foldl_addArray (suffixes : List Node) (t : DeclaredType) :
    suffixes.foldl addArray t = (suffixes.map lengthIn).foldl array t := by
  rw [List.foldl_map]
  rfl

/-- Brackets are added from left to right. -/
theorem addDeclarator_of_dimensions {declarator : Node} (h : dimensions? declarator = some dims) :
    ∃ ls : List String, ls.map readLength? = dims.map some ∧ declarator.child? .pointer = none ∧
      ∀ inner t, addDeclarator inner t declarator = some (ls.foldl array t) := by
  obtain ⟨direct, hdirect, h⟩ := Option.bind_eq_some_iff.mp h
  split at h
  · cases h
  · next hnone =>
    rw [Bool.or_eq_true, not_or, Bool.not_eq_true, Bool.not_eq_true, Option.isSome_eq_false_iff,
      Option.isSome_eq_false_iff, Option.isNone_iff_eq_none, Option.isNone_iff_eq_none] at hnone
    refine ⟨(direct.childrenOf .declaratorSuffix).map lengthIn, ?_, hnone.1, fun inner t => ?_⟩
    · rw [← List.forall₂_eq_eq_eq, List.forall₂_map_left_iff, List.forall₂_map_left_iff,
        List.forall₂_map_right_iff]
      exact forall₂_of_mapM h
    · simp only [addDeclarator, hnone.1, hdirect, Option.bind_eq_bind, Option.bind_some, hnone.2,
        foldl_addArray]
      rfl

theorem readParameter_of_dimensions {inner : Inner} {p list declarator : Node}
    (hlist : p.child? .specifierQualifierList = some list)
    (hdeclarator : p.child? .declarator = some declarator) (he : bareBase? inner list = some e)
    (hdims : dimensions? declarator = some dims) :
    ∃ ls : List String, ls.map readLength? = dims.map some ∧
      readParameter inner p = some (ls.foldl array e) := by
  obtain ⟨hbase, hwrap⟩ := bareBase?_eq_some he
  obtain ⟨ls, hls, -, hadd⟩ := addDeclarator_of_dimensions hdims
  refine ⟨ls, hls, ?_⟩
  simp only [readParameter, hlist, hbase, hdeclarator, hadd, hwrap, Option.bind_eq_bind,
    Option.bind_some]
  rfl

theorem declaration_of_dimensions {n : Nat} {list declarator : Node} (hlist : list.Read)
    (hlistr : list.rule = .specifierQualifierList) (hd : declarator.Read)
    (hdr : declarator.rule = .declarator) (he : bareBase? (.ofLevels n) list = some e)
    (hdims : dimensions? declarator = some dims) :
    ∃ ls : List String, ls.map readLength? = dims.map some ∧
      (Outline.TypeReader.respelled n).declaration list declarator = some (ls.foldl array e) := by
  obtain ⟨hbase, hwrap⟩ := bareBase?_eq_some he
  obtain ⟨ls, hls, hstars, hadd⟩ := addDeclarator_of_dimensions hdims
  have hhide : Outline.hidesTail declarator = false := by
    rw [Outline.hidesTail, Node.childText?, hstars]
    exact Bool.and_false _
  have hanonymous : ∀ (ls : List String) {t : DeclaredType}, t.anonymous = t →
      (ls.foldl array t).anonymous = ls.foldl array t := by
    intro ls
    induction ls with
    | nil => exact fun ht => ht
    | cons l ls ih => exact fun _ => ih rfl
  refine ⟨ls, hls, ?_⟩
  have hread := Outline.readWithin_declarationSpelling hlist hlistr hd hdr hhide n
  refine hread.trans ?_
  rw [readDeclaration, hbase, Option.bind_eq_bind, Option.bind_some, hadd, Option.bind_some, hwrap,
    hanonymous ls (anonymous_readBase hbase)]
  rfl

/-! ### Spellings -/

def brackets (dims : List Nat) : String := String.join (dims.map fun n => "[" ++ toString n ++ "]")

theorem regular_of_name {T : String} (h : IsScalar T ∨ IsTypeName T) :
    Regular .base (if T = "void" then void else named T) ∧
      (if T = "void" then void else named T).spelling = T := by
  by_cases hvoid : T = "void"
  · rw [if_pos hvoid, hvoid]
    exact ⟨.void, rfl⟩
  · rw [if_neg hvoid]
    refine ⟨?_, rfl⟩
    rcases h with h | h
    · exact .scalar h hvoid
    · exact .name h

theorem regular_arrays {t : DeclaredType} (ht : Regular .array t)
    (hls : ∀ l ∈ ls, IsLength l) : Regular .array (ls.foldl array t) ∧
      (ls.foldl array t).spelling = t.spelling ++ String.join (ls.map fun l => "[" ++ l ++ "]") ∧
      (ls.foldl array t).levels = t.levels := by
  induction ls generalizing t with
  | nil => exact ⟨ht, by simp, rfl⟩
  | cons l ls ih =>
    obtain ⟨hl, hls⟩ := List.forall_mem_cons.mp hls
    obtain ⟨hregular, hspelling, hlevels⟩ := ih (.array ht hl) hls
    refine ⟨hregular, ?_, hlevels⟩
    rw [List.foldl_cons, hspelling, spelling, List.map_cons, String.join_cons]
    simp [String.append_assoc]

/-- A name in front of brackets is read as an array, from left to right. -/
theorem readWithin_brackets {T : String} (hT : IsScalar T ∨ IsTypeName T)
    (hdims : ∀ n ∈ dims, n ≤ maxTupleLength) (d : Nat) :
    ∃ ls : List String, ls.map readLength? = dims.map some ∧
      readWithin d (T ++ brackets dims) =
        some (ls.foldl array (if T = "void" then void else named T)) := by
  have hnumeral : ∀ n ≤ maxTupleLength, readLength? (toString n) = some n ∧
      ∀ c ∈ (toString n).toList, isIdentChar c = true := by decide +kernel
  refine ⟨dims.map toString, ?_, ?_⟩
  · rw [List.map_map]
    exact List.map_congr_left fun n hn => (hnumeral n (hdims n hn)).1
  · obtain ⟨hbase, hspelling⟩ := regular_of_name hT
    have hlengths : ∀ l ∈ dims.map toString, IsLength l := by
      intro l hl
      obtain ⟨n, hn, rfl⟩ := List.mem_map.mp hl
      exact isLength_of_isIdentChar (hnumeral n (hdims n hn)).2
    have harray : Regular .array (if T = "void" then void else named T) :=
      .ofPointer (.ofQualified (@Regular.qualify _ [] hbase (List.forall_mem_nil _)))
    obtain ⟨hregular, htext, hlevels⟩ := regular_arrays harray hlengths
    have hread :=
      readWithin_of_regular (@Regular.front _ [] (.ofArray hregular) (List.forall_mem_nil _)) d
    have hzero : (if T = "void" then void else named T).levels = 0 := by
      split <;> rfl
    have hbrackets : T ++ brackets dims = ((dims.map toString).foldl array
        (if T = "void" then void else named T)).spelling := by
      rw [htext, hspelling, brackets, List.map_map]
      rfl
    rw [hbrackets]
    refine hread.trans ?_
    rw [upTo, if_pos]
    · rfl
    · exact (hlevels.trans hzero).le.trans (Nat.zero_le d)

end DeclaredType

namespace Declaration

open Outline DeclaredType SwiftType

/-! ### Fields -/

def arrayField? (inner : Inner) (x : Node × Node) : Option (String × DeclaredType × List Nat) := do
  let declarator ← x.2.child? .declarator
  let name ← declaratorName? declarator
  let element ← bareBase? inner x.1
  let dims ← dimensions? declarator
  return (name, element, dims)

theorem read_of_mem_memberFields {n : Node} (hn : n.Read) {x : Node × Node}
    (hx : x ∈ memberFields n) :
    (x.1.Read ∧ x.1.rule = .specifierQualifierList) ∧ x.2.Read ∧ x.2.rule = .fieldDeclarator := by
  obtain ⟨f, hf, hx⟩ := List.mem_flatMap.mp hx
  obtain ⟨hwithin, hr⟩ := Node.within_of_mem_occurrences n hf
  have hread := hn.within hwithin
  obtain ⟨specifiers, list, hs, hlist, hfields⟩ := fields_eq hread (List.mem_singleton.mp hr)
  have hkind : f.rule.kind = .branch := by rw [List.mem_singleton.mp hr]; rfl
  rw [hfields] at hx
  obtain ⟨field, hfield, rfl⟩ := List.mem_map.mp hx
  obtain ⟨hsread, hsrule, -⟩ := hread.of_child? hs
  obtain ⟨hmem, hfrule⟩ := Node.mem_childrenOf.mp hfield
  exact ⟨⟨hsread, hsrule⟩, ((hread.of_child? hlist).1.part hmem).1, hfrule⟩

theorem readField?_of_arrayField? {maxDepth : Nat} {n : Node} (hn : n.Read) {x : Node × Node}
    (hx : x ∈ memberFields n) {name : String} {e : DeclaredType} {dims : List Nat}
    (h : arrayField? (.ofLevels maxDepth) x = some (name, e, dims)) :
    ∃ ls : List String, ls.map readLength? = dims.map some ∧
      readField? (.respelled maxDepth) x = some (name, ls.foldl array e) := by
  obtain ⟨⟨hsread, hsrule⟩, hfread, -⟩ := read_of_mem_memberFields hn hx
  simp only [arrayField?, Option.bind_eq_bind, Option.bind_eq_some_iff] at h
  obtain ⟨declarator, hd, name, hname, e, he, dims, hdims, h⟩ := h
  cases h
  obtain ⟨hdread, hdrule, -⟩ := hfread.of_child? hd
  obtain ⟨ls, hls, htype⟩ := declaration_of_dimensions hsread hsrule hdread hdrule he hdims
  refine ⟨ls, hls, ?_⟩
  simp only [readField?, hd, hname, htype, Option.bind_eq_bind, Option.bind_some]
  rfl

/-- What is held is an array with its dimensions in reverse order, whose elements are lowered as
those of the owner. -/
def Reversed (owner : String) (e : DeclaredType) (dims : List Nat) (storage : Lowered) : Prop :=
  ∃ audited, storage =
    { type := grid dims.reverse (elementType { audited, instanceType := some owner } e),
      ownership := none }

theorem reversed_lower {ctx : Context} {owner : String} {e : DeclaredType} {ls : List String}
    {dims : List Nat} (hne : dims ≠ []) (hls : ls.map readLength? = dims.map some)
    (hdims : ∀ n ∈ dims, 2 ≤ n ∧ n ≤ maxTupleLength) (howner : ctx.instanceType = some owner)
    (hnone : ctx.ownership = none) : Reversed owner e dims (lower ctx (ls.foldl array e)) := by
  have hwords : (ls.foldl array e).arcQualifiers = [] := by
    obtain ⟨u, l, harray⟩ := exists_array hne hls e
    rw [harray]
    rfl
  refine ⟨ctx.audited, ?_⟩
  rw [lower, hwords, hnone, swiftType_arrays ctx hne hls hdims, ← howner]
  rfl

/-- The instance variables and the properties of a type that are arrays of the given dimensions
have these dimensions in reverse order. -/
structure ReversesFields (inner : Inner) (dims : List Nat) (n : Node) (d : TypeDeclaration) :
    Prop where
  ivars : ∀ x ∈ (n.occurrences [.instanceVariables]).flatMap memberFields, ∀ name e,
    arrayField? inner x = some (name, e, dims) →
      ∃ v ∈ d.ivars, v.name = name ∧ Reversed d.name e dims v.storage
  properties : ∀ p ∈ n.occurrences [.propertyDeclaration], ∀ x ∈ (memberFields p).head?, ∀ name e,
    arrayField? inner x = some (name, e, dims) →
      ∃ v ∈ d.properties, v.name = (getterName? p).getD name ∧ Reversed d.name e dims v.storage

theorem exists_of_forall₂ {α β : Type} {R : α → β → Prop} {xs : List α} {ys : List β}
    (h : List.Forall₂ R xs ys) {x : α} (hx : x ∈ xs) : ∃ y ∈ ys, R x y := by
  induction h with
  | nil => cases hx
  | cons hxy _ ih =>
    rcases List.mem_cons.mp hx with rfl | hx
    · exact ⟨_, List.mem_cons_self, hxy⟩
    · obtain ⟨y, hy, hR⟩ := ih hx
      exact ⟨y, List.mem_cons_of_mem _ hy, hR⟩

theorem exists_property (types : TypeReader) (policy : Policy) (x : Bool × Node) (hn : x.2.Read)
    (hr : x.2.rule ∈ typeRules) {p : Node} (hp : p ∈ x.2.occurrences [.propertyDeclaration])
    {y : String × DeclaredType} (hy : (memberFields p).head?.bind (readField? types) = some y) :
    ∃ place isOptional, place.owner = (Direct.typeAt types policy x).name ∧
      propertyFrom place (place.plainMember .internalAccess) isOptional y.1 y.2
      (Direct.modifiers p) ∈
        (Direct.typeAt types policy x).properties := by
  obtain ⟨name, hname⟩ := exists_name? hn hr
  rw [Direct.occurrences_members hn hr (by decide)] at hp
  obtain ⟨hmem, hpr⟩ := List.mem_filter.mp hp
  have hpr : p.rule = .propertyDeclaration := by simpa using hpr
  have hread := (read_of_mem_members hn hr hmem).1
  rw [Direct.typeAt, hname, Option.getD_some, Direct.typeOf, Direct.foldl_gather, Direct.gatherAll,
    List.nil_append]
  obtain ⟨s, hs⟩ := Setting.exists_mem_along _ hmem
  refine ⟨s.place policy name, s.optionalSection, rfl, List.mem_flatMap.mpr ⟨(s, p), hs, ?_⟩⟩
  rw [Direct.propertiesAt, if_pos hpr, property?_eq types _ _ hread hpr, hy]
  exact List.mem_singleton_self _

section Fields

variable {dims : List Nat} (hne : dims ≠ []) (hdims : ∀ n ∈ dims, 2 ≤ n ∧ n ≤ maxTupleLength)
include hne hdims

theorem typeAt_reverses_fields (maxDepth : Nat) (policy : Policy) (x : Bool × Node) (hn : x.2.Read)
    (hr : x.2.rule ∈ typeRules) :
    ReversesFields (.ofLevels maxDepth) dims x.2
    (Direct.typeAt (.respelled maxDepth) policy x) := by
  constructor
  · intro y hy name e hfield
    obtain ⟨m, hm, hym⟩ := List.mem_flatMap.mp hy
    have hread := hn.within (Node.within_of_mem_occurrences x.2 hm).1
    obtain ⟨ls, hls, htype⟩ := readField?_of_arrayField? hread hym hfield
    have hmem := List.mem_filterMap.mpr ⟨y, hy, htype⟩
    obtain ⟨v, hv, hdeclares⟩ := exists_of_forall₂
      (typeAt_declares_fields (.respelled maxDepth) policy x hn hr).ivars hmem
    obtain ⟨audited, hstorage⟩ := hdeclares.type
    refine ⟨v, hv, hdeclares.name, ?_⟩
    rw [hstorage]
    exact reversed_lower hne hls hdims rfl rfl
  · intro p hp y hy name e hfield
    obtain ⟨hwithin, -⟩ := Node.within_of_mem_occurrences x.2 hp
    have hread := hn.within hwithin
    obtain ⟨ls, hls, htype⟩ := readField?_of_arrayField? hread (List.mem_of_head? hy) hfield
    have hfirst : (memberFields p).head?.bind (readField? (.respelled maxDepth)) =
        some (name, ls.foldl array e) := by rw [Option.mem_def.mp hy, Option.bind_some, htype]
    obtain ⟨place, isOptional, howner, hmem⟩ := exists_property _ policy x hn hr hp hfirst
    refine ⟨_, hmem, rfl, ?_⟩
    rw [← howner]
    refine reversed_lower hne hls hdims rfl ?_
    -- only objects have an ownership
    obtain ⟨u, l, harray⟩ := exists_array hne hls e
    dsimp only
    rw [harray]
    rfl

end Fields

/-- Arrays of several dimensions become tuples in tuples with the last dimension outermost, where
brackets stand behind a type, behind the name of a block parameter and behind the name of a field.
This is how C reads them only if the dimensions are the same from both ends. -/
theorem arrays_lower_reversed {dims : List Nat} (hne : dims ≠ [])
    (hdims : ∀ n ∈ dims, 2 ≤ n ∧ n ≤ 64) (maxDepth : Nat) :
    (∀ t, grid dims.reverse t = grid dims t ↔ dims.reverse = dims) ∧
    (∀ T, IsScalar T ∨ IsTypeName T → ∃ t, readWithin maxDepth (T ++ brackets dims) = some t ∧
      ∀ ctx, swiftType ctx t =
        grid dims.reverse (elementType ctx.toSetting (if T = "void" then .void else .named T))) ∧
    (∀ p list declarator : Node, p.child? .specifierQualifierList = some list →
      p.child? .declarator = some declarator → ∀ e, bareBase? (.ofLevels maxDepth) list = some e →
      dimensions? declarator = some dims → ∃ t, readParameter (.ofLevels maxDepth) p = some t ∧
        ∀ ctx, swiftType ctx t = grid dims.reverse (elementType ctx.toSetting e)) ∧
    ∀ (policy : Policy) (text : String) (tree : Node), Header.parse text = .ok tree →
      ∃ o, Header.outlineWithin maxDepth text = .ok o ∧
        List.Forall₂ (ReversesFields (.ofLevels maxDepth) dims) (tree.occurrences typeRules)
          (ofOutline policy o) := by
  refine ⟨grid_reverse_eq_iff fun n hn => Nat.lt_of_lt_of_le Nat.two_pos (hdims n hn).1, ?_, ?_, ?_⟩
  · intro T hT
    obtain ⟨ls, hls, hread⟩ := readWithin_brackets hT (fun n hn => (hdims n hn).2) maxDepth
    exact ⟨_, hread, fun ctx => swiftType_arrays ctx hne hls hdims _⟩
  · intro p list declarator hlist hdeclarator e he hd
    obtain ⟨ls, hls, hread⟩ := readParameter_of_dimensions hlist hdeclarator he hd
    exact ⟨_, hread, fun ctx => swiftType_arrays ctx hne hls hdims _⟩
  · intro policy text tree h
    obtain ⟨o, houtline, ho⟩ := exists_outlineWithin h maxDepth
    refine ⟨o, houtline, ?_⟩
    have hfields := forall₂_ofOutline h ho policy
      (R := fun x d => ReversesFields (.ofLevels maxDepth) dims x.2 d)
      (typeAt_reverses_fields hne hdims maxDepth policy)
    rw [← Direct.map_snd_audits_types false, List.forall₂_map_left_iff]
    refine hfields.imp fun x d hd =>
      ⟨fun y hy name e hfield => ?_, fun p hp y hy name e hfield => ?_⟩
    · obtain ⟨v, hv, hname, hreversed⟩ := hd.ivars y hy name e hfield
      obtain ⟨w, hw, rfl⟩ := List.mem_map.mp hv
      exact ⟨w, hw, hname, hreversed⟩
    · obtain ⟨v, hv, hname, hreversed⟩ := hd.properties p hp y hy name e hfield
      obtain ⟨w, hw, rfl⟩ := List.mem_map.mp hv
      exact ⟨w, hw, hname, hreversed⟩

def rowsHeader : String :=
  "@interface A \x7b\n  int m[2][3];\n\x7d\n@property (weak) NSInteger x [2] [ 3 ];\n@end"

/-- A variable and a property of two rows, and the fields that they are read as. -/
theorem arrays_lower_reversed_rows : ∃ tree o,
    Header.parse rowsHeader = .ok tree ∧ Header.outlineWithin 32 rowsHeader = .ok o ∧
    (memberFields tree).map (arrayField? (.ofLevels 32)) =
      [some ("m", .named "int", [2, 3]), some ("x", .named "NSInteger", [2, 3])] ∧
    List.Forall₂ (ReversesFields (.ofLevels 32) [2, 3]) (tree.occurrences typeRules)
    (ofOutline {} o) := by
  have hok : (Header.parse rowsHeader).isOk = true := by decide +kernel
  obtain ⟨tree, h⟩ := Header.exists_parse hok
  obtain ⟨o, ho, hreverses⟩ :=
    (@arrays_lower_reversed [2, 3] (by decide) (by decide) 32).2.2.2 {} _ _ h
  have hfields : (Header.parse rowsHeader).toOption.map
      (fun tree => (memberFields tree).map (arrayField? (.ofLevels 32))) =
      some [some ("m", .named "int", [2, 3]), some ("x", .named "NSInteger", [2, 3])] := by
        decide +kernel
  rw [h] at hfields
  exact ⟨tree, o, h, ho, Option.some.inj hfields, hreverses⟩

def columnsHeader : String := "@interface A\n@property int x[2][3];\n@end"

/-- An array of two rows of three becomes three pairs. -/
theorem rows_become_columns : ∃ o,
    Header.outlineWithin 32 columnsHeader = .ok o ∧
    (ofOutline {} o).map (fun d => d.properties.map fun v => v.storage.type.render) =
      [["((CInt, CInt), (CInt, CInt), (CInt, CInt))"]] ∧
    (grid [2, 3] (.named "CInt")).render = "((CInt, CInt, CInt), (CInt, CInt, CInt))" := by
  have hok : (Header.parse columnsHeader).isOk = true := by decide +kernel
  obtain ⟨tree, h⟩ := Header.exists_parse hok
  obtain ⟨o, ho, -⟩ := exists_outlineWithin h 32
  have htypes : (Header.outlineWithin 32 columnsHeader).toOption.map
      (fun o => (ofOutline {} o).map fun d => d.properties.map fun v => v.storage.type.render) =
      some [["((CInt, CInt), (CInt, CInt), (CInt, CInt))"]] := by decide +kernel
  rw [ho] at htypes
  exact ⟨o, ho, Option.some.inj htypes, by decide +kernel⟩

end Declaration

end HeaderBridge
