import HeaderBridge.Proofs.Declaration.Settings
import HeaderBridge.Proofs.Outline.Arrangement

/-! # Keywords act by their position

The keywords of a header are words between the declarations. What they say about
a member can be read off the place of the member in the pre-order of the outline:
the last audit marker before it anywhere, the last section word before it in its
type, the last access word before it in its list. Reading the outline from front
to back and carrying the flags along gives the same declarations.
-/

namespace HeaderBridge

open Outline (Keyword Layout Arranged root)

/-! ### Reading flags off a position -/

namespace Outline

def keywordAt? (o : Outline) (id : Nat) : Option Keyword :=
  match o.kindOf? id with
  | some (.keyword k) => some k
  | _ => none

/-- The nodes below a node that stand before another one in pre-order. -/
def before (o : Outline) (top id : Nat) : List Nat := (o.descendants top).takeWhile (· ≠ id)

/-- The last of the given keywords before a node, below another one. -/
def keywordBefore? (o : Outline) (group : List Keyword) (top id : Nat) : Option Keyword :=
  (((o.before top id).filterMap o.keywordAt?).filter (· ∈ group)).getLast?

end Outline

namespace Declaration.Positional

/-- The last audit marker before a node, anywhere in the header, begins an audited region. -/
def audited (o : Outline) (id : Nat) : Bool :=
  o.keywordBefore? [.auditBegin, .auditEnd] root id = some .auditBegin

/-- The owner of a member is a protocol, and the last section word before the member in it
is `@optional`. -/
def isOptional (o : Outline) (owner id : Nat) : Bool :=
  o.hasTag .protocolDeclaration owner &&
    o.keywordBefore? [.atOptional, .atRequired] owner id = some .atOptional

/-- The access level that the last access word before an instance variable in its list gives it. -/
def access (o : Outline) (list id : Nat) : AccessLevel :=
  match o.keywordBefore? [.atPrivate, .atPackage, .atProtected, .atPublic] list id with
  | some .atPublic => .publicAccess
  | some .atPackage => .internalAccess
  | _ => .privateAccess

/-- How the types of a member are lowered: as audited if the user asks for it or the markers say
so, and with the owner in the place of `instancetype`. -/
def context (policy : Policy) (o : Outline) (owner : String) (id : Nat) : Lowering.Context :=
  { audited := policy.assumeNonnull || audited o id, instanceType := some owner }

def member (policy : Policy) (owner : String) (access : AccessLevel) (id : Nat) : Member :=
  { owner, access, source := some id
    attributes := if policy.emitAttributes then ["@objc"] else [] }

def ivar? (policy : Policy) (o : Outline) (owner : String) (list id : Nat) : Option Ivar := do
  let name ← o.identifierIn? id
  let type ← o.typeIn? id
  return {
    member := member policy owner (access o list id) id, name
    storage := Lowering.lower (context policy o owner id) type }

def property? (policy : Policy) (o : Outline) (owner : Nat) (ownerName : String) (id : Nat) :
    Option Property := do
  let name ← o.identifierIn? id
  let type ← o.typeIn? id
  let words := (o.modifiersIn id).filterMap Outline.Modifier.word?
  let getter := (o.modifiersIn id).findSome? Outline.Modifier.getter?
  let setter := (o.modifiersIn id).findSome? Outline.Modifier.setter?
  let held := words.findSome? Ownership.ofPropertyAttribute?
  return {
    member := { member policy ownerName .internalAccess id with
      isStatic := words.contains "class"
      annotations :=
        (getter.map fun _ => "Objective-C property '" ++ name ++ "'").toList
          ++ (setter.map fun s => "Objective-C setter '" ++ s ++ ":'").toList }
    name := getter.getD name
    storage := Lowering.lower { context policy o ownerName id with
      nullability := words.findSome? Nullability.ofSpelling?
      ownership := if Lowering.isObject type then held else none } type
    isReadonly := words.contains "readonly"
    isOptional := isOptional o owner id
    getter, setter }

def parameter (context : Lowering.Context) (label : Option String) (piece : Piece) : Parameter :=
  let type := Lowering.swiftType { context with nullability := piece.nullability }
    (piece.type.getD defaultType)
  { label, name := piece.name, type := type.addAttribute .escaping }

/-- The method of a node. An initializer has a name and a first label of its own and no result;
all labels behind the first are those of the selector. -/
def method? (policy : Policy) (o : Outline) (owner : Nat) (ownerName : String) (id : Nat) :
    Option Method := do
  let selectorNode ← o.childWith? id .selector
  let pieces := (o.childrenWith selectorNode .keywordDeclarator).filterMap (pieceOf? o)
  let (name, selector) ← nameAndSelector? (o.identifierIn? selectorNode) pieces
  let methodType := o.childWith? id .methodType
  let written := (methodType.bind o.typeIn?).getD defaultType
  let isStatic : Bool := o.kindOf? id = some (.method true)
  let isInitializer := !isStatic && isInitName name && returnsInstance ownerName written
  let labels := (if isInitializer then initializerLabel? name else none)
    :: pieces.tail.map (·.label)
  let result := Lowering.swiftType { context policy o ownerName id with
    nullability := methodType.bind o.nullabilityIn? } written
  return {
    member := { member policy ownerName .internalAccess id with isStatic }
    signature := {
      name := if isInitializer then "init" else name
      parameters := List.zipWith (parameter (context policy o ownerName id)) labels pieces
      result := if isInitializer then .void else result
      isInitializer }
    selector
    isOptional := isOptional o owner id }

def ivarsIn (policy : Policy) (o : Outline) (owner : String) (list : Nat) : List Ivar :=
  (o.childrenWith list .ivar).filterMap (ivar? policy o owner list)

def head? (o : Outline) (id : Nat) : Option (String × TypeKind) :=
  match o.kindOf? id with
  | some (.classInterface slot) => slot.name?.map (·, .classType)
  | some (.categoryInterface slot) =>
    slot.name?.map (·, .extensionType ((o.childWith? id .categoryName).bind o.textOf?))
  | some (.protocolDeclaration slot) => slot.name?.map (·, .protocolType)
  | _ => none

/-- The type that a node declares, each member with the flags of its position. -/
def type? (policy : Policy) (o : Outline) (id : Nat) : Option TypeDeclaration :=
  (head? o id).map fun (name, kind) =>
    { kind, name, source := some id
      superclass := ((o.childrenWith id .superclassName).filterMap o.textOf?).getLast?
      protocols := (o.childrenWith id .protocolList).flatMap (protocolsIn o)
      ivars := (o.childrenWith id .ivarList).flatMap (ivarsIn policy o name)
      properties := (o.childrenWith id .property).filterMap (property? policy o id name)
      methods := (o.childrenWith id .method).filterMap (method? policy o id name) }

/-- The declarations of an outline, each member with the flags of its position. -/
def ofOutline (policy : Policy) (o : Outline) : List TypeDeclaration :=
  (o.childrenOf root).filterMap (type? policy o)

end Declaration.Positional

/-! ### Flags that are carried along -/

/-- A flag that each keyword of a group sets anew, and no other one changes, is the one that
the last of them sets. -/
theorem Outline.Keyword.foldl_eq_getLast? {σ : Type} {group : List Keyword} {f : σ → Keyword → σ}
    {g : Keyword → σ} (hin : ∀ s k, k ∈ group → f s k = g k) (hout : ∀ s k, k ∉ group → f s k = s)
    (s : σ) (ks : List Keyword) :
    ks.foldl f s = ((ks.filter (· ∈ group)).getLast?.map g).getD s := by
  induction ks generalizing s with
  | nil => rfl
  | cons k ks ih =>
    rw [List.foldl_cons, ih]
    by_cases hk : k ∈ group
    · rw [List.filter_cons_of_pos (by simpa using hk), List.getLast?_cons, hin s k hk]
      cases (ks.filter (· ∈ group)).getLast? <;> rfl
    · rw [List.filter_cons_of_neg (by simpa using hk), hout s k hk]

namespace Declaration

def optionalAfter (isProtocol isOptional : Bool) : Keyword → Bool
  | .atOptional => isProtocol
  | .atRequired => false
  | _ => isOptional

end Declaration

namespace Outline

variable {o : Outline}

def keywordsIn (o : Outline) (a c : Nat) : List Keyword :=
  (List.range' a (c - a)).filterMap o.keywordAt?

theorem keywordsIn_append {a b c : Nat} (hab : a ≤ b) (hbc : b ≤ c) :
    o.keywordsIn a c = o.keywordsIn a b ++ o.keywordsIn b c := by
  have hjoin := @List.range'_append_1 a (b - a) (c - b)
  rw [show a + (b - a) = b by omega, show b - a + (c - b) = c - a by omega] at hjoin
  rw [keywordsIn, ← hjoin, List.filterMap_append]
  rfl

theorem keywordsIn_succ {a c : Nat} (h : a < c) :
    o.keywordsIn a c = (o.keywordAt? a).toList ++ o.keywordsIn (a + 1) c := by
  rw [keywordsIn, show c - a = c - (a + 1) + 1 by omega, List.range'_succ, List.filterMap_cons]
  cases o.keywordAt? a <;> rfl

theorem takeWhile_range' {a n i : Nat} (h : a ≤ i) (h' : i ≤ a + n) :
    (List.range' a n).takeWhile (· ≠ i) = List.range' a (i - a) := by
  induction n generalizing a with
  | zero =>
    obtain rfl : i = a := by omega
    simp
  | succ n ih =>
    rcases Nat.eq_or_lt_of_le h with rfl | hlt
    · simp [List.range'_succ]
    · rw [List.range'_succ, List.takeWhile_cons, if_pos (by simp; omega), ih hlt (by omega),
        show i - a = i - (a + 1) + 1 by omega, List.range'_succ]

/-- The nodes before a node are those with a smaller number. -/
theorem Layout.before_eq {top c i : Nat} (h : Layout o top (top + 1) (o.childrenOf top) c)
    (hc : c ≤ o.size) (hi : top < i) (hi' : i ≤ c) :
    o.before top i = List.range' (top + 1) (i - (top + 1)) := by
  have hle := h.le
  rw [before, h.descendants_eq hc]
  exact takeWhile_range' (by omega) (by omega)

theorem Layout.keywordBefore?_eq {top c i : Nat} (h : Layout o top (top + 1) (o.childrenOf top) c)
    (hc : c ≤ o.size) (hi : top < i) (hi' : i ≤ c) (group : List Keyword) :
    o.keywordBefore? group top i = ((o.keywordsIn (top + 1) i).filter (· ∈ group)).getLast? := by
  rw [keywordBefore?, h.before_eq hc hi hi', keywordsIn]

/-! ### Where there are keywords -/

theorem Kind.StandsIn.silent {k : Kind} {t : Tag} (h : k.StandsIn t)
    (ht : t ∉ .header :: .ivarList :: typeTags) :
    k.tag ∉ .header :: .ivarList :: typeTags ∧ ∀ w, k ≠ .keyword w := by
  cases k with
  | keyword w => cases w <;> simp_all [StandsIn, Keyword.StandsIn]
  | _ => simp_all [StandsIn, Kind.tag, typeTags]

theorem Kind.StandsIn.of_ivarList {k : Kind} (h : k.StandsIn .ivarList) :
    k.tag ∉ .header :: .ivarList :: typeTags ∧
      ∀ w, k = .keyword w → w ∈ [.atPrivate, .atPackage, .atProtected, .atPublic] := by
  cases k with
  | keyword w => cases w <;> simp_all [StandsIn, Keyword.StandsIn, Kind.tag, typeTags]
  | _ => simp_all [StandsIn, Kind.tag, typeTags]

namespace Arranged

variable (ha : Arranged o)
include ha

theorem keywordsIn_eq_nil {p a c : Nat} {is : List Nat} (hl : Layout o p a is c) :
    ∀ {t : Kind}, o.kindOf? p = some t → t.tag ∉ .header :: .ivarList :: typeTags →
      (∀ i ∈ is, i ∈ o.childrenOf p) → o.keywordsIn a c = [] := by
  induction hl with
  | nil p a => intros; simp [keywordsIn]
  | @cons p a b c is _ hb hc ih ih' =>
    intro t ht htag his
    obtain ⟨k, hk, hstands⟩ := ha.kind_of_mem ht (his a List.mem_cons_self)
    obtain ⟨hktag, hne⟩ := hstands.silent htag
    have hnone : o.keywordAt? a = none := by
      unfold keywordAt?
      rw [hk]
      cases k <;> simp_all
    have hab := hb.le
    rw [keywordsIn_append (by omega) hc.le, keywordsIn_succ (by omega), hnone,
      ih hk hktag fun _ hi => hi, ih' ht htag fun i hi => his i (List.mem_cons_of_mem _ hi)]
    rfl

theorem keywordsIn_keyword {i b : Nat} {w : Keyword} (hk : o.kindOf? i = some (.keyword w))
    (hl : Layout o i (i + 1) (o.childrenOf i) b) : o.keywordsIn i b = [w] := by
  have hib := hl.le
  rw [keywordsIn_succ (by omega), keywordAt?, hk,
    ha.keywordsIn_eq_nil hl hk (show Tag.keyword ∉ _ by decide) fun _ hj => hj]
  rfl

theorem keywordsIn_silent {i b : Nat} {k : Kind} (hk : o.kindOf? i = some k)
    (hne : ∀ w, k ≠ .keyword w) (htag : k.tag ∉ .header :: .ivarList :: typeTags)
    (hl : Layout o i (i + 1) (o.childrenOf i) b) : o.keywordsIn i b = [] := by
  have hib := hl.le
  have hnone : o.keywordAt? i = none := by
    rw [keywordAt?, hk]
    cases k <;> simp_all
  rw [keywordsIn_succ (by omega), hnone, ha.keywordsIn_eq_nil hl hk htag fun _ hj => hj]
  rfl

theorem keywordsIn_ivarList {p a c : Nat} {is : List Nat} (hl : Layout o p a is c)
    (hp : o.kindOf? p = some .ivarList) (his : ∀ i ∈ is, i ∈ o.childrenOf p) :
    ∀ w ∈ o.keywordsIn a c, w ∈ [.atPrivate, .atPackage, .atProtected, .atPublic] := by
  induction hl with
  | nil p a => simp [keywordsIn]
  | @cons p a b c is _ hb hc _ ih =>
    obtain ⟨k, hk, hstands⟩ := ha.kind_of_mem hp (his a List.mem_cons_self)
    obtain ⟨hktag, haccess⟩ := hstands.of_ivarList
    have hab := hb.le
    intro w hw
    rw [keywordsIn_append (by omega) hc.le, keywordsIn_succ (by omega),
      ha.keywordsIn_eq_nil hb hk hktag fun _ hi => hi, List.append_nil, List.mem_append] at hw
    rcases hw with hw | hw
    · refine haccess w ?_
      rw [Option.mem_toList, keywordAt?, hk] at hw
      cases k <;> simp_all
    · exact ih hp (fun i hi => his i (List.mem_cons_of_mem _ hi)) w hw

end Arranged

end Outline

namespace Declaration.Positional

open Outline

variable {o : Outline} (ha : Arranged o)

/-! ### Flags as folds over keywords -/

theorem auditedAfter_of_notMem (s : Bool) {k : Keyword} (hk : k ∉ [.auditBegin, .auditEnd]) :
    auditedAfter s k = s := by
  cases k <;> simp_all [auditedAfter]

theorem optionalAfter_of_notMem (isProtocol s : Bool) {k : Keyword}
    (hk : k ∉ [.atOptional, .atRequired]) : optionalAfter isProtocol s k = s := by
  cases k <;> simp_all [optionalAfter]

theorem foldl_of_forall {σ : Type} {f : σ → Keyword → σ} {ks : List Keyword} {s : σ}
    (h : ∀ k ∈ ks, ∀ s, f s k = s) : ks.foldl f s = s := by
  induction ks with
  | nil => rfl
  | cons k ks ih =>
    rw [List.foldl_cons, h k List.mem_cons_self]
    exact ih fun k hk => h k (List.mem_cons_of_mem _ hk)

include ha in
theorem audited_eq {i : Nat} (hi : root < i) (hi' : i ≤ o.size) :
    audited o i = (o.keywordsIn 1 i).foldl auditedAfter false := by
  have hset : ∀ (s : Bool), ∀ k ∈ [Keyword.auditBegin, .auditEnd],
      auditedAfter s k = decide (k = .auditBegin) := by decide
  have hlast : o.keywordBefore? [.auditBegin, .auditEnd] root i =
      ((o.keywordsIn 1 i).filter (· ∈ [Keyword.auditBegin, .auditEnd])).getLast? :=
    ha.layout.keywordBefore?_eq (Nat.le_refl _) hi hi' _
  rw [Keyword.foldl_eq_getLast? hset fun s k => auditedAfter_of_notMem s, audited, hlast]
  cases ((o.keywordsIn 1 i).filter _).getLast? with
  | none => rfl
  | some k => simp

include ha in
/-- Along a stretch of the header the audit markers in it count. -/
theorem foldl_audited {a b : Nat} (hpos : root < a) (hab : a ≤ b) (hb : b ≤ o.size) :
    (o.keywordsIn a b).foldl auditedAfter (audited o a) = audited o b := by
  rw [audited_eq ha hpos (Nat.le_trans hab hb), audited_eq ha (Nat.lt_of_lt_of_le hpos hab) hb,
    keywordsIn_append (show 1 ≤ a from hpos) hab, List.foldl_append]

section Member

variable {top c : Nat} (hl : Layout o top (top + 1) (o.childrenOf top) c) (hc : c ≤ o.size)
include hl hc

theorem isOptional_eq {i : Nat} (hi : top < i) (hi' : i ≤ c) :
    isOptional o top i = (o.keywordsIn (top + 1) i).foldl
      (optionalAfter (o.hasTag .protocolDeclaration top)) false := by
  have hset : ∀ (b s : Bool), ∀ k ∈ [Keyword.atOptional, .atRequired],
      optionalAfter b s k = (b && decide (k = .atOptional)) := by decide
  rw [Keyword.foldl_eq_getLast? (hset _) fun s k => optionalAfter_of_notMem _ s, isOptional,
    hl.keywordBefore?_eq hc hi hi']
  cases ((o.keywordsIn (top + 1) i).filter _).getLast? with
  | none => simp
  | some k => simp

theorem access_eq {i : Nat} (hi : top < i) (hi' : i ≤ c) :
    access o top i = (o.keywordsIn (top + 1) i).foldl accessAfter .privateAccess := by
  have hset : ∀ s, ∀ k ∈ [Keyword.atPrivate, .atPackage, .atProtected, .atPublic],
      accessAfter s k = accessAfter .privateAccess k := by
    intro s k hk
    cases k <;> simp_all [accessAfter]
  have hkeep : ∀ s, ∀ k ∉ [Keyword.atPrivate, .atPackage, .atProtected, .atPublic],
      accessAfter s k = s := by
    intro s k hk
    cases k <;> simp_all [accessAfter]
  rw [Keyword.foldl_eq_getLast? hset hkeep, access, hl.keywordBefore?_eq hc hi hi']
  rcases hlast : ((o.keywordsIn (top + 1) i).filter _).getLast? with _ | k
  · rfl
  · cases k <;> rfl

end Member

/-! ### Single members -/

def place (policy : Policy) (o : Outline) (owner : String) (id : Nat) : Place :=
  { policy, owner, audited := audited o id }

theorem ivarOf?_place (policy : Policy) (owner : String) (list id : Nat) :
    ivarOf? o (place policy o owner id) (access o list id) id = ivar? policy o owner list id := by
  unfold ivarOf? ivar?
  cases o.typeIn? id <;> cases o.identifierIn? id <;> rfl

theorem propertyOf?_place (policy : Policy) (owner : Nat) (ownerName : String) (id : Nat) :
    propertyOf? o (place policy o ownerName id) (isOptional o owner id) id =
      property? policy o owner ownerName id :=
  rfl

theorem parametersOf_place (policy : Policy) (owner : String) (id : Nat) (first : Option String)
    (pieces : List Piece) :
    parametersOf (place policy o owner id) first pieces =
      List.zipWith (parameter (context policy o owner id)) (first :: pieces.tail.map (·.label))
        pieces := by
  cases pieces with
  | nil => rfl
  | cons piece pieces =>
    rw [parametersOf, List.tail_cons, List.zipWith_cons_cons, List.zipWith_map_left,
      List.zipWith_self]
    rfl

theorem methodOf?_place (policy : Policy) (owner : Nat) (ownerName : String) {id : Nat}
    {isClassMethod : Bool} (hkind : o.kindOf? id = some (.method isClassMethod)) :
    methodOf? o (place policy o ownerName id) (isOptional o owner id) isClassMethod id =
      method? policy o owner ownerName id := by
  have hstatic : decide (o.kindOf? id = some (.method true)) = isClassMethod := by
    rw [hkind]
    cases isClassMethod <;> rfl
  have howner : (place policy o ownerName id).owner = ownerName := rfl
  unfold methodOf? method?
  simp only [hstatic, howner, parametersOf_place]
  refine Option.bind_congr fun selectorNode _ => Option.bind_congr fun names _ => ?_
  split_ifs <;> rfl

/-! ### Instance variables -/

section Ivars

variable {list c : Nat} (hlist : o.kindOf? list = some .ivarList)
  (hl : Layout o list (list + 1) (o.childrenOf list) c) (hpos : root < list) (hc : c ≤ o.size)
include ha hlist hl hpos hc

theorem audited_of_ivarList {i : Nat} (hi : list < i) (hi' : i ≤ c) :
    audited o i = audited o list := by
  have hnone : o.keywordAt? list = none := by rw [keywordAt?, hlist]
  have hquiet : (o.keywordsIn list i).foldl auditedAfter (audited o list) = audited o list := by
    refine foldl_of_forall fun w hw s => auditedAfter_of_notMem s ?_
    rw [keywordsIn_succ hi, hnone, Option.toList_none, List.nil_append] at hw
    have hmem : w ∈ o.keywordsIn (list + 1) c := by
      rw [keywordsIn_append (show list + 1 ≤ i from hi) hi']
      exact List.mem_append_left _ hw
    have haccess := ha.keywordsIn_ivarList hl hlist (fun _ hj => hj) w hmem
    revert haccess
    cases w <;> decide
  rw [← foldl_audited ha hpos (Nat.le_of_lt hi) (by omega), hquiet]

theorem ivarsOf_eq (policy : Policy) (owner : String) {a b : Nat} {is : List Nat}
    (his : Layout o list a is b) (hmem : ∀ i ∈ is, i ∈ o.childrenOf list) (hla : list < a)
    (hbc : b ≤ c) :
    ivarsOf o (place policy o owner list)
        ((o.keywordsIn (list + 1) a).foldl accessAfter .privateAccess) is =
      (is.filter (o.hasTag .ivar)).filterMap (ivar? policy o owner list) := by
  induction his with
  | nil => rfl
  | @cons p a b' b is _ hinner hrest _ ih =>
    have hab := hinner.le
    have hb'b := hrest.le
    obtain ⟨k, hk, hstands⟩ := ha.kind_of_mem hlist (hmem a List.mem_cons_self)
    obtain ⟨htag, -⟩ := hstands.of_ivarList
    have hnext := ih hlist hl hpos (fun i hi => hmem i (List.mem_cons_of_mem _ hi)) (by omega) hbc
    rw [keywordsIn_append (show p + 1 ≤ a from hla) (show a ≤ b' by omega),
      List.foldl_append] at hnext
    have hstep : ∀ {w}, k = .keyword w → o.keywordsIn a b' = [w] := by
      rintro w rfl
      exact ha.keywordsIn_keyword hk hinner
    have hsilent : (∀ w, k ≠ .keyword w) → o.keywordsIn a b' = [] :=
      fun hne => ha.keywordsIn_silent hk hne htag hinner
    have hplace : place policy o owner a = place policy o owner p := by
      rw [place, audited_of_ivarList ha hlist hl hpos hc hla (by omega)]
      rfl
    rw [ivarsOf, hk, List.filter_cons, hasTag, hk]
    cases k with
    | keyword w =>
      rw [hstep rfl] at hnext
      exact hnext
    | ivar =>
      have hivar : ivarOf? o (place policy o owner p)
          ((o.keywordsIn (p + 1) a).foldl accessAfter .privateAccess) a =
            ivar? policy o owner p a := by
        rw [← hplace, ← access_eq hl hc hla (by omega), ivarOf?_place]
      rw [hsilent (by simp)] at hnext
      simp only [Option.map_some, Kind.tag, decide_true, if_true, List.filterMap_cons, hivar,
        ← hnext]
      cases ivar? policy o owner p a <;> rfl
    | _ =>
      rw [hsilent (by simp)] at hnext
      exact hnext

end Ivars

/-! ### Members -/

/-- What a node adds to the declaration of its owner, with the flags of its position. -/
def add (policy : Policy) (o : Outline) (owner : Nat) (d : TypeDeclaration) (id : Nat) :
    TypeDeclaration :=
  match o.kindOf? id with
  | some (.superclassName n) => { d with superclass := some n }
  | some .protocolList => { d with protocols := d.protocols ++ protocolsIn o id }
  | some .ivarList => { d with ivars := d.ivars ++ ivarsIn policy o d.name id }
  | some .property =>
    { d with properties := d.properties ++ (property? policy o owner d.name id).toList }
  | some (.method _) =>
    { d with methods := d.methods ++ (method? policy o owner d.name id).toList }
  | _ => d

theorem foldl_add (policy : Policy) (o : Outline) (owner : Nat) (d : TypeDeclaration)
    (ids : List Nat) :
    ids.foldl (add policy o owner) d = { d with
      superclass :=
        (((ids.filter (o.hasTag .superclassName)).filterMap o.textOf?).getLast?).or d.superclass
      protocols := d.protocols ++ (ids.filter (o.hasTag .protocolList)).flatMap (protocolsIn o)
      ivars := d.ivars ++ (ids.filter (o.hasTag .ivarList)).flatMap (ivarsIn policy o d.name)
      properties := d.properties ++
        (ids.filter (o.hasTag .property)).filterMap (property? policy o owner d.name)
      methods := d.methods ++
        (ids.filter (o.hasTag .method)).filterMap (method? policy o owner d.name) } := by
  induction ids generalizing d with
  | nil => simp
  | cons i ids ih =>
    rw [List.foldl_cons, ih]
    cases hk : o.kindOf? i with
    | none => simp [add, hk, hasTag]
    | some k =>
      cases k with
      | superclassName n =>
        simp only [add, hk, hasTag, Kind.tag, List.filter_cons, Option.map_some, decide_true,
          if_true, List.filterMap_cons, textOf?, Option.bind_some, Kind.text?, List.getLast?_cons]
        simp
      | property => simp [add, hk, hasTag, Kind.tag, List.filterMap_eq_flatMap_toList]
      | method isClassMethod => simp [add, hk, hasTag, Kind.tag, List.filterMap_eq_flatMap_toList]
      | _ => simp [add, hk, hasTag, Kind.tag]

theorem isProtocol_add (policy : Policy) (o : Outline) (owner : Nat) (d : TypeDeclaration)
    (id : Nat) : (add policy o owner d id).isProtocol = d.isProtocol := by
  unfold add
  split <;> rfl

section Members

variable {owner c : Nat} {t : Kind} (ht : o.kindOf? owner = some t) (htype : t.tag ∈ typeTags)
  (hl : Layout o owner (owner + 1) (o.childrenOf owner) c) (hpos : root < owner) (hc : c ≤ o.size)
  (policy : Policy)
include ha htype hpos hc

/-- A member adds to its type what its position says, and its keywords change the flags. -/
theorem addMember_eq {i b : Nat} {k : Kind} (hk : o.kindOf? i = some k) (hstands : k.StandsIn t.tag)
    (hinner : Layout o i (i + 1) (o.childrenOf i) b) (hi : owner < i) (hb : b ≤ c)
    (d : TypeDeclaration) :
    addMember o policy ⟨d, audited o i, isOptional o owner i⟩ i =
      { declaration := add policy o owner d i
        audited := (o.keywordsIn i b).foldl auditedAfter (audited o i)
        optionalSection :=
          (o.keywordsIn i b).foldl (optionalAfter d.isProtocol) (isOptional o owner i) } := by
  have hsilent : (∀ w, k ≠ .keyword w) → k ≠ .ivarList → o.keywordsIn i b = [] := by
    intro hne hlist
    refine ha.keywordsIn_silent hk hne ?_ hinner
    have htag := hstands.tag_notMem (by rintro h; simp [h, typeTags] at htype)
    cases k <;> simp_all [Kind.tag, typeTags]
  rw [addMember, add, hk]
  cases k with
  | keyword w =>
    rw [ha.keywordsIn_keyword hk hinner]
    cases w <;> rfl
  | ivarList =>
    have hivars := ivarsOf_eq ha hk hinner (Nat.lt_trans hpos hi) (Nat.le_trans hb hc) policy d.name
      hinner (fun _ hj => hj) (Nat.lt_succ_self i) (Nat.le_refl b)
    -- its keywords are access words, which change no flag of the type
    have hwords : ∀ w ∈ o.keywordsIn i b, w ∉ [.auditBegin, .auditEnd] ∧
        w ∉ [.atOptional, .atRequired] := by
      intro w hw
      have hib := hinner.le
      have hnone : o.keywordAt? i = none := by rw [keywordAt?, hk]
      rw [keywordsIn_succ hib, hnone, Option.toList_none, List.nil_append] at hw
      have haccess := ha.keywordsIn_ivarList hinner hk (fun _ hj => hj) w hw
      revert haccess
      cases w <;> decide
    rw [foldl_of_forall fun w hw s => auditedAfter_of_notMem s (hwords w hw).1,
      foldl_of_forall fun w hw s => optionalAfter_of_notMem _ s (hwords w hw).2, ivarsIn,
      childrenWith, ← hivars]
    simp [keywordsIn, place]
  | property =>
    rw [hsilent (by simp) (by simp), ← propertyOf?_place]
    rfl
  | method isClassMethod =>
    rw [hsilent (by simp) (by simp), ← methodOf?_place policy owner d.name hk]
    rfl
  | _ =>
    rw [hsilent (by simp) (by simp)]
    rfl

include ht hl in
/-- The members of a type are read with the flags carried along. -/
theorem foldl_addMember {a b : Nat} {is : List Nat} (his : Layout o owner a is b)
    (hmem : ∀ i ∈ is, i ∈ o.childrenOf owner) (hoa : owner < a) (hbc : b ≤ c) (d : TypeDeclaration)
    (hd : d.isProtocol = o.hasTag .protocolDeclaration owner) :
    is.foldl (addMember o policy) ⟨d, audited o a, isOptional o owner a⟩ =
      ⟨is.foldl (add policy o owner) d, audited o b, isOptional o owner b⟩ := by
  induction his generalizing d with
  | nil => rfl
  | @cons p a b' b is _ hinner hrest _ ih =>
    have hab := hinner.le
    have hb'b := hrest.le
    obtain ⟨k, hk, hstands⟩ := ha.kind_of_mem ht (hmem a List.mem_cons_self)
    have hstep := addMember_eq ha htype hpos hc policy hk hstands hinner hoa (by omega) d
    have haudited : (o.keywordsIn a b').foldl auditedAfter (audited o a) = audited o b' :=
      foldl_audited ha (Nat.lt_trans hpos hoa) (by omega) (by omega)
    have hoptional : (o.keywordsIn a b').foldl (optionalAfter d.isProtocol) (isOptional o p a) =
        isOptional o p b' := by
      rw [isOptional_eq hl hc hoa (by omega), isOptional_eq hl hc (show p < b' by omega) (by omega),
        hd, keywordsIn_append (show p + 1 ≤ a from hoa) (show a ≤ b' by omega), List.foldl_append]
    rw [List.foldl_cons, hstep, haudited, hoptional, List.foldl_cons]
    exact ih ht hl hpos (fun i hi => hmem i (List.mem_cons_of_mem _ hi)) (by omega) hbc _
      (by rw [isProtocol_add, hd])

end Members

/-! ### Types -/

include ha in
/-- The declaration of a type has the flags of its members' positions. -/
theorem typeOf_eq (policy : Policy) {i b : Nat} {k : Kind} {name : String} {kind : TypeKind}
    (hk : o.kindOf? i = some k) (htype : k.tag ∈ typeTags)
    (hinner : Layout o i (i + 1) (o.childrenOf i) b) (hpos : root < i) (hb : b ≤ o.size)
    (hhead : head? o i = some (name, kind)) :
    typeOf o policy (audited o i) i (.valid name) kind =
      ((type? policy o i).toList, audited o b) := by
  have hib := hinner.le
  have hd : TypeDeclaration.isProtocol { kind, name, source := some i } =
      o.hasTag .protocolDeclaration i := by
    rw [head?, hk] at hhead
    rw [hasTag, hk]
    cases k <;> simp at hhead <;> obtain ⟨-, -, -, rfl⟩ := hhead <;> rfl
  -- nothing stands between a type and its first member
  have haudited : audited o (i + 1) = audited o i := by
    have hnone : o.keywordAt? i = none := by
      rw [keywordAt?, hk]
      cases k <;> simp_all [Kind.tag, typeTags]
    rw [← foldl_audited ha hpos (Nat.le_succ i) (by omega), keywordsIn_succ (Nat.lt_succ_self i),
      hnone]
    simp [keywordsIn]
  have hoptional : isOptional o i (i + 1) = false := by
    rw [isOptional_eq hinner hb (Nat.lt_succ_self i) hib]
    simp [keywordsIn]
  have hfold := foldl_addMember ha hk htype hinner hpos hb policy hinner (fun _ hj => hj)
    (Nat.lt_succ_self i) (Nat.le_refl b) { kind, name, source := some i } hd
  rw [haudited, hoptional, foldl_add] at hfold
  simp only [typeOf, hfold, type?, hhead, Option.map_some, Option.toList_some, Option.or_none,
    List.nil_append, childrenWith]

include ha in
theorem addType_eq (policy : Policy) {i b : Nat} {k : Kind} (hk : o.kindOf? i = some k)
    (hstands : k.StandsIn .header) (hinner : Layout o i (i + 1) (o.childrenOf i) b)
    (hpos : root < i) (hb : b ≤ o.size) (ds : List TypeDeclaration) :
    addType o policy (ds, audited o i) i = (ds ++ (type? policy o i).toList, audited o b) := by
  have hib := hinner.le
  have haudited := foldl_audited ha hpos (show i ≤ b by omega) hb
  have hdeclared : ∀ {name kind}, k.tag ∈ typeTags → head? o i = some (name, kind) →
      typeOf o policy (audited o i) i (.valid name) kind =
        ((type? policy o i).toList, audited o b) :=
    fun htype hhead => typeOf_eq ha policy hk htype hinner hpos hb hhead
  have hsilent : k.tag ∉ .keyword :: .header :: .ivarList :: typeTags →
      audited o b = audited o i := by
    intro htag
    rw [← haudited, ha.keywordsIn_silent hk (by rintro w rfl; exact htag List.mem_cons_self)
      (fun h => htag (List.mem_cons_of_mem _ h)) hinner]
    rfl
  have hnamed : ∀ {slot : Slot}, slot.isValid = true → ∃ name, slot = .valid name := by
    rintro (name | reason) hvalid
    · exact ⟨name, rfl⟩
    · cases hvalid
  cases k with
  | keyword w =>
    rw [ha.keywordsIn_keyword hk hinner] at haudited
    simp [addType, type?, head?, hk, ← haudited]
  | classInterface slot | categoryInterface slot | protocolDeclaration slot =>
    obtain ⟨name, rfl⟩ := hnamed hstands.1
    simp only [addType, hk, hdeclared (by simp [Kind.tag, typeTags]) (by rw [head?, hk]; rfl)]
  | header => cases hstands
  | ivarList => simp [Kind.StandsIn, typeTags] at hstands
  | _ => simp [addType, type?, head?, hk, hsilent (by simp [Kind.tag, typeTags])]

include ha in
/-- The nodes of a header are read with the flag carried along. -/
theorem foldl_addType (policy : Policy) {a b : Nat} {is : List Nat} (his : Layout o root a is b)
    (hmem : ∀ i ∈ is, i ∈ o.childrenOf root) (hpos : root < a) (hb : b ≤ o.size)
    (ds : List TypeDeclaration) :
    is.foldl (addType o policy) (ds, audited o a) =
      (ds ++ is.filterMap (type? policy o), audited o b) := by
  generalize hroot : root = p at his hmem
  induction his generalizing ds with
  | nil => simp
  | @cons p a b' b is _ hinner hrest _ ih =>
    subst hroot
    have hab := hinner.le
    have hb'b := hrest.le
    obtain ⟨k, hk, hstands⟩ := ha.kind_of_mem ha.top (hmem a List.mem_cons_self)
    have hstep := addType_eq ha policy hk hstands hinner hpos (by omega) ds
    rw [List.foldl_cons, hstep, ih (by omega) hb _ rfl fun i hi =>
      hmem i (List.mem_cons_of_mem _ hi), List.filterMap_eq_flatMap_toList,
      List.filterMap_eq_flatMap_toList, List.flatMap_cons, List.append_assoc]

end Declaration.Positional

/-- The keywords of a header act by position: its declarations are those in which each member
has the flags that are read off its place in the pre-order of the outline. -/
theorem Declaration.ofOutline_eq_positional {text : String} {tree : Grammar.Node}
    (h : Header.parse text = .ok tree) (maxDepth : Nat) (policy : Policy) :
    ∃ o, Header.outlineWithin maxDepth text = .ok o ∧
      ofOutline policy o = Positional.ofOutline policy o := by
  obtain ⟨o, houtline, ho⟩ := exists_outlineWithin h maxDepth
  have ha : Arranged o := Outline.arranged_of_parse h ho
  have hsize : 1 ≤ o.size := ha.layout.le
  have hstart : Positional.audited o 1 = false := by
    rw [Positional.audited_eq ha Nat.zero_lt_one hsize]
    simp [Outline.keywordsIn]
  have hfold := Positional.foldl_addType ha policy ha.layout (fun _ hi => hi) Nat.zero_lt_one
    (Nat.le_refl _) []
  rw [hstart, List.nil_append] at hfold
  exact ⟨o, houtline, congrArg Prod.fst hfold⟩

namespace Declaration

/-- A region that begins inside a class and goes on behind it. -/
def regionHeader : String :=
  "@interface A \x7b @public id a; \x7d\n@property NSString *b;\nNS_ASSUME_NONNULL_BEGIN\n@end\n" ++
    "@protocol P\n@property NSString *c;\n@optional\n- (id)f;\n@end"

/-- The instance variables, the properties and the methods of types, each with its flag and with
its lowered type as it is printed. -/
def flagged (ds : List TypeDeclaration) :
    List (AccessLevel × String) × List (Bool × String) × List (Bool × String) :=
  (ds.flatMap fun d => d.ivars.map fun v => (v.member.access, v.storage.type.render),
    ds.flatMap fun d => d.properties.map fun p => (p.isOptional, p.storage.type.render),
    ds.flatMap fun d => d.methods.map fun m => (m.isOptional, m.signature.result.render))

theorem ofOutline_eq_positional_region : ∃ tree o,
    Header.parse regionHeader = .ok tree ∧ Header.outlineWithin 32 regionHeader = .ok o ∧
      ofOutline {} o = Positional.ofOutline {} o ∧
      flagged (ofOutline {} o) =
        ([(.publicAccess, "AnyObject!")], [(false, "String!"), (false, "String")],
          [(true, "AnyObject")]) := by
  have hok : (Header.parse regionHeader).isOk = true := by decide +kernel
  obtain ⟨tree, h⟩ := Header.exists_parse hok
  obtain ⟨o, ho, heq⟩ := ofOutline_eq_positional h 32 {}
  have hflagged : (Header.outlineWithin 32 regionHeader).toOption.map
      (fun o => flagged (ofOutline {} o)) =
        some ([(.publicAccess, "AnyObject!")], [(false, "String!"), (false, "String")],
          [(true, "AnyObject")]) := by
    decide +kernel
  rw [ho] at hflagged
  exact ⟨tree, o, h, ho, heq, Option.some.inj hflagged⟩

end Declaration

end HeaderBridge
