import HeaderBridge.Outline.OfTree
import HeaderBridge.Proofs.DeclaredType.Structure
import HeaderBridge.Proofs.Grammar.Joining

/-! # Types that are spelled anew

The outline spells the type of a declaration anew and reads the spelling. That is
the type that the parse nodes of the declaration denote, unless a line comment at
the end of one fragment swallows the next.
-/

namespace HeaderBridge

open Grammar Grammar.Expr

namespace DeclaredType

/-! ### The type of a declaration from its nodes -/

def anonymous : DeclaredType → DeclaredType
  | block _ r ps => block none r ps
  | specified ss t => specified ss t.anonymous
  | qualified t qs => qualified t.anonymous qs
  | t => t

def readDeclaration (inner : Inner) (specifiers declarator : Node) : Option DeclaredType := do
  let base ← readBase inner specifiers
  let t ← addDeclarator inner base declarator
  return ((outerWords specifiers).wrap t).anonymous

theorem readDeclaration_skeleton {inner inner' : Inner} (h : inner.Sees inner') {s d : Node}
    (hs : s.Read) (hd : d.Read) :
    readDeclaration inner' s.skeleton d.skeleton = readDeclaration inner s d := by
  simp only [readDeclaration, outerWords_skeleton, readBase_skeleton h hs,
    addDeclarator_skeleton h hd]

theorem anonymous_qualify (t : DeclaredType) (qs : List String) :
    (t.qualify qs).anonymous = t.anonymous.qualify qs := by
  cases qs <;> rfl

theorem anonymous_wrap (a : Adornment) (t : DeclaredType) :
    (a.wrap t).anonymous = a.wrap t.anonymous := by
  have hspecify : ∀ u : DeclaredType, (u.specify a.specifiers).anonymous =
      u.anonymous.specify a.specifiers := by
    intro u
    cases a.specifiers <;> rfl
  rw [Adornment.wrap, hspecify, anonymous_qualify, Adornment.wrap]

theorem anonymous_addPointer (p : Node) {t : DeclaredType} (ht : t.anonymous = t) :
    (addPointer t p).anonymous = addPointer t p := by
  rw [addPointer]
  induction p.childrenOf .pointerLevel generalizing t with
  | nil => exact ht
  | cons level levels ih => exact ih (by rw [addPointerLevel, anonymous_wrap]; rfl)

theorem anonymous_foldl_addArray (xs : List Node) {t : DeclaredType} (ht : t.anonymous = t) :
    (xs.foldl addArray t).anonymous = xs.foldl addArray t := by
  induction xs generalizing t with
  | nil => exact ht
  | cons x xs ih => exact ih rfl

/-- A type that a specifier names. -/
def isSimple : DeclaredType → Bool
  | void | named _ | object _ | generic _ _ => true
  | _ => false

theorem isSimple_readGeneric {inner : Inner} {m : Node} {t : DeclaredType}
    (h : readGeneric inner m = some t) : t.isSimple = true := by
  rw [readGeneric, Option.bind_eq_bind, Option.bind_eq_some_iff] at h
  obtain ⟨name, -, h⟩ := h
  split at h
  · obtain rfl := Option.some.inj h
    split <;> rfl
  · simp only [Option.bind_eq_bind, Option.bind_eq_some_iff] at h
    obtain ⟨list, -, ts, -, h⟩ := h
    obtain rfl := Option.some.inj h
    rfl

theorem isSimple_readSpecifier {inner : Inner} {m : Node} {t : DeclaredType}
    (h : readSpecifier inner m = some t) : t.isSimple = true := by
  rw [readSpecifier, Option.bind_eq_bind, Option.bind_eq_some_iff] at h
  obtain ⟨part, -, h⟩ := h
  split at h
  · obtain rfl := Option.some.inj h
    rw [ofPrimitive]
    split <;> rfl
  · obtain ⟨name, -, rfl⟩ := Option.map_eq_some_iff.mp h
    rfl
  · exact isSimple_readGeneric h
  · obtain rfl := Option.some.inj h
    rw [ofName]
    split <;> rfl
  · simp at h

theorem exists_readSpecifier {inner : Inner} {m : Node} {t : DeclaredType}
    (h : readBase inner m = some t) :
    ∃ b : DeclaredType, b.isSimple = true ∧ t = b.qualify (textsOf isBaseQualifier m.children) := by
  simp only [readBase, Option.bind_eq_bind, Option.bind_eq_some_iff] at h
  obtain ⟨s, -, b, hb, h⟩ := h
  exact ⟨b, isSimple_readSpecifier hb, (Option.some.inj h).symm⟩

theorem anonymous_readBase {inner : Inner} {m : Node} {t : DeclaredType}
    (h : readBase inner m = some t) : t.anonymous = t := by
  obtain ⟨b, hb, rfl⟩ := exists_readSpecifier h
  rw [anonymous_qualify]
  cases b with
  | void | named | object | generic => rfl
  | _ => cases hb

/-! ### Declarators with and without a place for a name -/

theorem addAbstract_pointer (inner : Inner) (t : DeclaredType) (ms ns : List Node) :
    addAbstract inner t (.branch .abstractDeclarator (.branch .pointer ms :: ns)) =
      addAbstract inner (addPointer t (.branch .pointer ms)) (.branch .abstractDeclarator ns) := rfl

theorem addAbstract_suffixes (inner : Inner) (t : DeclaredType) {ns : List Node}
    (h : ∀ n ∈ ns, n.rule = .declaratorSuffix) :
    addAbstract inner t (.branch .abstractDeclarator ns) = some (ns.foldl addArray t) := by
  rw [addAbstract, Node.children]
  induction ns generalizing t with
  | nil => rfl
  | cons n ns ih =>
    have hpart : addAbstractPart inner t n = some (addArray t n) := by
      rw [addAbstractPart, h n List.mem_cons_self]
    rw [List.foldlM_cons, hpart, List.foldl_cons]
    exact ih _ fun m hm => h m (List.mem_cons_of_mem n hm)

theorem addAbstract_block (inner : Inner) (t : DeclaredType) (ns : List Node) :
    addAbstract inner t (.branch .abstractDeclarator [.branch .abstractBlockDeclarator ns]) =
      addBlock inner t (.branch .abstractBlockDeclarator ns) := by
  change (addBlock inner t (.branch .abstractBlockDeclarator ns)).bind some = _
  rw [Option.bind_fun_some]

theorem addBlock_anonymous (inner : Inner) (t : DeclaredType) {m n : Node}
    (hlist : n.child? .blockParameters = m.child? .blockParameters)
    (hname : n.childText? .identifier = none)
    (hword : n.childText? .nullabilitySpecifier = m.childText? .nullabilitySpecifier) :
    addBlock inner t n = (addBlock inner t m).map anonymous := by
  simp only [addBlock, hlist, hname, hword, Option.bind_eq_bind, Option.map_bind, Option.pure_def,
    Function.comp_def, Option.map_some, anonymous_qualify]
  rfl

end DeclaredType

/-! ### The texts of fragments -/

namespace Grammar

/-- A word that may stand around a type. -/
def Node.IsWord (n : Node) : Prop := ∃ w r, n = .token r w ∧ prefixRule? (.ofList w) = some r

theorem Node.IsWord.isPlain {n : Node} (h : n.IsWord) : n.rule.isPlain = false := by
  obtain ⟨w, r, rfl, hr⟩ := h
  have hall : ∀ r ∈ [Rule.arcBehaviourSpecifier, .nullabilitySpecifier, .typeQualifier],
      r.isPlain = false := by decide
  exact hall r (List.mem_of_find?_eq_some hr)

theorem Words.isWord {x : List Char} {ns : List Node} (h : Words x ns) : ∀ n ∈ ns, n.IsWord := by
  induction h with
  | one hr =>
    intro n hn
    obtain rfl := List.mem_singleton.mp hn
    exact ⟨_, _, rfl, hr⟩
  | cons hr hg hne hy ih =>
    intro n hn
    rcases List.mem_cons.mp hn with rfl | hn
    · exact ⟨_, _, rfl, hr⟩
    · exact ih n hn

theorem Node.text_words {ms : List Node} (h : ∀ n ∈ ms.map Node.skeleton, n.IsWord) :
    (ms.map Node.skeleton).map (·.text.toList) = ms.map (·.text.toList) := by
  rw [List.map_map]
  refine List.map_congr_left fun m hm => ?_
  have hplain := (h _ (List.mem_map_of_mem hm)).isPlain
  rw [Node.rule_skeleton] at hplain
  rw [Function.comp, Node.text_skeleton hplain]

theorem Lead.isWord {l : List Char} {ns : List Node} (h : Lead l ns) : ∀ n ∈ ns, n.IsWord := by
  cases h with
  | none => simp
  | words hw hg hne => exact hw.isWord

theorem Trail.isWord {t : List Char} {ns : List Node} (h : Trail t ns) : ∀ n ∈ ns, n.IsWord := by
  cases h with
  | none => simp
  | words hg hw => exact hw.isWord

theorem SpecifierText.tidy {r s : List Char} {ns : List Node} (h : SpecifierText r s ns) :
    Tidy s := by
  refine ⟨?_, h.neat.last⟩
  obtain ⟨c, hc, hstart⟩ := (Option.any_eq_true _ _).mp h.start
  exact ⟨c, hc, isBlank_of_isIdentChar (isIdentChar_of_isIdentStart hstart)⟩

section Read

variable {m : Node} (h : m.Read)
include h

theorem Node.Read.trim_specifier (hr : m.rule = .typeSpecifier) : Text.trim m.text = m.text := by
  obtain ⟨cs, c, -, hread⟩ := h
  have hread' := hread
  rw [hr] at hread'
  obtain ⟨s, hs, hspecifier⟩ := specifiersReread _ cs c _ (Nat.le_refl _) hread'
  have htext := Node.text_of_reading (g := []) (by rw [hr]; rfl) hread hs
  rw [htext, List.append_nil, hspecifier.tidy.trim]

/-- The texts of the parts of a specifier list, one blank apart, are a base with the same parts. -/
theorem Node.Read.joined_specifiers (hr : m.rule = .specifierQualifierList) :
    BaseSpelling (List.intercalate [' '] (m.children.map (·.text.toList)))
      (m.children.map Node.skeleton) := by
  obtain ⟨y, c, hsolid, -, hread⟩ := h.body (by rw [hr]; rfl)
  have hbody : m.rule.body = base := by rw [hr]; rfl
  rw [hbody] at hread
  obtain ⟨l, s, t, r, ls', q', ts', -, hns, -, hs', hparts⟩ :=
    base_reading (specifiersReread _) hsolid hread
  obtain ⟨lq, ts, hchildren, hlq, rfl⟩ := List.map_eq_append_iff.mp hns
  obtain ⟨ls, qs, rfl, rfl, hqs⟩ := List.map_eq_append_iff.mp hlq
  obtain ⟨q, rfl, rfl⟩ := List.map_eq_singleton_iff.mp hqs
  rw [Node.text_unplaced] at hs'
  rw [List.map_map, List.map_map, Node.skeletons_unplaced, Node.skeletons_unplaced,
    Node.skeleton_unplaced] at hparts
  have hmap : m.children.map (·.text.toList) =
      ls.map (·.text.toList) ++ s :: ts.map (·.text.toList) := by
    rw [hchildren, List.map_append, List.map_append, List.map_singleton, hs', String.toList_ofList]
    simp
  have hbase := hparts.joined
  rw [Node.text_words hparts.lead.isWord, Node.text_words hparts.trail.isWord] at hbase
  rw [hmap, intercalate_around, hchildren, List.map_append, List.map_append]
  exact hbase

theorem Node.Read.parameters_text (hr : m.rule = .blockParameters) :
    ParametersText [] m.text.toList [m.skeleton] := by
  obtain ⟨cs, c, -, hread⟩ := h
  have hread' := hread
  rw [hr] at hread'
  obtain ⟨p, hp, hparameters⟩ := parametersReread _ cs c _ (Nat.le_refl _) hread'
  have htext := Node.text_of_reading (g := []) (by rw [hr]; rfl) hread hp
  rw [htext, String.toList_ofList, List.append_nil, ← Node.skeleton_unplaced]
  exact hparameters.mono (staysOpen_nil c)

theorem Node.Read.trim_parameters (hr : m.rule = .blockParameters) : Text.trim m.text = m.text := by
  have htrim := (h.parameters_text hr).tidy.trim
  rwa [String.ofList_toList] at htrim

theorem Node.Read.trim_suffix (hr : m.rule = .declaratorSuffix) : Text.trim m.text = m.text := by
  obtain ⟨cs, c, -, hread⟩ := h
  have hread' := hread
  rw [hr] at hread'
  obtain ⟨x, l, hx, hsuffix, -⟩ := suffix_reading hread'
  have htext := Node.text_of_reading (g := []) (by rw [hr]; rfl) hread hx
  rw [htext, List.append_nil, hsuffix.tidy.trim]

theorem Node.Read.joined_suffixes (hr : m.rule = .directDeclarator)
    (hnone : m.child? .blockParameters = none) :
    m.childrenOf .declaratorSuffix = [] ∨
      Suffixes [] (joinTexts (m.childrenOf .declaratorSuffix))
        ((m.childrenOf .declaratorSuffix).map Node.skeleton) := by
  obtain ⟨x, c, -, -, hread⟩ := h.body (by rw [hr]; rfl)
  rw [hr, Rule.directDeclarator_body, reading_choice, Option.or_eq_some_iff] at hread
  rcases hread with hread | ⟨-, hread⟩
  · rw [reading_seq, Reading.andThen_eq_some] at hread
    obtain ⟨c₁, ns₁, ns₂, h₁, h₂, hns⟩ := hread
    rw [reading_call, Rule.identifier_reading, Option.ite_none_right_eq_some, Option.some.injEq,
      Prod.mk.injEq] at h₁
    obtain ⟨-, -, rfl⟩ := h₁
    rw [reading_many_eq_rounds rfl (skipBetween_skipBetween .spaced c₁)] at h₂
    obtain ⟨c₂, ms, hread, hrounds⟩ :=
      rounds_readRounds (a := .call .declaratorSuffix) rfl (skipGap c₁) []
    obtain ⟨-, rfl⟩ := Prod.mk.inj (hread.symm.trans (Option.some.inj h₂))
    obtain ⟨-, hms⟩ := joined_of_rounds hrounds
    obtain ⟨i, ss, hchildren, hi, rfl⟩ := List.map_eq_cons_iff.mp hns
    have hi : i.rule = .identifier := by rw [← Node.rule_unplaced, hi]; rfl
    have hjoin : joinTexts (ss.map Node.unplaced) = joinTexts ss := by
      rw [joinTexts, List.flatMap_map, joinTexts]
      simp only [Node.text_unplaced]
    rw [List.map_map, Node.skeletons_unplaced, hjoin, List.map_eq_nil_iff] at hms
    have hall : ∀ s ∈ ss, s.rule = .declaratorSuffix := by
      rcases hms with rfl | hms
      · simp
      · intro s hs
        rw [← Node.rule_skeleton]
        exact hms.rule _ (List.mem_map_of_mem hs)
    have hss : m.childrenOf .declaratorSuffix = ss := by
      rw [Node.childrenOf, hchildren, List.filter_cons_of_neg (by simp [hi])]
      exact List.filter_eq_self.mpr fun s hs => by simp [hall s hs]
    rw [hss]
    exact hms
  · obtain ⟨p, hp, hrule⟩ :=
      Expr.exists_of_surely (show Expr.surely [.blockParameters] _ = true from rfl) hread
    obtain ⟨q, hq, rfl⟩ := List.mem_map.mp hp
    obtain ⟨y, hy⟩ :=
      Node.exists_child? (r := .blockParameters) hq (by simpa [Node.rule_unplaced] using hrule)
    rw [hnone] at hy
    simp at hy

end Read

end Grammar

namespace Outline

open DeclaredType

/-! ### Comments that hide a fragment -/

/-- Whether a line comment is still open at the end of a text. -/
def endsInComment (s : String) : Bool := Spot.code.after s.toList ≠ .code

/-- Whether a comment behind the specifiers of a type name swallows its declarator. -/
def hidesDeclarator (n : Node) : Bool :=
  (n.child? .abstractDeclarator).isSome &&
    (n.childText? .specifierQualifierList).any fun s => endsInComment (Text.trim s)

/-- Whether a comment behind the stars of a declarator swallows what stands behind the name. -/
def hidesTail (declarator : Node) : Bool :=
  (declarator.child? .directDeclarator).any (declaratorTail · ≠ "") &&
    (declarator.childText? .pointer).any fun s => endsInComment (Text.trim s)

theorem isGap_of_endsInComment {x g : List Char} (hx : Neat x) (hg : skipGap g = [])
    (h : endsInComment (.ofList (x ++ g)) = false) : IsGap g := by
  rw [isGap_iff_spot hg]
  simpa [endsInComment, hx.spot] using h

/-! ### Type names -/

theorem trimEnd_of_last {z : List Char} (hz : ∃ c ∈ z.getLast?, Text.isBlank c = false) :
    Text.trimEnd (.ofList z) = .ofList z := by
  have hlast : ∃ c ∈ z.reverse.head?, Text.isBlank c = false := by
    rw [List.head?_reverse]
    exact hz
  rw [Text.trimEnd, String.toList_ofList, dropBlanks_eq_self hlast, List.reverse_reverse]

theorem trimEnd_blank (z : List Char) :
    Text.trimEnd (.ofList (z ++ [' '])) = Text.trimEnd (.ofList z) := by
  rw [Text.trimEnd, Text.trimEnd, String.toList_ofList, String.toList_ofList, List.reverse_concat]
  rfl

theorem readTypeName_congr (inner : Inner) {m n : Node}
    (hlist : m.child? .specifierQualifierList = n.child? .specifierQualifierList)
    (hdeclarator : m.child? .abstractDeclarator = n.child? .abstractDeclarator) :
    readTypeName inner m = readTypeName inner n := by
  rw [readTypeName, readTypeName, hlist, hdeclarator]

theorem readWithin_ofList {x zs : List Char} {n : Node} (d : Nat) (hx : Firm x)
    (h : (Expr.call .typeName).shape (x ++ zs) = some ([], [n])) :
    readWithin d (.ofList (x ++ zs)) = readTypeName (.direct d) n := by
  refine readWithin_of_shape d ?_
  rw [String.toList_ofList, (hx.append zs).solid.skipGap, h]

/-- The spelling of a type name denotes what its nodes denote. -/
theorem readWithin_typeNameSpelling {n : Node} (h : n.Read) (hr : n.rule = .typeName)
    (hhide : hidesDeclarator n = false) (d : Nat) :
    (typeNameSpelling? n).bind (readWithin d) = readTypeName (.ofLevels d) n := by
  have hkind : n.rule.kind = .branch := by rw [hr]; rfl
  obtain ⟨list, hlist⟩ := h.exists_child? hkind .specifierQualifierList (by rw [hr]; rfl)
  obtain ⟨hread, hrule, -⟩ := h.of_child? hlist
  obtain ⟨x, g, bns, htrim, htidy, hg, hbase, hskeleton⟩ := hread.trim_specifiers hrule
  have hfirm := firm_of_startsIdent hbase.start
  have hlist' := n.child?_skeleton .specifierQualifierList
  have hdeclarator' := n.child?_skeleton .abstractDeclarator
  rw [hlist, Option.map_some, hskeleton] at hlist'
  rw [← readTypeName_skeleton (Inner.ofLevels_sees_direct d) h]
  cases hdeclarator : n.child? .abstractDeclarator with
  | none =>
    rw [hdeclarator] at hdeclarator'
    have hspelling : typeNameSpelling? n = some (.ofList (x ++ g)) := by
      have htext : Text.trim list.text ++ " " ++ Text.trim "" = .ofList (x ++ g ++ [' ']) := by
        rw [htrim, show Text.trim "" = "" from rfl, ← String.toList_inj]
        simp
      simp only [typeNameSpelling?, Node.childText?, hlist, hdeclarator, Option.map_some,
        Option.map_none, Option.getD_none, Option.bind_eq_bind, Option.bind_some, htext,
        trimEnd_blank, trimEnd_of_last htidy.last]
      rfl
    have hshape := typeName_base hbase g hg
    rw [hg] at hshape
    rw [hspelling, Option.bind_some, readWithin_ofList d hfirm hshape]
    exact readTypeName_congr _ hlist'.symm hdeclarator'.symm
  | some a =>
    obtain ⟨ha, harule, -⟩ := h.of_child? hdeclarator
    obtain ⟨y, g₂, r, ns, htrim₂, htidy₂, hg₂, habstract, hopen, hskeleton₂⟩ :=
      ha.trim_abstract harule
    rw [hdeclarator, Option.map_some, hskeleton₂] at hdeclarator'
    have hgap : IsGap (g ++ [' ']) := by
      refine (isGap_of_endsInComment hbase.neat hg ?_).append IsGap.blank
      rw [hidesDeclarator, hdeclarator, Node.childText?, hlist, Option.map_some, Option.any_some,
        htrim]
        at hhide
      simpa using hhide
    have hspelling : typeNameSpelling? n = some (.ofList (x ++ (g ++ [' '] ++ y) ++ g₂)) := by
      have htext : Text.trim list.text ++ " " ++ Text.trim a.text =
          .ofList (x ++ (g ++ [' '] ++ y) ++ g₂) := by
        rw [htrim, htrim₂, ← String.toList_inj]
        simp
      have hlast : ∃ c ∈ (x ++ (g ++ [' '] ++ y) ++ g₂).getLast?, Text.isBlank c = false := by
        have htidy' := (htidy.append (y := [' ']) htidy₂).last
        simpa using htidy'
      simp only [typeNameSpelling?, Node.childText?, hlist, hdeclarator, Option.map_some,
        Option.getD_some, Option.bind_eq_bind, Option.bind_some, htext, trimEnd_of_last hlast]
      rfl
    have hshape := typeName_abstract hbase hgap habstract g₂ ⟨stop_nil hg₂, hopen⟩
    rw [hg₂] at hshape
    rw [hspelling, Option.bind_some, readWithin_ofList d (hfirm.append _) hshape]
    refine readTypeName_congr _ hlist'.symm ?_
    rw [hdeclarator', Node.typeName, if_neg (by simpa using habstract.ne_nil)]
    rfl

/-! ### Declarations -/

theorem specifierWords?_eq {m : Node} (h : m.Read) (hr : m.rule = .specifierQualifierList) :
    specifierWords? m = some (m.children.map Node.text) := by
  obtain ⟨s, hs⟩ := h.exists_child? (by rw [hr]; rfl) .typeSpecifier (by rw [hr]; rfl)
  have hwords : m.children.map (fun part =>
      if part.rule = .typeSpecifier then Text.trim part.text else part.text) =
        m.children.map Node.text := by
    refine List.map_congr_left fun part hpart => ?_
    by_cases hrule : part.rule = .typeSpecifier
    · rw [if_pos hrule, (h.part hpart).1.trim_specifier hrule]
    · rw [if_neg hrule]
  rw [specifierWords?, hs, Option.bind_eq_bind, Option.bind_some, hwords]
  rfl

def addDirect (inner : Inner) (t : DeclaredType) (direct : Node) : Option DeclaredType :=
  match direct.child? .blockParameters with
  | some _ => addBlock inner t direct
  | none => some ((direct.childrenOf .declaratorSuffix).foldl addArray t)

theorem addDeclarator_eq (inner : Inner) (t : DeclaredType) (node : Node) :
    addDeclarator inner t node = (node.child? .directDeclarator).bind
      (addDirect inner (((node.child? .pointer).map (addPointer t)).getD t)) := by
  rw [addDeclarator]
  cases node.child? .pointer <;> rfl

/-- A text behind the stars of a declarator, with the nodes that are read from it. -/
def TailText (y : List Char) (ns : List Node) : Prop :=
  y = [] ∧ ns = [] ∨ ∃ g z, y = g ++ z ∧ IsGap g ∧ Ending [] z ns

/-- The same as for the place of a name, with the name left out. -/
def AddsTail (direct : Node) (ns : List Node) : Prop :=
  ∀ inner t, t.anonymous = t → addAbstract inner t (.branch .abstractDeclarator ns) =
    (addDirect inner t direct).map anonymous

theorem tail_arrays {m : Node} (h : m.Read) (hr : m.rule = .directDeclarator)
    (hnone : m.child? .blockParameters = none) :
    ∃ y ns, declaratorTail m = .ofList y ∧ TailText y ns ∧ AddsTail m.skeleton ns := by
  have hsuffix : ∀ s ∈ m.childrenOf .declaratorSuffix, Text.trim s.text = s.text := by
    intro s hs
    obtain ⟨hmem, hrule⟩ := Node.mem_childrenOf.mp hs
    exact (h.part hmem).1.trim_suffix hrule
  refine ⟨joinTexts (m.childrenOf .declaratorSuffix),
    (m.childrenOf .declaratorSuffix).map Node.skeleton, ?_, ?_, fun inner t ht => ?_⟩
  · rw [declaratorTail, hnone, List.map_congr_left hsuffix, ← String.toList_inj]
    simp [joinTexts, List.flatMap_map]
  · rcases h.joined_suffixes hr hnone with hnil | hsuffixes
    · exact .inl (by rw [hnil]; exact ⟨rfl, rfl⟩)
    · exact .inr ⟨[], _, rfl, IsGap.nil, .arrays hsuffixes⟩
  · rw [addDirect, Node.child?_skeleton, hnone, Option.map_none, Node.childrenOf_skeleton,
      addAbstract_suffixes]
    · rw [Option.map_some, anonymous_foldl_addArray _ ht]
    · intro n hn
      obtain ⟨s, hs, rfl⟩ := List.mem_map.mp hn
      rw [Node.rule_skeleton, (Node.mem_childrenOf.mp hs).2]

theorem child?_block {list : Node} (hlist : list.rule = .blockParameters) (w : List Char) :
    let n := Node.branch .abstractBlockDeclarator
      (Node.optional .nullabilitySpecifier w ++ Node.optional .identifier [] ++ [list])
    n.child? .blockParameters = some list ∧ n.childText? .identifier = none ∧
      n.childText? .nullabilitySpecifier = if w.isEmpty then none else some (.ofList w) := by
  obtain ⟨r, s, t, ns⟩ := list
  obtain rfl : r = .blockParameters := hlist
  cases w <;> exact ⟨rfl, rfl, rfl⟩

theorem text_mem_spellings {m : Node} (h : m.Read) (hr : m.rule.isKeyword = true) :
    m.text ∈ m.rule.spellings := by
  obtain ⟨cs, c, -, hread⟩ := h
  rw [Rule.keyword_reading hr, Option.ite_none_right_eq_some, Option.some.injEq,
    Prod.mk.injEq] at hread
  obtain ⟨hmem, -, hm⟩ := hread
  rw [← Node.text_unplaced, ← (List.cons.inj hm).1]
  exact hmem

theorem tail_block {m list : Node} (h : m.Read) (hlist : m.child? .blockParameters = some list) :
    ∃ y ns, declaratorTail m = .ofList y ∧ TailText y ns ∧ AddsTail m.skeleton ns := by
  obtain ⟨hread, hrule, -⟩ := h.of_child? hlist
  have hparameters := hread.parameters_text hrule
  obtain ⟨w, hw, hcaret⟩ : ∃ w, (m.childText? .nullabilitySpecifier =
      if w.isEmpty then none else some (.ofList w)) ∧ CaretText w w [] := by
    cases hword : m.child? .nullabilitySpecifier with
    | none => exact ⟨[], by rw [Node.childText?, hword]; rfl, .none IsGap.nil⟩
    | some q =>
      obtain ⟨hq, hqrule, -⟩ := h.of_child? hword
      have hmem := text_mem_spellings hq (by rw [hqrule]; rfl)
      rw [hqrule, ← String.ofList_toList (s := q.text)] at hmem
      have hne := (nullability_spelling hmem).firm.ne_nil
      refine ⟨q.text.toList, ?_, by simpa using CaretText.word IsGap.nil hmem IsGap.nil⟩
      rw [Node.childText?, hword, List.isEmpty_eq_false_iff.mpr hne, String.ofList_toList]
      rfl
  have hblock := BlockText.intro IsGap.nil hcaret IsGap.nil hparameters
  obtain ⟨hchild, hname, hnullability⟩ := child?_block
    (show list.skeleton.rule = .blockParameters by rw [Node.rule_skeleton, hrule]) w
  refine ⟨_, _, ?_, .inr ⟨[' '], _, rfl, IsGap.blank, .block hblock⟩, fun inner t ht => ?_⟩
  · rw [declaratorTail, hlist, ← String.toList_inj, hw]
    cases w <;> simp [hread.trim_parameters hrule]
  · rw [addAbstract_block, addDirect, Node.child?_skeleton, hlist, Option.map_some]
    refine addBlock_anonymous inner t ?_ hname ?_
    · rw [hchild, Node.child?_skeleton, hlist, Option.map_some]
    · rw [hnullability, Node.childText?_skeleton m rfl, hw]

def declaratorText (declarator direct : Node) : List Char :=
  ((declarator.child? .pointer).map fun p => ' ' :: (Text.trim p.text).toList).getD [] ++
    (declaratorTail direct).toList

theorem declarationSpelling?_eq {s d direct : Node} (hs : s.Read)
    (hsr : s.rule = .specifierQualifierList) (hdirect : d.child? .directDeclarator = some direct) :
    declarationSpelling? s d = some (.ofList
      (List.intercalate [' '] (s.children.map (·.text.toList)) ++ declaratorText d direct)) := by
  have hblank : " ".toList = [' '] := rfl
  have hne : s.children ≠ [] := by
    obtain ⟨q, hq, -⟩ := hs.exists_child (by rw [hsr]; rfl) [.typeSpecifier] (by rw [hsr]; rfl)
    exact List.ne_nil_of_mem hq
  obtain ⟨q, qs, hchildren⟩ := List.exists_cons_of_ne_nil hne
  rw [declarationSpelling?, specifierWords?_eq hs hsr, hdirect, hchildren]
  simp only [Option.bind_eq_bind, Option.bind_some, Option.pure_def, Option.some.injEq]
  rw [← String.toList_inj, String.toList_append, String.toList_intercalate, hblank,
    String.toList_ofList, declaratorText, Node.childText?]
  cases d.child? .pointer with
  | none => simp [Function.comp_def]
  | some p =>
    simp only [Option.map_some, Option.toList_some, List.map_cons, List.cons_append,
      intercalate_cons]
    simp [List.flatMap_map]

/-- Behind a base stands nothing, or a declarator without a name and the beginning of a gap. -/
def DeclaratorRest (y : List Char) (ns : List Node) : Prop :=
  y = [] ∧ ns = [] ∨ ∃ g z g₂ r, y = g ++ (z ++ g₂) ∧ IsGap g ∧ AbstractText r z ns ∧
    skipGap g₂ = [] ∧ StaysOpen r g₂

theorem declarator_rest {d direct : Node} (h : d.Read)
    (hdirect : d.child? .directDeclarator = some direct) (hhide : hidesTail d = false) :
    ∃ ns, DeclaratorRest (declaratorText d direct) ns ∧ ∀ inner t, t.anonymous = t →
      addAbstract inner t (.branch .abstractDeclarator ns) =
        (addDeclarator inner t d.skeleton).map anonymous := by
  obtain ⟨hread, hrule, -⟩ := h.of_child? hdirect
  obtain ⟨y, ns, htail, htext, hadds⟩ : ∃ y ns, declaratorTail direct = .ofList y ∧ TailText y ns ∧
      AddsTail direct.skeleton ns := by
    cases hlist : direct.child? .blockParameters with
    | none => exact tail_arrays hread hrule hlist
    | some list => exact tail_block hread hlist
  have hdirect' := d.child?_skeleton .directDeclarator
  rw [hdirect, Option.map_some] at hdirect'
  have hpointer' := d.child?_skeleton .pointer
  cases hpointer : d.child? .pointer with
  | none =>
    rw [hpointer, Option.map_none] at hpointer'
    refine ⟨ns, ?_, fun inner t ht => ?_⟩
    · rw [declaratorText, hpointer, htail, String.toList_ofList]
      rcases htext with ⟨rfl, rfl⟩ | ⟨g, z, rfl, hg, hz⟩
      · exact .inl ⟨rfl, rfl⟩
      · exact .inr ⟨g, z, [], [], by simp, hg, .ending hz, skipGap_nil, .refl []⟩
    · rw [addDeclarator_eq, hdirect', hpointer']
      exact hadds inner t ht
  | some p =>
    obtain ⟨hp, hprule, -⟩ := h.of_child? hpointer
    obtain ⟨x, g, ms, htrim, hg, hstars, hskeleton⟩ := hp.trim_pointer hprule
    rw [hpointer, Option.map_some, hskeleton] at hpointer'
    refine ⟨.branch .pointer ms :: ns, .inr ?_, fun inner t ht => ?_⟩
    · rw [declaratorText, hpointer, htail, Option.map_some, Option.getD_some, htrim,
        String.toList_ofList, String.toList_ofList]
      rcases htext with ⟨rfl, rfl⟩ | ⟨k, z, rfl, hk, hz⟩
      · exact ⟨[' '], x, g, g, by simp, IsGap.blank, .stars hstars, hg, .refl g⟩
      · have hgap : IsGap g := by
          refine isGap_of_endsInComment hstars.neat hg ?_
          have hne : declaratorTail direct ≠ "" := by
            rw [htail, Ne, ← String.toList_inj]
            obtain ⟨c, z', rfl, -⟩ := hz.exists_cons
            simp
          simpa [hidesTail, hdirect, Node.childText?, hpointer, htrim, hne] using hhide
        exact ⟨[' '], x ++ ((g ++ k) ++ z), [], [],
          by simp, IsGap.blank, .both hstars (hgap.append hk) hz, skipGap_nil, .refl []⟩
    · rw [addAbstract_pointer, addDeclarator_eq, hdirect', hpointer']
      exact hadds inner _ (anonymous_addPointer _ ht)

theorem readTypeName_typeName (inner : Inner) (bns ns : List Node) :
    readTypeName inner (.typeName bns ns) =
      (readBase inner (.branch .specifierQualifierList bns)).bind fun base =>
        (addAbstract inner base (.branch .abstractDeclarator ns)).map
          (outerWords (.branch .specifierQualifierList bns)).wrap := by
  cases ns with
  | nil => rfl
  | cons n ns =>
    have hlist : (Node.typeName bns (n :: ns)).child? .specifierQualifierList =
      some (.branch .specifierQualifierList bns) := rfl
    have hdeclarator : (Node.typeName bns (n :: ns)).child? .abstractDeclarator =
      some (.branch .abstractDeclarator (n :: ns)) := rfl
    rw [readTypeName, hlist, hdeclarator]
    simp only [Option.bind_eq_bind, Option.bind_some]
    congr 1
    funext base
    cases addAbstract inner base (.branch .abstractDeclarator (n :: ns)) <;> rfl

/-- The spelling of a declaration denotes what its nodes denote. -/
theorem readWithin_declarationSpelling {s d : Node} (hs : s.Read)
    (hsr : s.rule = .specifierQualifierList) (hd : d.Read) (hdr : d.rule = .declarator)
    (hhide : hidesTail d = false) (n : Nat) :
    (declarationSpelling? s d).bind (readWithin n) = readDeclaration (.ofLevels n) s d := by
  obtain ⟨direct, hdirect⟩ :=
    hd.exists_child? (by rw [hdr]; rfl) .directDeclarator (by rw [hdr]; rfl)
  obtain ⟨ns, hrest, hadds⟩ := declarator_rest hd hdirect hhide
  have hbase := hs.joined_specifiers hsr
  have hfirm := firm_of_startsIdent hbase.start
  have hskeleton : s.skeleton = .branch .specifierQualifierList (s.children.map Node.skeleton) := by
    rw [Node.skeleton_eq_branch (by rw [hsr]; rfl), hsr]
  have hread : readWithin n (.ofList (List.intercalate [' '] (s.children.map (·.text.toList)) ++
      declaratorText d direct)) =
        readTypeName (.direct n) (.typeName (s.children.map Node.skeleton) ns) := by
    rcases hrest with ⟨hy, rfl⟩ | ⟨g, z, g₂, r, hy, hg, hz, hg₂, hopen⟩
    · rw [hy]
      have hshape := typeName_base hbase [] skipGap_nil
      rw [skipGap_nil] at hshape
      exact readWithin_ofList n hfirm hshape
    · rw [hy, ← List.append_assoc g, ← List.append_assoc]
      have hshape := typeName_abstract hbase hg hz g₂ ⟨stop_nil hg₂, hopen⟩
      rw [hg₂] at hshape
      exact readWithin_ofList n (hfirm.append _) hshape
  rw [declarationSpelling?_eq hs hsr hdirect, Option.bind_some, hread, readTypeName_typeName,
    ← hskeleton, ← readDeclaration_skeleton (Inner.ofLevels_sees_direct n) hs hd, readDeclaration]
  cases hb : readBase (.direct n) s.skeleton with
  | none => rfl
  | some base =>
    simp only [Option.bind_eq_bind, Option.bind_some, hadds _ base (anonymous_readBase hb),
      Option.map_map]
    cases addDeclarator (.direct n) base d.skeleton with
    | none => rfl
    | some t =>
      simp only [Option.map_some, Option.bind_some, Function.comp, ← anonymous_wrap]
      rfl

end Outline

end HeaderBridge
