import HeaderBridge.Proofs.DeclaredType.Regular
import HeaderBridge.Proofs.Outline.Respelling
import Mathlib.Data.List.Forall2

/-! # Written types

The types that spellings denote. Words may stand behind every star and around
every type as a whole, so that a written type need not be regular: the words of an
inner layer, or those around an array, have no place in a canonical spelling.
-/

namespace HeaderBridge

open Grammar Grammar.Expr

/-! ### Blanks -/

namespace Text

theorem foldr_addToWords_blanks {b : List Char} (hb : ∀ c ∈ b, isBlank c = true) (hne : b ≠ [])
    {w : List Char} (hw : w ≠ []) (ws : List (List Char)) :
    b.foldr addToWords (w, ws) = ([], w :: ws) := by
  induction b with
  | nil => exact absurd rfl hne
  | cons c b ih =>
    have hc := hb c List.mem_cons_self
    rw [List.foldr_cons]
    by_cases hbne : b = []
    · subst hbne
      simp [addToWords, hc, hw]
    · rw [ih (fun d hd => hb d (List.mem_cons_of_mem c hd)) hbne]
      simp [addToWords, hc]

theorem dropBlanks_eq_nil_or (cs : List Char) :
    dropBlanks cs = [] ∨ ∃ c ∈ (dropBlanks cs).head?, isBlank c = false := by
  cases h : dropBlanks cs with
  | nil => exact .inl rfl
  | cons c ds =>
    have hc := List.head?_dropWhile_not isBlank cs
    rw [← dropBlanks, h] at hc
    exact .inr ⟨c, rfl, by simpa using hc⟩

theorem trim_eq_empty_or_tidy (s : String) : trim s = "" ∨ Tidy (trim s).toList := by
  rw [trim, trimEnd, trimStart, String.toList_ofList, String.toList_ofList]
  rcases dropBlanks_eq_nil_or (dropBlanks s.toList).reverse with hnil | ⟨c, hc, hlast⟩
  · rw [hnil]
    exact .inl rfl
  · refine .inr ⟨?_, c, ?_, hlast⟩
    · -- what is left at the end is a beginning of what was left at the start
      obtain ⟨d, hd, hfirst⟩ := (dropBlanks_eq_nil_or s.toList).resolve_left (by
        intro hnil
        rw [hnil] at hc
        simp [dropBlanks] at hc)
      have hprefix : (dropBlanks (dropBlanks s.toList).reverse).reverse <+:
          dropBlanks s.toList := by
        have h := List.dropWhile_suffix isBlank (l := (dropBlanks s.toList).reverse)
        rwa [← List.reverse_prefix, List.reverse_reverse] at h
      refine ⟨d, ?_, hfirst⟩
      obtain ⟨rest, hrest⟩ := hprefix
      rw [← hrest, List.head?_append, Option.or_of_isSome] at hd
      · exact hd
      · rw [List.isSome_head?, ne_eq, List.reverse_eq_nil_iff]
        intro hnil
        simp [hnil] at hc
    · rwa [List.getLast?_reverse]

theorem mem_of_mem_trim {s : String} {c : Char} (h : c ∈ (trim s).toList) : c ∈ s.toList := by
  rw [trim, trimEnd, trimStart, String.toList_ofList, String.toList_ofList, List.mem_reverse] at h
  exact (List.dropWhile_suffix _).subset (List.mem_reverse.mp ((List.dropWhile_suffix _).subset h))

end Text

/-! ### Parts of nodes -/

namespace Grammar

theorem ScalarTail.exists_words {x : List Char} (h : ScalarTail x) :
    ∃ ws : List String, (∀ v ∈ ws, v ∈ Rule.primitiveWord.spellings) ∧
      x.foldr Text.addToWords ([], []) = ([], ws.map String.toList) := by
  induction h with
  | nil => exact ⟨[], by simp, rfl⟩
  | @cons b w x hb hne hw hx ih =>
    obtain ⟨ws, hws, hfold⟩ := ih
    obtain ⟨hchars, hstart⟩ := scalarStarts_spelling (w := w) (by simp [scalarStarts, hw])
    have hblank : ∀ c ∈ b, Text.isBlank c = true := by
      intro c hc
      have := hb c hc
      simp only [isSpaceOrTab, Bool.or_eq_true, beq_iff_eq] at this
      rcases this with rfl | rfl <;> rfl
    refine ⟨.ofList w :: ws, by simpa using ⟨hw, hws⟩, ?_⟩
    rw [List.foldr_append, List.foldr_append, hfold,
      DeclaredType.foldr_addToWords fun c hc => isBlank_of_isIdentChar (hchars c hc),
      List.append_nil, Text.foldr_addToWords_blanks hblank hne (firm_of_startsIdent hstart).ne_nil]
    simp

section Read

variable {m : Node} (h : m.Read)
include h

theorem Node.Read.isIdent (hr : m.rule ∈ Rule.names) : IsIdent m.text.toList := by
  obtain ⟨cs, hstart, htext⟩ := h.exists_identRun hr
  rw [htext]
  exact isIdent_identRun hstart

theorem Node.Read.isScalar (hr : m.rule = .primitiveType) :
    DeclaredType.IsScalar (" ".intercalate (Text.words m.text)) := by
  obtain ⟨cs, c, -, hread⟩ := h
  rw [hr] at hread
  have htext := Rule.reading_text (.inr rfl) hread
  rw [Rule.primitiveType_reading, Option.ite_none_right_eq_some] at hread
  obtain ⟨hstart, hread⟩ := hread
  obtain ⟨x, hsplit, hx, -⟩ := scalarRest_split (identRest cs) (ends_identRest cs)
  have hc : scalarRest (identRest cs) = c := congrArg Prod.fst (Option.some.inj hread)
  rw [hc] at hsplit
  have hwords : m.text.toList = identRun cs ++ x := by
    rw [Node.text_unplaced] at htext
    rw [← List.append_left_inj c, List.append_assoc, ← hsplit, identRun_append_identRest, htext]
  obtain ⟨hchars, hfirst⟩ := scalarStarts_spelling hstart
  obtain ⟨ws, hws, hfold⟩ := hx.exists_words
  refine ⟨.ofList (identRun cs), ws, hstart, hws, ?_⟩
  have hne := (firm_of_startsIdent hfirst).ne_nil
  rw [Text.words, hwords, List.foldr_append, hfold,
    DeclaredType.foldr_addToWords fun c hc => isBlank_of_isIdentChar (hchars c hc), List.append_nil]
  simp [hne, Function.comp_def]

theorem Node.Read.length_inside (hr : m.rule = .arrayLength) : ∀ c ∈ m.text.toList, c ≠ ']' := by
  obtain ⟨cs, c, -, hread⟩ := h
  rw [hr, Rule.arrayLength_reading, Option.ite_none_right_eq_some, Option.some.injEq,
    Prod.mk.injEq] at hread
  rw [← Node.text_unplaced, ← List.singleton_inj.mp hread.2.2, Node.token, Node.text,
    String.toList_ofList]
  intro c hc
  simpa using List.mem_takeWhile_imp hc

theorem Node.Read.generic_name (hr : m.rule = .typeSpecifier) {part : Node} {i : String}
    (hpart : part ∈ m.children) (hgeneric : part.rule = .genericTypeSpecifier)
    (hi : part.childText? .identifier = some i) :
    i = .ofList (identRun m.text.toList) ∧ i ∉ scalarStarts := by
  have hread := h
  obtain ⟨cs, c, hsolid, hread⟩ := hread
  have hwhole := hread
  rw [hr] at hread
  obtain ⟨s, hs, hspecifier⟩ := specifiersReread _ cs c _ (Nat.le_refl _) hread
  have htext := Node.text_of_reading (g := []) (by rw [hr]; rfl) hwhole hs
  have hrun : identRun m.text.toList = identRun cs := by
    rw [htext, String.toList_ofList, List.append_nil, hs, hspecifier.run _ (.refl _)]
  rw [hrun]
  obtain ⟨x, ms, -, hbody, hm⟩ := Rule.reading_branch_eq_some rfl hread
  have hchildren : m.children.map Node.unplaced = ms := by
    rw [← Node.children_unplaced, List.singleton_inj.mp hm]
    rfl
  have hmem : part.unplaced ∈ ms := hchildren ▸ List.mem_map_of_mem hpart
  have hrule : part.unplaced.rule = .genericTypeSpecifier := by rw [Node.rule_unplaced, hgeneric]
  -- of the four choices, only the one for arguments leaves a node of that rule
  have hother : ∀ {r : Rule}, (Expr.call r).reading .spaced cs = some (c, ms) →
      .genericTypeSpecifier ∈ (Expr.call r).seen.flatMap Rule.leaves := by
    intro r hr
    have hleaf := (Expr.reading_nodes hsolid hr _ hmem).2
    rwa [hrule] at hleaf
  rw [Rule.typeSpecifier_body, reading_choice, Option.or_eq_some_iff] at hbody
  rcases hbody with hbody | ⟨hscalar, hbody⟩
  · exact absurd (hother hbody) (by decide)
  rw [reading_choice, Option.or_eq_some_iff] at hbody
  rcases hbody with hbody | ⟨-, hbody⟩
  · exact absurd (hother hbody) (by decide)
  rw [reading_choice, Option.or_eq_some_iff] at hbody
  rcases hbody with hbody | ⟨-, hbody⟩
  · rw [reading_call] at hbody
    obtain ⟨y, ns, -, hgenericBody, rfl⟩ := Rule.reading_branch_eq_some rfl hbody
    have hangles : Rule.genericTypeSpecifier.body = .seq (.call .identifier) angles := rfl
    rw [hangles, reading_seq, Reading.andThen_eq_some, reading_call, Rule.identifier_reading]
      at hgenericBody
    obtain ⟨cs₁, ns₁, ns₂, h₁, -, rfl⟩ := hgenericBody
    rw [Option.ite_none_right_eq_some, Option.some.injEq, Prod.mk.injEq] at h₁
    obtain ⟨-, -, rfl⟩ := h₁
    rw [← Node.childText?_unplaced, List.mem_singleton.mp hmem] at hi
    obtain rfl : String.ofList (identRun cs) = i := Option.some.inj hi
    refine ⟨rfl, fun hstart => ?_⟩
    rw [reading_call, Rule.primitiveType_reading, if_pos hstart] at hscalar
    cases hscalar
  · exact absurd (hother hbody) (by decide)

theorem Node.Read.specifier_word (hr : m.rule = .specifierQualifierList) {q : Node}
    (hq : m.child? .typeSpecifier = some q) :
    prefixRule? (.ofList (identRun q.text.toList)) = none := by
  obtain ⟨x, c, hsolid, -, hread⟩ := h.body (by rw [hr]; rfl)
  have hbody : m.rule.body = base := by rw [hr]; rfl
  rw [hbody] at hread
  obtain ⟨l, s, t, r, ls, n, ts, -, hns, hrule, htext, hparts⟩ :=
    base_reading (specifiersReread _) hsolid hread
  have hlead : ∀ y ∈ ls, y.rule ≠ .typeSpecifier := by
    intro y hy hrule
    have hplain := (hparts.lead.isWord _ (List.mem_map_of_mem hy)).isPlain
    rw [Node.rule_skeleton, hrule] at hplain
    cases hplain
  have hfind := Node.child?_unplaced m .typeSpecifier
  rw [hq, Node.child?, Node.children_unplaced, hns, List.append_assoc, List.find?_append,
    List.find?_eq_none.mpr fun y hy => by
      simpa using hlead y hy, Option.none_or, List.singleton_append,
    List.find?_cons_of_pos (by simpa using hrule)] at hfind
  have hname := hparts.name
  rw [← String.toList_ofList (l := s), ← htext, Option.some.inj hfind, Node.text_unplaced] at hname
  exact hname

/-- A declarator without a name has stars, if any, and then brackets of arrays or one block. -/
theorem Node.Read.abstract_parts (hr : m.rule = .abstractDeclarator) :
    ∃ ps es, m.children = ps ++ es ∧ (ps = [] ∨ ∃ p : Node, p.rule = .pointer ∧ ps = [p]) ∧
      ((∀ e ∈ es, e.rule = .declaratorSuffix) ∨
        ∃ b : Node, b.rule = .abstractBlockDeclarator ∧ es = [b]) := by
  obtain ⟨y, g, r, ns, -, -, -, habstract, -, hskeleton⟩ := h.trim_abstract hr
  have hchildren : m.children.map Node.skeleton = ns := by
    rw [← Node.children_skeleton, hskeleton]
    rfl
  have hpointer : ∀ {p : Node} {ms : List Node}, p.skeleton = .branch .pointer ms →
      p.rule = .pointer := by
    intro p ms hp
    rw [← Node.rule_skeleton, hp]
    rfl
  have hending : ∀ {z : List Char} {es : List Node}, Ending r z (es.map Node.skeleton) →
      (∀ e ∈ es, e.rule = .declaratorSuffix) ∨
        ∃ b : Node, b.rule = .abstractBlockDeclarator ∧ es = [b] := by
    intro z es hes
    generalize hns : es.map Node.skeleton = ns at hes
    cases hes with
    | arrays hes =>
      refine .inl fun e he => ?_
      rw [← Node.rule_skeleton]
      exact hes.rule _ (hns ▸ List.mem_map_of_mem he)
    | block hes =>
      obtain ⟨b, rfl, hb⟩ := List.map_eq_singleton_iff.mp hns
      refine .inr ⟨b, ?_, rfl⟩
      rw [← Node.rule_skeleton, hb]
      rfl
  cases habstract with
  | stars hx =>
    obtain ⟨p, hp, hps⟩ := List.map_eq_singleton_iff.mp hchildren
    exact ⟨[p], [], by rw [hp]; rfl, .inr ⟨p, hpointer hps, rfl⟩, .inl (by simp)⟩
  | ending hz => exact ⟨[], m.children, rfl, .inl rfl, hending (hchildren ▸ hz)⟩
  | both hx hg hz =>
    obtain ⟨p, es, hp, hps, rfl⟩ := List.map_eq_cons_iff.mp hchildren
    exact ⟨[p], es, hp, .inr ⟨p, hpointer hps, rfl⟩, hending hz⟩

end Read

end Grammar

namespace DeclaredType

/-! ### Written types -/

structure Adornment.IsOuter (a : Adornment) : Prop where
  qualifiers : ∀ q ∈ a.qualifiers, q ∈ Rule.nullabilitySpecifier.spellings
  specifiers : ∀ s ∈ a.specifiers, s ∈ frontWords

/-- The types that are read, up to a stage. -/
inductive Written : Stage → DeclaredType → Prop where
  | void : Written .base void
  /-- Behind a tag, any word is a name. -/
  | name {n : String} : IsIdent n.toList → Written .base (named n)
  | scalar {n : String} : IsScalar n → n ≠ "void" → Written .base (named n)
  | object {ps : List String} : (∀ p ∈ ps, IsIdent p.toList) → Written .base (object ps)
  | arguments {n : String} {ts : List DeclaredType} : IsGenericName n → ts ≠ [] →
      (∀ t ∈ ts, Written .argument t) → Written .base (generic n ts)
  | qualify {t : DeclaredType} {qs : List String} : Written .base t →
      (∀ q ∈ qs, q ∈ baseQualifiers) → Written .qualified (t.qualify qs)
  | ofQualified {t : DeclaredType} : Written .qualified t → Written .pointer t
  | star {t : DeclaredType} {a : Adornment} : Written .pointer t →
      (∀ q ∈ a.qualifiers, q ∈ starWords) → (∀ s ∈ a.specifiers, s ∈ frontWords) →
      Written .pointer (a.wrap (pointer t))
  | argument {t : DeclaredType} {a : Adornment} : Written .pointer t → a.IsOuter →
      Written .argument (a.wrap t)
  | ofPointer {t : DeclaredType} : Written .pointer t → Written .array t
  | array {t : DeclaredType} {l : String} : Written .array t → l = "" ∨ Tidy l.toList →
      (∀ c ∈ l.toList, c ≠ ']') → Written .array (array t l)
  | declared {t : DeclaredType} {a : Adornment} : Written .array t → a.IsOuter →
      Written .declared (a.wrap t)
  | block {name : Option String} {r : DeclaredType} {ps : List DeclaredType} {qs : List String}
      {a : Adornment} : Written .pointer r → (∀ p ∈ ps, Written .declared p) → ps ≠ [.void] →
      (qs = [] ∨ ∃ q ∈ Rule.nullabilitySpecifier.spellings, qs = [q]) → a.IsOuter →
      Written .declared (a.wrap ((block name r ps).qualify qs))

/-! ### Words -/

theorem mem_nullability_of_read {x : Node} (h : x.Read) (hr : x.rule = .nullabilitySpecifier) :
    x.text ∈ Rule.nullabilitySpecifier.spellings :=
  h.text_mem (by rw [hr]; rfl) (by rw [hr]; rfl)

theorem mem_frontWords_of_read {x : Node} (h : x.Read) (hs : isSpecifier x = true) :
    x.text ∈ frontWords := by
  simp only [isSpecifier, Bool.or_eq_true, Bool.and_eq_true, decide_eq_true_eq] at hs
  rcases hs with hr | ⟨-, ht⟩
  · exact List.mem_append_left _ (h.text_mem (by rw [hr]; rfl) (by rw [hr]; rfl))
  · rw [ht]
    decide

theorem forall_mem_textsOf {P : String → Prop} {test : Node → Bool} {xs : List Node}
    (h : ∀ x ∈ xs, test x = true → P x.text) : ∀ w ∈ textsOf test xs, P w := by
  intro w hw
  obtain ⟨x, hx, rfl⟩ := List.mem_map.mp hw
  obtain ⟨hx, ht⟩ := List.mem_filter.mp hx
  exact h x hx ht

theorem mem_starWords_of_read {level x : Node} (h : level.Read) (hr : level.rule = .pointerLevel)
    (hx : x ∈ level.children) (hs : isSpecifier x = false) : x.text ∈ starWords := by
  obtain ⟨hread, hrules⟩ :=
    h.part_of (P := fun r => r = .typeQualifier ∨ r = .nullabilitySpecifier ∨
    r = .arcBehaviourSpecifier) hr (by decide) hx
  rcases hrules with hr | hr | hr
  · have hmem := hread.text_mem (by rw [hr]; rfl) (by rw [hr]; rfl)
    have hall : ∀ w ∈ Rule.typeQualifier.spellings, w = "__kindof" ∨ w ∈ starWords := by decide
    refine (hall _ hmem).resolve_left fun hkind => ?_
    simp [isSpecifier, hr, hkind] at hs
  · exact mem_starWords (List.mem_append_left _ (mem_nullability_of_read hread hr))
  · simp [isSpecifier, hr] at hs

theorem outerWords_isOuter {m : Node} (h : m.Read) : (outerWords m).IsOuter where
  qualifiers := forall_mem_textsOf fun _ hx hr =>
    mem_nullability_of_read (h.part hx).1 (of_decide_eq_true hr)
  specifiers := forall_mem_textsOf fun _ hx hs => mem_frontWords_of_read (h.part hx).1 hs

/-! ### Readers -/

structure Inner.Writes (inner : Inner) : Prop where
  argument : ∀ {a : Node} {t : DeclaredType}, a.Read → a.rule = .typeArgument →
    inner.argument a = some t → Written .argument t
  parameter : ∀ {p : Node} {t : DeclaredType}, p.Read → p.rule = .parameterDeclaration →
    inner.parameter p = some t → Written .declared t

theorem forall₂_of_mapM {α β : Type} {f : α → Option β} {xs : List α} {ys : List β}
    (h : xs.mapM f = some ys) : List.Forall₂ (fun x y => f x = some y) xs ys := by
  induction xs generalizing ys with
  | nil =>
    obtain rfl := Option.some.inj h
    exact .nil
  | cons x xs ih =>
    simp only [List.mapM_cons, Option.bind_eq_bind, Option.bind_eq_some_iff] at h
    obtain ⟨y, hy, zs, hzs, h⟩ := h
    obtain rfl := Option.some.inj h
    exact .cons hy (ih hzs)

theorem forall_of_mapM {P : DeclaredType → Prop} {f : Node → Option DeclaredType} {xs : List Node}
    {ts : List DeclaredType} (hf : ∀ x ∈ xs, ∀ t, f x = some t → P t) (h : xs.mapM f = some ts) :
    (∀ t ∈ ts, P t) ∧ ts.length = xs.length := by
  replace h := forall₂_of_mapM h
  refine ⟨?_, h.length_eq.symm⟩
  induction h with
  | nil => exact List.forall_mem_nil P
  | cons ht _ ih =>
    obtain ⟨hx, hxs⟩ := List.forall_mem_cons.mp hf
    exact List.forall_mem_cons.mpr ⟨hx _ ht, ih hxs⟩

theorem written_argument_name {n : String} (h : IsIdent n.toList) : Written .argument (named n) :=
  @Written.argument _ ⟨[], []⟩ (.ofQualified (@Written.qualify _ [] (.name h) (by simp)))
    ⟨by simp, by simp⟩

section Readers

variable {inner : Inner} (hinner : inner.Writes) {m : Node} (hm : m.Read) {t u : DeclaredType}
  {a : Adornment} (ha : a.IsOuter)

include hinner hm in
theorem written_readGeneric
    (hname : ∀ i, m.childText? .identifier = some i → i ∉ scalarStarts ∧ prefixRule? i = none)
    (h : readGeneric inner m = some t) : Written .base t := by
  rw [readGeneric, Option.bind_eq_bind, Option.bind_eq_some_iff] at h
  obtain ⟨name, htext, h⟩ := h
  obtain ⟨hscalar, hword⟩ := hname name htext
  obtain ⟨i, hi, rfl⟩ := Option.map_eq_some_iff.mp htext
  obtain ⟨hiread, hirule, -⟩ := hm.of_child? hi
  have hgeneric : IsGenericName i.text := ⟨hiread.isIdent (by rw [hirule]; decide), hscalar, hword⟩
  split at h
  · next list hlist =>
    obtain ⟨hlread, hlrule, -⟩ := hm.of_child? hlist
    have hprotocols : ∀ p ∈ (list.childrenOf .protocolName).map Node.text, IsIdent p.toList := by
      intro p hp
      obtain ⟨x, hx, rfl⟩ := List.mem_map.mp hp
      obtain ⟨hx, hrule⟩ := Node.mem_childrenOf.mp hx
      exact (hlread.part hx).1.isIdent (by rw [hrule]; decide)
    obtain ⟨x, hx, hrule⟩ :=
      hlread.exists_child (by rw [hlrule]; rfl) [.protocolName] (by rw [hlrule]; rfl)
    obtain rfl := Option.some.inj h
    split
    · exact .object hprotocols
    · refine .arguments hgeneric ?_ fun t ht => ?_
      · have hmem := Node.mem_childrenOf.mpr ⟨hx, List.mem_singleton.mp hrule⟩
        exact List.ne_nil_of_mem (List.mem_map_of_mem (List.mem_map_of_mem hmem))
      · obtain ⟨p, hp, rfl⟩ := List.mem_map.mp ht
        exact written_argument_name (hprotocols p hp)
  · simp only [Option.bind_eq_bind, Option.bind_eq_some_iff] at h
    obtain ⟨list, hlist, ts, hts, h⟩ := h
    obtain ⟨hlread, hlrule, -⟩ := hm.of_child? hlist
    obtain ⟨x, hx, hrule⟩ :=
      hlread.exists_child (by rw [hlrule]; rfl) [.typeArgument] (by rw [hlrule]; rfl)
    obtain ⟨hall, hlength⟩ := forall_of_mapM (P := Written .argument) (fun a ha t ht => by
      obtain ⟨ha, hrule⟩ := Node.mem_childrenOf.mp ha
      exact hinner.argument (hlread.part ha).1 hrule ht) hts
    obtain rfl := Option.some.inj h
    refine .arguments hgeneric ?_ hall
    rintro rfl
    have hmem := Node.mem_childrenOf.mpr ⟨hx, List.mem_singleton.mp hrule⟩
    exact List.ne_nil_of_mem hmem (List.length_eq_zero_iff.mp hlength.symm)

theorem written_ofName {n : String} (h : IsIdent n.toList) : Written .base (ofName n) := by
  rw [ofName]
  split
  · exact .object (by simp)
  · exact .name h

include hm in
theorem written_ofPrimitive (hr : m.rule = .primitiveType) :
    Written .base (ofPrimitive m.text) := by
  have hscalar := hm.isScalar hr
  rw [ofPrimitive]
  split
  · exact .void
  · next hvoid => exact .scalar hscalar hvoid

include hinner hm in
theorem written_readSpecifier (hr : m.rule = .typeSpecifier)
    (hword : prefixRule? (.ofList (identRun m.text.toList)) = none)
    (h : readSpecifier inner m = some t) : Written .base t := by
  rw [readSpecifier, Option.bind_eq_bind, Option.bind_eq_some_iff] at h
  obtain ⟨part, hpart, h⟩ := h
  have hmem := List.mem_of_head? hpart
  have hread := (hm.part hmem).1
  split at h
  · next hrule =>
    obtain rfl := Option.some.inj h
    exact written_ofPrimitive hread hrule
  · next hrule =>
    obtain ⟨name, hname, rfl⟩ := Option.map_eq_some_iff.mp h
    obtain ⟨i, hi, rfl⟩ := Option.map_eq_some_iff.mp hname
    obtain ⟨hi, hirule, -⟩ := hread.of_child? hi
    exact .name (hi.isIdent (by rw [hirule]; decide))
  · next hrule =>
    refine written_readGeneric hinner hread (fun i hi => ?_) h
    obtain ⟨rfl, hscalar⟩ := hm.generic_name hr hmem hrule hi
    exact ⟨hscalar, hword⟩
  · next hrule =>
    obtain rfl := Option.some.inj h
    exact written_ofName (hread.isIdent (by rw [hrule]; decide))
  · cases h

include hinner hm in
theorem written_readBase (hr : m.rule = .specifierQualifierList) (h : readBase inner m = some t) :
    Written .qualified t := by
  simp only [readBase, Option.bind_eq_bind, Option.bind_eq_some_iff] at h
  obtain ⟨s, hs, b, hb, h⟩ := h
  obtain rfl := Option.some.inj h
  obtain ⟨hread, hrule, -⟩ := hm.of_child? hs
  refine .qualify (written_readSpecifier hinner hread hrule (hm.specifier_word hr hs) hb) ?_
  refine forall_mem_textsOf fun x _ hx => ?_
  simp only [isBaseQualifier, Bool.and_eq_true, List.contains_iff_mem] at hx
  exact hx.2

include hm in
theorem written_addPointer (ht : Written .pointer t) : Written .pointer (addPointer t m) := by
  have hlevels : ∀ level ∈ m.childrenOf .pointerLevel, level.Read ∧ level.rule = .pointerLevel := by
    intro level hlevel
    obtain ⟨hmem, hrule⟩ := Node.mem_childrenOf.mp hlevel
    exact ⟨(hm.part hmem).1, hrule⟩
  rw [addPointer]
  generalize m.childrenOf .pointerLevel = levels at hlevels
  induction levels generalizing t with
  | nil => exact ht
  | cons level levels ih =>
    obtain ⟨hread, hrule⟩ := hlevels level List.mem_cons_self
    rw [List.foldl_cons]
    refine ih ?_ fun x hx => hlevels x (List.mem_cons_of_mem _ hx)
    refine .star ht (forall_mem_textsOf fun x hx hs => ?_) (forall_mem_textsOf fun x hx hs => ?_)
    · exact mem_starWords_of_read hread hrule hx (by simpa using hs)
    · exact mem_frontWords_of_read (hread.part hx).1 hs

theorem written_foldl_addArray {suffixes : List Node} (hread : ∀ s ∈ suffixes, s.Read)
    (ht : Written .array t) : Written .array (suffixes.foldl addArray t) := by
  induction suffixes generalizing t with
  | nil => exact ht
  | cons s suffixes ih =>
    refine ih (fun x hx => hread x (List.mem_cons_of_mem s hx)) ?_
    refine .array ht (Text.trim_eq_empty_or_tidy _) fun c hc => ?_
    have hc := Text.mem_of_mem_trim hc
    cases hl : s.child? .arrayLength with
    | none => simp [Node.childText?, hl] at hc
    | some l =>
      rw [Node.childText?, hl] at hc
      obtain ⟨hmem, hrule⟩ := Node.child?_eq_some hl
      exact ((hread s List.mem_cons_self).part hmem).1.length_inside hrule c hc

include hinner hm ha in
theorem written_addBlock (ht : Written .pointer t) (h : addBlock inner t m = some u) :
    Written .declared (a.wrap u) := by
  simp only [addBlock, Option.bind_eq_bind, Option.bind_eq_some_iff] at h
  obtain ⟨list, hlist, ps, hps, h⟩ := h
  obtain rfl := Option.some.inj h
  obtain ⟨hlmem, -⟩ := Node.child?_eq_some hlist
  have hparameters := (forall_of_mapM (P := Written .declared) (fun p hp t ht => by
    obtain ⟨hp, hrule⟩ := Node.mem_childrenOf.mp hp
    exact hinner.parameter ((hm.part hlmem).1.part hp).1 hrule ht) hps).1
  refine .block ht ?_ ?_ ?_ ha
  · split
    · simp
    · exact hparameters
  · split
    · simp
    · next hvoid => exact hvoid
  · cases hq : m.child? .nullabilitySpecifier with
    | none => exact .inl (by rw [Node.childText?, hq]; rfl)
    | some q =>
      obtain ⟨hmem, hrule⟩ := Node.child?_eq_some hq
      exact .inr ⟨q.text, mem_nullability_of_read (hm.part hmem).1 hrule,
        by rw [Node.childText?, hq]; rfl⟩

include hinner hm ha in
theorem written_addAbstract (hr : m.rule = .abstractDeclarator) (ht : Written .pointer t)
    (h : addAbstract inner t m = some u) : Written .declared (a.wrap u) := by
  obtain ⟨ps, es, hchildren, hps, hes⟩ := hm.abstract_parts hr
  have hread : ∀ x ∈ ps ++ es, x.Read := fun x hx => (hm.part (hchildren ▸ hx)).1
  rw [addAbstract, hchildren] at h
  obtain ⟨v, hv, h⟩ : ∃ v, Written .pointer v ∧ es.foldlM (addAbstractPart inner) v = some u := by
    rcases hps with rfl | ⟨p, hp, rfl⟩
    · exact ⟨t, ht, h⟩
    · have hpart : addAbstractPart inner t p = some (addPointer t p) := by rw [addAbstractPart, hp]
      rw [List.singleton_append, List.foldlM_cons, hpart] at h
      exact ⟨_, written_addPointer (hread p (by simp)) ht, h⟩
  rcases hes with hes | ⟨b, hb, rfl⟩
  · have harrays : es.foldlM (addAbstractPart inner) v = some (es.foldl addArray v) :=
      addAbstract_suffixes inner v hes
    obtain rfl := Option.some.inj (harrays.symm.trans h)
    exact .declared (written_foldl_addArray (fun s hs => hread s (List.mem_append_right ps hs))
      (.ofPointer hv)) ha
  · have hpart : addAbstractPart inner v b = addBlock inner v b := by rw [addAbstractPart, hb]
    rw [List.foldlM_cons, hpart] at h
    refine written_addBlock hinner (hread b (by simp)) ha hv ?_
    rw [← h]
    exact (Option.bind_fun_some _).symm

theorem addDeclarator_eq_some (h : addDeclarator inner t m = some u) :
    ∃ v direct, (m.child? .pointer = none ∧ v = t ∨
        ∃ p, m.child? .pointer = some p ∧ v = addPointer t p) ∧
      m.child? .directDeclarator = some direct ∧
      (addBlock inner v direct = some u ∨ direct.child? .blockParameters = none ∧
        u = (direct.childrenOf .declaratorSuffix).foldl addArray v) := by
  simp only [addDeclarator, Option.bind_eq_bind, Option.bind_eq_some_iff] at h
  obtain ⟨direct, hdirect, h⟩ := h
  rcases hp : m.child? .pointer with _ | p <;> simp only [hp] at h <;> split at h
  · exact ⟨t, direct, .inl ⟨rfl, rfl⟩, hdirect, .inl h⟩
  · next hnone =>
    exact ⟨t, direct, .inl ⟨rfl, rfl⟩, hdirect, .inr ⟨hnone, (Option.some.inj h).symm⟩⟩
  · exact ⟨_, direct, .inr ⟨p, rfl, rfl⟩, hdirect, .inl h⟩
  · next hnone =>
    exact ⟨_, direct, .inr ⟨p, rfl, rfl⟩, hdirect, .inr ⟨hnone, (Option.some.inj h).symm⟩⟩

include hinner hm ha in
theorem written_addDeclarator (ht : Written .pointer t) (h : addDeclarator inner t m = some u) :
    Written .declared (a.wrap u) := by
  obtain ⟨v, direct, hv, hdirect, h⟩ := addDeclarator_eq_some h
  have hread := (hm.part (Node.child?_eq_some hdirect).1).1
  have hpointer : Written .pointer v := by
    rcases hv with ⟨-, rfl⟩ | ⟨p, hp, rfl⟩
    · exact ht
    · exact written_addPointer (hm.part (Node.child?_eq_some hp).1).1 ht
  rcases h with h | ⟨-, rfl⟩
  · exact written_addBlock hinner hread ha hpointer h
  · exact .declared
      (written_foldl_addArray (fun s hs => (hread.part (Node.mem_childrenOf.mp hs).1).1)
      (.ofPointer hpointer)) ha

theorem readTypeName_eq_some (h : readTypeName inner m = some t) :
    ∃ list b u, m.child? .specifierQualifierList = some list ∧ readBase inner list = some b ∧
      (m.child? .abstractDeclarator = none ∧ u = b ∨
        ∃ d, m.child? .abstractDeclarator = some d ∧ addAbstract inner b d = some u) ∧
      t = (outerWords list).wrap u := by
  simp only [readTypeName, Option.bind_eq_bind, Option.bind_eq_some_iff] at h
  obtain ⟨list, hlist, b, hb, h⟩ := h
  split at h
  · next d hd =>
    obtain ⟨u, hu, h⟩ := Option.bind_eq_some_iff.mp h
    exact ⟨list, b, u, hlist, hb, .inr ⟨d, hd, hu⟩, (Option.some.inj h).symm⟩
  · next hd => exact ⟨list, b, b, hlist, hb, .inl ⟨hd, rfl⟩, (Option.some.inj h).symm⟩

include hinner hm in
theorem written_readTypeName (h : readTypeName inner m = some t) :
    Written .declared t := by
  obtain ⟨list, b, u, hlist, hb, hu, rfl⟩ := readTypeName_eq_some h
  obtain ⟨hread, hrule, -⟩ := hm.of_child? hlist
  have hbase := Written.ofQualified (written_readBase hinner hread hrule hb)
  rcases hu with ⟨-, rfl⟩ | ⟨d, hd, hu⟩
  · exact .declared (.ofPointer hbase) (outerWords_isOuter hread)
  · obtain ⟨hd, hdrule, -⟩ := hm.of_child? hd
    exact written_addAbstract hinner hd (outerWords_isOuter hread) hdrule hbase hu

include hinner hm in
theorem written_readParameter (h : readParameter inner m = some t) : Written .declared t := by
  simp only [readParameter, Option.bind_eq_bind, Option.bind_eq_some_iff] at h
  obtain ⟨list, hlist, b, hb, h⟩ := h
  obtain ⟨hread, hrule, -⟩ := hm.of_child? hlist
  have hbase := Written.ofQualified (written_readBase hinner hread hrule hb)
  have houter := outerWords_isOuter hread
  split at h
  · next d hd =>
    obtain ⟨u, hu, h⟩ := Option.bind_eq_some_iff.mp h
    obtain rfl := Option.some.inj h
    exact written_addDeclarator hinner (hm.part (Node.child?_eq_some hd).1).1 houter hbase hu
  · next d _ hd =>
    obtain ⟨u, hu, h⟩ := Option.bind_eq_some_iff.mp h
    obtain rfl := Option.some.inj h
    obtain ⟨hd, hdrule, -⟩ := hm.of_child? hd
    exact written_addAbstract hinner hd houter hdrule hbase hu
  · obtain rfl := Option.some.inj h
    exact .declared (.ofPointer hbase) houter

include hinner hm in
/-- The text of an argument is a type name with no more than stars behind its base. -/
theorem written_argument (hr : m.rule = .typeArgument)
    (h : (parseTypeName? m.text).bind (readTypeName inner) = some t) : Written .argument t := by
  obtain ⟨base, declarator, n, -, hpointer, hparse, hskeleton⟩ := parseTypeName?_argument hm hr
  obtain ⟨hn, -⟩ := read_of_parseTypeName? hparse
  rw [hparse, Option.bind_some] at h
  obtain ⟨list, b, u, hlist, hb, hu, rfl⟩ := readTypeName_eq_some h
  obtain ⟨hread, hrule, -⟩ := hn.of_child? hlist
  have hbase := Written.ofQualified (written_readBase hinner hread hrule hb)
  refine .argument ?_ (outerWords_isOuter hread)
  rcases hu with ⟨-, rfl⟩ | ⟨d, hd, hu⟩
  · exact hbase
  · have hchild := n.child?_skeleton .abstractDeclarator
    rw [hskeleton, hd] at hchild
    rcases hpointer with rfl | ⟨ms, rfl⟩
    · cases hchild
    · have hchildren := d.children_skeleton
      rw [← Option.some.inj hchild] at hchildren
      obtain ⟨p, hp, hps⟩ := List.map_eq_singleton_iff.mp hchildren.symm
      have hprule : p.rule = .pointer := by
        rw [← Node.rule_skeleton, hps]
        rfl
      have hpart : addAbstractPart inner b p = some (addPointer b p) := by
        rw [addAbstractPart, hprule]
      rw [addAbstract, hp, List.foldlM_cons, hpart] at hu
      obtain rfl := Option.some.inj hu
      obtain ⟨hd, -⟩ := hn.of_child? hd
      exact written_addPointer (hd.part (hp ▸ List.mem_singleton_self p)).1 hbase

end Readers

theorem Inner.ofLevels_writes (n : Nat) : (Inner.ofLevels n).Writes := by
  induction n with
  | zero => exact ⟨fun _ _ h => (by cases h), fun _ _ h => (by cases h)⟩
  | succ n ih =>
    exact ⟨fun ha hr h => written_argument ih ha hr h, fun hp _ h => written_readParameter ih hp h⟩

/-- Every type that is read is written. -/
theorem written_of_readWithin {d : Nat} {s : String} {t : DeclaredType}
    (h : readWithin d s = some t) : Written .declared t := by
  obtain ⟨m, hparse, h⟩ := Option.bind_eq_some_iff.mp h
  obtain ⟨hm, -⟩ := read_of_parseTypeName? hparse
  exact written_readTypeName (Inner.ofLevels_writes d) hm h

end DeclaredType

end HeaderBridge
