import HeaderBridge.Proofs.DeclaredType.KeptWords
import HeaderBridge.Proofs.Lowering.Proper
import Mathlib.Data.List.Infix

/-! # Proper types in parse nodes

A type that is read from a text has no other words than the text, and its names are
identifiers and C scalars. If no word of the text leaves a nullability open, the type
is proper where nothing may be unwrapped implicitly.
-/

namespace HeaderBridge

open Grammar Grammar.Expr Text
open Nullability (settles)

variable {unwraps : Bool}

/-! ### Texts that leave nothing open -/

/-- No word that leaves a nullability open stands anywhere in a text, unless that is allowed. -/
def Settled (unwraps : Bool) (cs : List Char) : Prop :=
  unwraps = true ∨ ∀ w ∈ Nullability.openSpellings, ¬ w.toList <:+: cs

namespace Settled

variable {a b cs : List Char}

theorem mono (h : Settled unwraps cs) (hi : a <:+: cs) : Settled unwraps a :=
  h.imp_right fun h w hw hwa => h w hw (hwa.trans hi)

theorem nil : Settled unwraps [] := by
  refine .inr fun w hw h => ?_
  have hne : ∀ w ∈ Nullability.openSpellings, w.toList ≠ [] := by decide
  exact hne w hw (List.infix_nil.mp h)

theorem word {s : String} (h : Settled unwraps s.toList) : settles unwraps s = true := by
  rcases h with rfl | h
  · rfl
  · have hs : s ∉ Nullability.openSpellings := fun hs => h s hs (List.infix_refl _)
    simp [settles, hs]

theorem append_cons {c : Char} (hc : isIdentChar c = false) (ha : Settled unwraps a)
    (hb : Settled unwraps b) : Settled unwraps (a ++ c :: b) := by
  rcases ha with ha | ha
  · exact .inl ha
  rcases hb with hb | hb
  · exact .inl hb
  refine .inr fun w hw h => ?_
  have hchars : ∀ w ∈ Nullability.openSpellings, ∀ c ∈ w.toList, isIdentChar c = true := by decide
  have hmem : c ∉ w.toList := by
    intro hmem
    rw [hchars w hw c hmem] at hc
    cases hc
  exact (infix_append_cons hmem h).elim (ha w hw) (hb w hw)

end Settled

namespace Grammar

/-- A node that was read, and in whose text nothing leaves a nullability open. -/
structure Node.Settled (unwraps : Bool) (n : Node) : Prop where
  read : n.Read
  text : HeaderBridge.Settled unwraps n.text.toList

namespace Node.Settled

variable {n x : Node} (h : n.Settled unwraps)
include h

theorem part (hx : x ∈ n.children) : x.Settled unwraps :=
  ⟨(h.read.part hx).1, h.text.mono (h.read.infix_child hx)⟩

theorem child? {r : Rule} (hx : n.child? r = some x) : x.Settled unwraps :=
  h.part (Node.child?_eq_some hx).1

theorem childrenOf {r : Rule} (hx : x ∈ n.childrenOf r) : x.Settled unwraps ∧ x.rule = r :=
  ⟨h.part (Node.mem_childrenOf.mp hx).1, (Node.mem_childrenOf.mp hx).2⟩

theorem settled_childText (r : Rule) :
    HeaderBridge.Settled unwraps ((n.childText? r).getD "").toList := by
  rw [childText?]
  cases hx : n.child? r with
  | none => exact .nil
  | some x => exact (h.child? hx).text

theorem settles_childText? {r : Rule} {s : String} (hs : n.childText? r = some s) :
    settles unwraps s = true := by
  have htext := h.settled_childText r
  rw [hs] at htext
  exact htext.word

omit h in
theorem within (hx : x.Within n) : n.Settled unwraps → x.Settled unwraps := by
  induction hx with
  | self => exact id
  | inside hc _ ih => exact fun h => ih (h.part hc)

end Node.Settled

end Grammar

namespace DeclaredType

/-! ### Names -/

theorem isPlain_of_isIdent {s : String} (h : IsIdent s.toList) : isPlain s = true :=
  isPlain_of_isIdentChar h.chars

theorem isPlain_of_isScalar {s : String} (h : IsScalar s) : isPlain s = true := by
  obtain ⟨w, ws, hw, hws, rfl⟩ := h
  have hall : ∀ w ∈ scalarStarts ++ Rule.primitiveWord.spellings, isPlain w = true := by
    decide
  have hwords : ∀ v ∈ w :: ws, isPlain v = true := by
    rw [List.forall_mem_cons]
    exact ⟨hall w (List.mem_append_left _ hw),
      fun v hv => hall v (List.mem_append_right _ (hws v hv))⟩
  simp only [isPlain_iff] at hwords
  rw [isPlain_iff, String.toList_intercalate]
  refine forall_mem_intercalate (by decide) fun cs hcs => ?_
  obtain ⟨v, hv, rfl⟩ := List.mem_map.mp hcs
  exact hwords v hv

/-! ### Types that are read -/

theorem isProper_wrap (a : Adornment) (t : DeclaredType) :
    (a.wrap t).isProper unwraps = (t.isProper unwraps && a.qualifiers.all (settles unwraps)) := by
  obtain ⟨ss, qs⟩ := a
  cases ss <;> cases qs <;> simp [Adornment.wrap, specify, qualify, isProper]

/-- A written type is proper if its words leave nothing open. -/
theorem Written.isProper {stage : Stage} {t : DeclaredType} (h : Written stage t)
    (hwords : ∀ w ∈ t.qualifierWords, settles unwraps w = true) : t.isProper unwraps = true := by
  have hwrap : ∀ {a : Adornment} {t : DeclaredType},
      (∀ w ∈ (a.wrap t).qualifierWords, settles unwraps w = true) →
      ((∀ w ∈ t.qualifierWords, settles unwraps w = true) → t.isProper unwraps = true) →
      (a.wrap t).isProper unwraps = true := by
    intro a t hwords ht
    rw [qualifierWords_wrap, List.forall_mem_append] at hwords
    rw [isProper_wrap, ht hwords.2, Bool.true_and, List.all_eq_true]
    exact hwords.1
  have hall : ∀ {ts : List DeclaredType}, (∀ w ∈ qualifierWordsAll ts, settles unwraps w = true) →
      (∀ t ∈ ts, (∀ w ∈ t.qualifierWords, settles unwraps w = true) → t.isProper unwraps = true) →
      allProper unwraps ts = true := by
    intro ts hwords hts
    rw [qualifierWordsAll_eq, List.forall_mem_flatMap] at hwords
    exact allProper_iff.mpr fun t ht => hts t ht (hwords t ht)
  induction h with
  | void => rfl
  | name hident => exact isPlain_of_isIdent hident
  | scalar hscalar _ => exact isPlain_of_isScalar hscalar
  | object hps => exact List.all_eq_true.mpr fun p hp => isPlain_of_isIdent (hps p hp)
  | @arguments n ts hname _ _ ih =>
    rw [DeclaredType.isProper, isPlain_of_isIdent hname.ident, hall hwords ih]
    rfl
  | @qualify t qs _ _ ih => exact @hwrap ⟨[], qs⟩ t hwords ih
  | ofQualified _ ih | ofPointer _ ih => exact ih hwords
  | star _ _ _ ih | argument _ _ ih | declared _ _ ih => exact hwrap hwords ih
  | array _ _ _ ih => exact ih hwords
  | @block name r ps qs a _ _ _ _ _ ihr ihps =>
    refine hwrap hwords fun hwords => @hwrap ⟨[], qs⟩ (.block name r ps) hwords fun hwords => ?_
    rw [qualifierWords, List.forall_mem_append] at hwords
    rw [DeclaredType.isProper, ihr hwords.1, hall hwords.2 ihps]
    rfl

theorem settled_of_parseTypeName? {s : String} {m : Node} (hs : Settled unwraps s.toList)
    (h : parseTypeName? s = some m) : m.Settled unwraps := by
  obtain ⟨hread, -⟩ := read_of_parseTypeName? h
  obtain ⟨c, hreading, -⟩ := parseTypeName?_eq_some h
  have htext := Rule.reading_text (.inl rfl) hreading
  rw [Node.text_unplaced] at htext
  have hstart : m.text.toList <+: skipGap s.toList := ⟨c, htext.symm⟩
  exact ⟨hread, hs.mono (hstart.isInfix.trans (skipGap_suffix _).isInfix)⟩

/-- The type of a spelling that leaves nothing open is proper. -/
theorem isProper_readWithin {d : Nat} {s : String} {t : DeclaredType}
    (hs : Settled unwraps s.toList) (h : readWithin d s = some t) : t.isProper unwraps = true := by
  refine (written_of_readWithin h).isProper fun w hw => ?_
  -- the word is the text of a node in the parse tree of the spelling
  obtain ⟨m, hparse, h⟩ := Option.bind_eq_some_iff.mp h
  obtain ⟨hread, hrule⟩ := read_of_parseTypeName? hparse
  have hadds := adds_readTypeName (Inner.ofLevels_keeps d) hread hrule h
  have hmem : w ∈ m.words := by
    rw [Adds, List.flatMap_singleton, List.flatMap_singleton] at hadds
    exact hadds.subset (List.mem_append_left _ (List.mem_append_right _ hw))
  obtain ⟨x, hx, rfl⟩ := List.mem_map.mp hmem
  have hwithin := (Node.within_of_mem_occurrences m hx).1
  exact (Node.Settled.within hwithin (settled_of_parseTypeName? hs hparse)).text.word

end DeclaredType

end HeaderBridge
