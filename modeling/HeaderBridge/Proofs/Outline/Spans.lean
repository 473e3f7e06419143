import HeaderBridge.Proofs.Grammar.Offsets
import HeaderBridge.Proofs.Outline.Arrangement
import HeaderBridge.Proofs.Outline.DirectTypes

/-! # Spans of parse nodes

What a parse node adds to an outline lies within the node, and the words in it
are the ones that stand at their spans.
-/

namespace HeaderBridge

open Grammar

/-! ### Text at a span -/

theorem Grammar.takeBytes_prefix (n : Nat) (cs : List Char) : takeBytes n cs <+: cs := by
  induction cs generalizing n with
  | nil => exact List.prefix_refl _
  | cons c cs ih =>
    rw [takeBytes]
    split
    · exact List.nil_prefix
    · exact (List.prefix_cons_inj c).mpr (ih _)

namespace Span

def textIn? (text : String) (s : Span) : Option String :=
  let front := takeBytes s.start text.toList
  let shown := takeBytes (s.stop - s.start) (text.toList.drop front.length)
  if s.start ≤ s.stop ∧ bytes front = s.start ∧ bytes shown = s.stop - s.start then
    some (.ofList shown)
  else none

theorem textIn?_eq_some_iff {text t : String} {s : Span} : s.textIn? text = some t ↔
    ∃ a b, text = a ++ t ++ b ∧ s.start = a.utf8ByteSize ∧
      s.stop = a.utf8ByteSize + t.utf8ByteSize := by
  simp only [textIn?, Option.ite_none_right_eq_some, Option.some.injEq]
  constructor
  · rintro ⟨⟨hle, hfront, hshown⟩, rfl⟩
    obtain ⟨ds, hds⟩ := takeBytes_prefix s.start text.toList
    generalize takeBytes s.start text.toList = front at hfront hshown hds ⊢
    rw [← hds, List.drop_left] at hshown ⊢
    obtain ⟨es, hes⟩ := takeBytes_prefix (s.stop - s.start) ds
    refine ⟨.ofList front, .ofList es, ?_, ?_, ?_⟩
    · rw [← String.ofList_append, ← String.ofList_append, List.append_assoc, hes, hds,
        String.ofList_toList]
    · rw [utf8ByteSize_ofList, hfront]
    · rw [utf8ByteSize_ofList, utf8ByteSize_ofList, hfront, hshown]
      omega
  · rintro ⟨a, b, rfl, hstart, hstop⟩
    have hsize : s.stop - s.start = bytes t.toList := by
      rw [hstop, hstart, Nat.add_sub_cancel_left, utf8ByteSize_eq_bytes]
    have htext : (a ++ t ++ b).toList = a.toList ++ (t.toList ++ b.toList) := by
      simp
    have hfront : takeBytes s.start (a ++ t ++ b).toList = a.toList := by
      rw [hstart, utf8ByteSize_eq_bytes, htext, takeBytes_append]
    have hshown : takeBytes (s.stop - s.start) ((a ++ t ++ b).toList.drop a.toList.length) =
        t.toList := by
      rw [hsize, htext, List.drop_left, takeBytes_append]
    rw [hfront, hshown]
    refine ⟨⟨by omega, ?_, hsize.symm⟩, String.ofList_toList⟩
    rw [hstart, utf8ByteSize_eq_bytes]

def Within (a b : Span) : Prop := b.start ≤ a.start ∧ a.stop ≤ b.stop

theorem Within.refl (a : Span) : a.Within a := ⟨Nat.le_refl _, Nat.le_refl _⟩

theorem Within.trans {a b c : Span} (h : a.Within b) (h' : b.Within c) : a.Within c :=
  ⟨Nat.le_trans h'.1 h.1, Nat.le_trans h.2 h'.2⟩

end Span

namespace Outline

open Declaration

/-! ### Parse nodes at their spans -/

theorem textIn?_spanOf {text : String} {n : Node} (h : n.LiesIn text.toList) :
    (spanOf n).textIn? text = some n.text := by
  obtain ⟨a, b, htext, hstart⟩ := h.split
  refine Span.textIn?_eq_some_iff.mpr ⟨.ofList a, .ofList b, ?_, ?_, ?_⟩
  · rw [← String.toList_inj, htext]
    simp
  · rw [utf8ByteSize_ofList]
    exact hstart
  · rw [utf8ByteSize_ofList, ← hstart]
    rfl

theorem liesIn_within {cs : List Char} {n x : Node} (hx : x.Within n) (h : n.LiesIn cs) :
    x.LiesIn cs ∧ (spanOf x).Within (spanOf n) := by
  induction hx with
  | self => exact ⟨h, .refl _⟩
  | inside hc _ ih =>
    obtain ⟨hchild, hstart, hstop⟩ := h.child hc
    obtain ⟨hlies, hwithin⟩ := ih hchild
    exact ⟨hlies, hwithin.trans ⟨hstart, hstop⟩⟩

theorem infix_part {cs : List Char} {n x : Node} (h : n.LiesIn cs) (hx : x ∈ n.children) :
    x.text.toList <:+: n.text.toList := by
  obtain ⟨a, b, htext, -⟩ := h.laid.strewn.of_mem hx
  exact ⟨a, b, by rw [htext, List.append_assoc]⟩

theorem infix_declaratorName {cs : List Char} {n : Node} (h : n.LiesIn cs) {name : String}
    (hname : DeclaredType.declaratorName? n = some name) : name.toList <:+: n.text.toList := by
  obtain ⟨direct, hdirect, hname⟩ := Option.bind_eq_some_iff.mp hname
  obtain ⟨x, hx, rfl⟩ := Option.map_eq_some_iff.mp hname
  have hmem := (Node.child?_eq_some hdirect).1
  exact (infix_part (h.child hmem).1 (Node.child?_eq_some hx).1).trans (infix_part h hmem)

/-! ### Trees that are faithful to a text -/

/-- A node under a node with the given tag repeats its source. Words and the names in selectors do
so exactly, and the names of properties and instance variables stand somewhere in it. -/
def Kind.Quotes (host : Option Tag) (source : Option String) : Kind → Prop
  | .protocolName s | .superclassName s | .categoryName s | .nullability s => source = some s
  | .keyword k => source = some k.spelling
  | .identifier s =>
    (host = some .selector ∨ host = some .keywordDeclarator → source = some s) ∧
    (host = some .property ∨ host = some .ivar → ∃ t, source = some t ∧ s.toList <:+: t.toList)
  | _ => True

theorem Kind.quotes_identifier {host : Option Tag} {s : String} :
    (Kind.identifier s).Quotes host (some s) :=
  ⟨fun _ => rfl, fun _ => ⟨s, rfl, List.infix_refl _⟩⟩

theorem Kind.quotes_declared {host : Tag} {s t : String} (hhost : host = .property ∨ host = .ivar)
    (h : s.toList <:+: t.toList) : (Kind.identifier s).Quotes (some host) (some t) := by
  refine ⟨fun hexact => ?_, fun _ => ⟨t, rfl, h⟩⟩
  rcases hhost with rfl | rfl <;> simp at hexact

theorem Kind.quotes_keyword {host : Option Tag} {s : String} {k : Keyword}
    (h : Keyword.ofSpelling? s = some k) : (Kind.keyword k).Quotes host (some s) := by
  have hspelling := List.find?_some h
  simpa [Kind.Quotes] using (of_decide_eq_true hspelling).symm

/-- The tags of the nodes that repeat something. -/
def quotingTags : List Tag :=
  [.protocolName, .superclassName, .categoryName, .nullability, .keyword, .identifier]

theorem Kind.quotes_of_tag {host : Option Tag} {source : Option String} {k : Kind}
    (h : k.tag ∉ quotingTags) : k.Quotes host source := by
  cases k <;> simp_all [Kind.tag, Kind.Quotes, quotingTags]

def Sketch.span : Sketch → Option Span
  | .mk _ span _ => span

@[simp] theorem Sketch.span_mk (k : Kind) (span : Option Span) (ps : List Sketch) :
    (Sketch.mk k span ps).span = span := rfl

/-- The spans of a tree are ranges of the text, each within the one above, and what stands at them
is what the tree repeats. -/
inductive Sketch.Faithful (text : String) : Sketch → Prop where
  | mk {kind : Kind} {span : Option Span} {parts : List Sketch} :
      (∀ a ∈ span, (a.textIn? text).isSome) →
      (∀ q ∈ parts, ∀ a ∈ span, ∀ b ∈ q.span, b.Within a) →
      (∀ q ∈ parts, q.kind.Quotes (some kind.tag) (q.span.bind (·.textIn? text))) →
      (∀ q ∈ parts, q.Faithful text) → Faithful text (.mk kind span parts)

/-- A tree is faithful to the text as a part of a node with the given tag and span. -/
structure Sketch.SitsIn (text : String) (host : Tag) (outer : Span) (s : Sketch) : Prop where
  within : ∀ a ∈ s.span, a.Within outer
  quotes : s.kind.Quotes (some host) (s.span.bind (·.textIn? text))
  faithful : s.Faithful text

namespace Sketch

variable {text : String} {host : Tag} {outer : Span}

theorem SitsIn.mono {s : Sketch} {outer' : Span} (h : s.SitsIn text host outer)
    (hin : outer.Within outer') : s.SitsIn text host outer' :=
  ⟨fun a ha => (h.within a ha).trans hin, h.quotes, h.faithful⟩

/-- A tree for a parse node that lies in the text. -/
theorem SitsIn.of_node {n x : Node} {k : Kind} {parts : List Sketch} (hn : n.LiesIn text.toList)
    (hx : x.Within n) (hk : k.Quotes (some host) (some x.text))
    (hparts : ∀ q ∈ parts, q.SitsIn text k.tag (spanOf x)) :
    (Sketch.mk k (some (spanOf x)) parts).SitsIn text host (spanOf n) := by
  obtain ⟨hlies, hwithin⟩ := liesIn_within hx hn
  have htext := textIn?_spanOf hlies
  refine ⟨?_, ?_, .mk ?_ ?_ ?_ fun q hq => (hparts q hq).faithful⟩
  · rintro a ⟨⟩
    exact hwithin
  · rwa [span_mk, Option.bind_some, htext]
  · rintro a ⟨⟩
    rw [htext]
    rfl
  · rintro q hq a ⟨⟩
    exact (hparts q hq).within
  · exact fun q hq => (hparts q hq).quotes

theorem SitsIn.leaf {n x : Node} {k : Kind} (hn : n.LiesIn text.toList) (hx : x.Within n)
    (hk : k.Quotes (some host) (some x.text)) : (Sketch.leaf k x).SitsIn text host (spanOf n) :=
  .of_node hn hx hk (by simp)

end Sketch

section Sketches

variable {types : TypeReader} {text : String} {c : Scope} {n : Node}

theorem sitsIn_ivarSketch? {host : Tag} {specifiers field : Node} {s : Sketch}
    (hn : n.LiesIn text.toList) (hfield : field.Within n)
    (h : ivarSketch? types specifiers field = some s) : s.SitsIn text host (spanOf n) := by
  unfold ivarSketch? at h
  simp only [Option.bind_eq_bind, Option.bind_eq_some_iff, Option.pure_def, Option.some.injEq] at h
  obtain ⟨declarator, hdeclarator, name, hname, type, -, rfl⟩ := h
  have hlies := (liesIn_within hfield hn).1
  have hwithin := (within_child? (.self (m := field)) hdeclarator).1
  refine .of_node hn hfield trivial fun q hq => ?_
  rcases List.mem_pair.mp hq with rfl | rfl
  · exact ⟨by simp, trivial, .mk (by simp) (by simp) (by simp) (by simp)⟩
  · have hinfix := infix_declaratorName (liesIn_within hwithin hlies).1 hname
    exact .leaf hlies hwithin (Kind.quotes_declared (.inr rfl) hinfix)

theorem within_propertyParts? {field specifiers declarator : Node}
    (h : propertyParts? n = some (field, specifiers, declarator)) :
    field.Within n ∧ declarator.Within n := by
  simp only [propertyParts?, Option.bind_eq_bind, Option.bind_eq_some_iff, Option.pure_def,
    Option.some.injEq, Prod.mk.injEq] at h
  obtain ⟨field, hfield, _, -, list, hlist, first, hfirst, declarator, hd, rfl, -, rfl⟩ := h
  have hfield := (within_child? .self hfield).1
  have hfirst := (within_child? (within_child? hfield hlist).1 hfirst).1
  exact ⟨hfield, (within_child? hfirst hd).1⟩

namespace LeafOf

variable {k : Kind} {m : Node}

theorem within (h : LeafOf types n k m) : m.Within n := by
  cases h with
  | superclass hx | category hx | piece _ hx => exact (within_child? .self hx).1
  | propertyName _ hparts => exact (within_propertyParts? hparts).2
  | propertyType hparts => exact (within_propertyParts? hparts).1
  | _ => exact .self

theorem quotes (h : LeafOf types n k m) (hn : n.LiesIn text.toList) {t : Tag}
    (ht : n.rule = .propertyDeclaration → t = .property) : k.Quotes (some t) (some m.text) := by
  cases h with
  | superclass | category | protocolName | nullability => rfl
  | piece => exact Kind.quotes_identifier
  | keyword _ hk => exact Kind.quotes_keyword hk
  | propertyName hr hparts hname =>
    have hlies := (liesIn_within (within_propertyParts? hparts).2 hn).1
    exact Kind.quotes_declared (.inl (ht hr)) (infix_declaratorName hlies hname)
  | _ => trivial

end LeafOf

theorem opens?_propertyDeclaration (c : Scope) :
    c.opens? .propertyDeclaration = some .property := by
  rw [Scope.opens?, if_neg (by simp)]
  rfl

theorem sitsIn_sketches (types : TypeReader) (n : Node) (c : Scope) (hn : n.LiesIn text.toList) :
    ∀ s ∈ sketches types c n, s.SitsIn text c.tag (spanOf n) := by
  refine forall_sketches (Q := fun _ n => n.LiesIn text.toList)
    (P := fun t n s => s.SitsIn text t (spanOf n)) (fun hn hx => ?_) (fun {c n s} hn hs => ?_)
    (fun hn hopens htag hparts => ?_) n c hn
  · obtain ⟨hx, hwithin⟩ := hn.child hx
    exact ⟨hx, fun hs => hs.mono hwithin⟩
  · rcases mem_leaves hs with ⟨k, m, hleaf, rfl⟩ | ⟨list, field, specifiers, hlist, hfield, hs⟩
    · refine .leaf hn hleaf.within (hleaf.quotes hn fun hr => ?_)
      rw [Scope.opened, hr, opens?_propertyDeclaration]
      rfl
    · exact sitsIn_ivarSketch? hn (within_part (within_child? .self hlist).1 hfield) hs
  · have hall : ∀ r ∈ Rule.all, ∀ tag ∈ Tag.all, headerTargets.lookup r = some (.fresh tag) →
        tag ∉ quotingTags := by decide +kernel
    refine .of_node hn .self (Kind.quotes_of_tag ?_) fun q hq => htag ▸ hparts q hq
    rw [htag]
    exact Rule.forall_of_all hall _ _ (Tag.mem_all _) (lookup_of_opens? hopens).1

end Sketches

end Outline

end HeaderBridge
