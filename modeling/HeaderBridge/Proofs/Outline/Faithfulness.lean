import HeaderBridge.Proofs.Declaration.Settings
import HeaderBridge.Proofs.Outline.SourceOrder

/-! # Outlines and their source

The spans of an outline are ranges of its source. A node lies within the node
above it, the parts of a header and of a type lie one behind the other, and the
words that an outline repeats are the ones that stand at their spans.
-/

namespace HeaderBridge.Outline

open Grammar Declaration

def spanAt? (o : Outline) (id : Nat) : Option Span := (o.get? id).bind Entry.span

def hostTag? (o : Outline) (id : Nat) : Option Tag := ((o.parentOf id).bind o.kindOf?).map Kind.tag

/-- The spans and the words of an outline are those of a text. -/
structure Faithful (text : String) (o : Outline) : Prop where
  /-- Every span is a range of the text. -/
  spans : ∀ i a, o.spanAt? i = some a → (a.textIn? text).isSome
  /-- A node lies within the node above. -/
  nested : ∀ i p a b, o.parentOf i = some p → o.spanAt? p = some a → o.spanAt? i = some b →
  b.Within a
  /-- The parts of the header and of every type have spans, one behind the other. -/
  ordered : ∀ p k, o.kindOf? p = some k → k.tag ∈ .header :: typeTags →
    ∃ spans : List Span, (o.childrenOf p).map o.spanAt? = spans.map some ∧
    spans.Pairwise Span.Before
  /-- The words that are repeated stand at their spans. -/
  quoted : ∀ i k, o.kindOf? i = some k →
    k.Quotes (o.hostTag? i) ((o.spanAt? i).bind (·.textIn? text))

theorem Sketch.StandsAt.spanAt? {o : Outline} {s : Sketch} {i : Nat} (h : s.StandsAt o i) :
    o.spanAt? i = s.span := by
  obtain ⟨kind, span, parts⟩ := s
  obtain ⟨e, he, -, rfl, -⟩ := h
  rw [Outline.spanAt?, he]
  rfl

theorem Sketch.StandAt.map_spanAt? {o : Outline} {ss : List Sketch} {ids : List Nat}
    (h : Sketch.StandAt o ss ids) : ids.map o.spanAt? = ss.map Sketch.span := by
  induction ss generalizing ids with
  | nil =>
    obtain rfl : ids = [] := h
    rfl
  | cons s ss ih =>
    obtain ⟨i, rest, rfl, hs, hrest⟩ := h
    rw [List.map_cons, List.map_cons, hs.spanAt?, ih hrest]

theorem Sketch.InOrder.exists_spans {o : Outline} {ss : List Sketch} {ids : List Nat} {lo hi : Nat}
    (h : Sketch.InOrder lo ss hi) (hstand : Sketch.StandAt o ss ids) :
    ∃ spans : List Span, ids.map o.spanAt? = spans.map some ∧ spans.Pairwise Span.Before := by
  obtain ⟨spans, hspans, horder⟩ := h
  exact ⟨spans, by rw [hstand.map_spanAt?, hspans], horder.pairwise⟩

theorem Sketch.Faithful.parts {text : String} {s : Sketch} (h : s.Faithful text) :
    ∀ q ∈ s.parts, q.Faithful text := by
  cases h with
  | mk _ _ _ hparts => exact hparts

theorem lt_size_of_get? {o : Outline} {i : Nat} {e : Entry} (h : o.get? i = some e) : i < o.size :=
  (Array.getElem?_eq_some_iff.mp h).1

theorem PreOrdered.mem_childrenOf {o : Outline} (h : PreOrdered o) {i : Nat} (hi : i ≠ root)
    (hs : i < o.size) : ∃ p, o.parentOf i = some p ∧ i ∈ o.childrenOf p := by
  obtain ⟨p, -, hp, hcount, -⟩ := h.hangs_once i hi hs
  exact ⟨p, hp, List.count_pos_iff.mp (by omega)⟩

theorem Arranged.parentOf_type {o : Outline} (ha : Arranged o) (hpre : PreOrdered o) {p : Nat}
    {k : Kind} (hk : o.kindOf? p = some k) (htag : k.tag ∈ .header :: typeTags) (hp : p ≠ root) :
    k.tag ∈ typeTags ∧ p ∈ o.childrenOf root := by
  -- every node below the root has its place in the node above
  have habove : ∀ {i k}, o.kindOf? i = some k → i ≠ root →
      ∃ q t, i ∈ o.childrenOf q ∧ o.kindOf? q = some t ∧ k.StandsIn t.tag := by
    intro i k hk hi
    have hs : i < o.size := by
      obtain ⟨e, he, -⟩ := Option.map_eq_some_iff.mp hk
      exact lt_size_of_get? he
    obtain ⟨q, -, hmem⟩ := hpre.mem_childrenOf hi hs
    obtain ⟨t, k', ht, hk', hstands⟩ := ha.stands q i hmem
    obtain rfl : k' = k := Option.some.inj (hk'.symm.trans hk)
    exact ⟨q, t, hmem, ht, hstands⟩
  obtain ⟨q, t, hmem, ht, hstands⟩ := habove hk hp
  have hheader : t.tag = .header := by
    by_contra hne
    exact hstands.tag_notMem hne htag
  have hq : q = root := by
    by_contra hne
    obtain ⟨_, _, -, -, hstands'⟩ := habove ht hne
    cases t <;> simp [Kind.tag] at hheader
    exact hstands'
  subst hq
  refine ⟨(List.mem_cons.mp htag).resolve_left fun heq => ?_, hmem⟩
  cases k <;> simp [Kind.tag] at heq
  exact hstands

theorem get?_root_plantAll (ss : List Sketch) :
    ∃ ids, (Outline.empty.plantAll root ss).get? root =
      some { kind := .header, children := ids } := by
  obtain ⟨-, -, ids, hids, -⟩ := planted_plantAll (show root < Outline.empty.size by decide) ss
  exact ⟨ids, hids⟩

section Planted

variable {text : String} {ss : List Sketch} {outer : Span} {o : Outline} (ha : Arranged o)
  (hpre : PreOrdered o) (hstand : Sketch.StandAt o ss (o.childrenOf root))
  (hroot : o.spanAt? root = none) (hss : ∀ s ∈ ss, s.SitsIn text .header outer)

include ha hstand hss

/-- Every node below the root holds a faithful tree. -/
theorem exists_faithful {i : Nat} (hi : i ≠ root) (hs : i < o.size) :
    ∃ s : Sketch, s.StandsAt o i ∧ s.Faithful text :=
  ha.layout.exists_sketch (fun _ h => h.parts) hstand (fun s hs => (hss s hs).faithful) i
    (Nat.pos_of_ne_zero hi) hs

include hpre hroot

theorem exists_part {i p : Nat} (h : o.parentOf i = some p) :
    ∃ q : Sketch, q.StandsAt o i ∧
      q.kind.Quotes ((o.kindOf? p).map Kind.tag) (q.span.bind (·.textIn? text)) ∧
      ∀ a ∈ o.spanAt? p, ∀ b ∈ q.span, b.Within a := by
  have hi : i ≠ root := by
    rintro rfl
    rw [hpre.parentOf_root] at h
    cases h
  obtain ⟨e, he, -⟩ := Option.bind_eq_some_iff.mp h
  obtain ⟨p', hp', hmem⟩ := hpre.mem_childrenOf hi (lt_size_of_get? he)
  obtain rfl : p = p' := Option.some.inj (h.symm.trans hp')
  by_cases hp : p = root
  · subst hp
    obtain ⟨q, hq, hstands⟩ := hstand.exists_of_mem hmem
    refine ⟨q, hstands, ?_, ?_⟩
    · rw [ha.top]
      exact (hss q hq).quotes
    · rw [hroot]
      simp
  · have hs : p < o.size := by
      by_contra hge
      rw [childrenOf_of_size_le (Nat.le_of_not_lt hge)] at hmem
      cases hmem
    obtain ⟨s, hs, hfaithful⟩ := exists_faithful ha hstand hss hp hs
    obtain ⟨q, hq, hstands⟩ := (Sketch.standAt_iff.mpr hs.childrenOf).exists_of_mem hmem
    rw [hs.kindOf?, hs.spanAt?]
    cases hfaithful with
    | mk _ hwithin hquotes _ => exact ⟨q, hstands, hquotes q hq, hwithin q hq⟩

/-- An outline that holds trees which are faithful and stand in order is faithful. -/
theorem faithful_of_standAt {lo hi : Nat} (horder : Sketch.InOrder lo ss hi)
    (htypes : ∀ s ∈ ss, s.kind.tag ∈ typeTags → ∃ lo hi, Sketch.InOrder lo s.parts hi) :
    Faithful text o where
  spans i a h := by
    have hi : i ≠ root := by
      rintro rfl
      rw [hroot] at h
      cases h
    obtain ⟨e, he, -⟩ := Option.bind_eq_some_iff.mp h
    obtain ⟨s, hs, hfaithful⟩ := exists_faithful ha hstand hss hi (lt_size_of_get? he)
    rw [hs.spanAt?] at h
    cases hfaithful with
    | mk hspan _ _ _ => exact hspan a h
  nested i p a b hp hpa hib := by
    obtain ⟨q, hq, -, hwithin⟩ := exists_part ha hpre hstand hroot hss hp
    exact hwithin a hpa b (hq.spanAt? ▸ hib)
  ordered p k hk htag := by
    by_cases hp : p = root
    · subst hp
      exact horder.exists_spans hstand
    · obtain ⟨htype, hmem⟩ := ha.parentOf_type hpre hk htag hp
      obtain ⟨s, hs, hstands⟩ := hstand.exists_of_mem hmem
      obtain rfl : s.kind = k := Option.some.inj (hstands.kindOf?.symm.trans hk)
      obtain ⟨lo, hi, hparts⟩ := htypes s hs htype
      exact hparts.exists_spans (Sketch.standAt_iff.mpr hstands.childrenOf)
  quoted i k hk := by
    by_cases hi : i = root
    · subst hi
      obtain rfl : Kind.header = k := Option.some.inj (ha.top.symm.trans hk)
      trivial
    · obtain ⟨e, he, -⟩ := Option.map_eq_some_iff.mp hk
      obtain ⟨p, hp, -⟩ := hpre.mem_childrenOf hi (lt_size_of_get? he)
      obtain ⟨q, hq, hquotes, -⟩ := exists_part ha hpre hstand hroot hss hp
      obtain rfl : q.kind = k := Option.some.inj (hq.kindOf?.symm.trans hk)
      rw [hostTag?, hp, hq.spanAt?]
      exact hquotes

end Planted

theorem inOrder_parts_of_type {types : TypeReader} {n : Node} (hn : n.Read) (hl : n.Laid)
    (hr : n.rule ∈ Rule.translationUnit.body.seen.flatMap Rule.leaves) {s : Sketch}
    (hs : s ∈ sketches types { tag := .header } n) (htag : s.kind.tag ∈ typeTags) :
    Sketch.InOrder n.start s.parts n.stop := by
  have hall : ∀ r ∈ Rule.translationUnit.body.seen.flatMap Rule.leaves,
      r ∈ typeRules ∨ r ∈ keywordRules ∨ r ∈ bareRules := by decide
  rcases hall _ hr with htype | hkeyword | hbare
  · obtain ⟨q, hq, hholds⟩ := sketches_type types .header hn htype
    rw [hq, List.mem_singleton] at hs
    subst hs
    exact hholds.inOrder hn hl htype
  · rw [sketches_of_keyword hn hkeyword] at hs
    obtain ⟨k, -, rfl⟩ := Option.map_eq_some_iff.mp (Option.mem_toList.mp hs)
    simp [Kind.tag, typeTags] at htag
  · rw [sketches_of_bare hn hbare (by decide)] at hs
    cases hs

/-- The outline of an accepted header is faithful to its text. -/
theorem faithful_of_parse {text : String} {tree : Node} (h : Header.parse text = .ok tree)
    (maxDepth : Nat) : ∃ o, Header.outlineWithin maxDepth text = .ok o ∧ Faithful text o := by
  obtain ⟨o, houtline, ho⟩ := exists_outlineWithin h maxDepth
  have ha : Arranged o := arranged_of_parse h ho
  have hlies := Header.liesIn_of_parse h
  refine ⟨o, houtline, ?_⟩
  rw [ofTreeWith_eq _ h] at ho
  obtain rfl := Except.ok.inj ho
  obtain ⟨ids, hids⟩ :=
    get?_root_plantAll (tree.children.flatMap (sketches (.respelled maxDepth) { tag := .header }))
  have hpre := ha.layout.preOrdered (by rw [parentOf, hids]; rfl) ha.layout.le
  have hss : ∀ s ∈ tree.children.flatMap (sketches (.respelled maxDepth) { tag := .header }),
      s.SitsIn text .header (spanOf tree) := by
    intro s hs
    obtain ⟨n, hn, hs⟩ := List.mem_flatMap.mp hs
    obtain ⟨hn, hwithin⟩ := hlies.child hn
    exact (sitsIn_sketches _ n _ hn s hs).mono hwithin
  refine faithful_of_standAt ha hpre (standAt_root _) (by rw [spanAt?, hids]; rfl) hss
    (.flatMap hlies.laid.strewn fun n hn => ?_) fun s hs htag => ?_
  · obtain ⟨hread, hrule⟩ := Header.read_of_parse h n hn
    have hall : ∀ r ∈ Rule.translationUnit.body.seen.flatMap Rule.leaves, r ∈ soleRules := by decide
    exact inOrder_sketches hread (hall _ hrule) (by decide)
  · obtain ⟨n, hn, hs⟩ := List.mem_flatMap.mp hs
    obtain ⟨hread, hrule⟩ := Header.read_of_parse h n hn
    exact ⟨_, _, inOrder_parts_of_type hread (hlies.laid.child hn) hrule hs htag⟩

def words (text : String) (o : Outline) : List (String × Option String) :=
  o.entries.toList.filterMap fun e => e.kind.text?.map (·, e.span.bind (·.textIn? text))

/-- A header with a character of two bytes in front of its class. -/
def commentedHeader : String :=
  "/* é */ @interface A : B <P> \x7b @public int x, *y; \x7d\n" ++
    "@property id _Nullable p;\n- go:(int)n;\n@end"

/-- Spans count bytes, and the star of an instance variable stands at the span of its name. -/
theorem faithful_commentedHeader : ∃ tree o, Header.parse commentedHeader = .ok tree ∧
    Header.outlineWithin 32 commentedHeader = .ok o ∧ Faithful commentedHeader o ∧
    words commentedHeader o =
      [("B", some "B"), ("P", some "P"), ("x", some "x"), ("y", some "*y"), ("p", some "p"),
        ("_Nullable", some "_Nullable"), ("go", some "go"), ("n", some "n")] := by
  have hwords : (Header.outlineWithin 32 commentedHeader).toOption.map (words commentedHeader) =
      some [("B", some "B"), ("P", some "P"), ("x", some "x"), ("y", some "*y"), ("p", some "p"),
        ("_Nullable", some "_Nullable"), ("go", some "go"), ("n", some "n")] := by decide +kernel
  cases h : Header.parse commentedHeader with
  | error e =>
    rw [Header.outlineWithin, h] at hwords
    cases hwords
  | ok tree =>
    obtain ⟨o, ho, hfaithful⟩ := faithful_of_parse h 32
    rw [ho] at hwords
    exact ⟨tree, o, rfl, ho, hfaithful, Option.some.inj hwords⟩

end HeaderBridge.Outline
