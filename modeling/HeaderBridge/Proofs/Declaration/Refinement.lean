import HeaderBridge.Proofs.Declaration.Direct
import HeaderBridge.Proofs.Grammar.Headers

/-! # The outline loses nothing

The declarations that are read from the outline of a header are the ones that
its parse tree spells.
-/

namespace HeaderBridge.Outline

open Grammar Declaration

variable {types : TypeReader} {t : Tag} {n : Node} {o : Outline} {id : Nat} {s : Sketch}

/-! ### Trees of parse nodes -/

theorem sketches_of_opens? {r : Rule} {kind kind' : Kind} {tag : Tag} {ls : List Sketch}
    (hr : n.rule = r) (hopens : Scope.opens? { tag := t } r = some kind) (htag : kind.tag = tag)
    (hin : Scope.inside { tag := tag } r = { tag := tag }) (hfilled : filled n kind = kind')
    (hleaves : leaves types { tag := tag } n = ls) :
    sketches types { tag := t } n = [.mk kind' (some (spanOf n))
      (ls ++ n.children.flatMap (sketches types { tag := tag }))] := by
  subst hr htag hfilled hleaves
  rw [sketches_eq, hopens]
  simp only [hin, sketchesAll_eq]

theorem sketches_of_opens?_none (h : Scope.opens? { tag := t } n.rule = none)
    (hin : Scope.inside { tag := t } n.rule = { tag := t }) :
    sketches types { tag := t } n =
      leaves types { tag := t } n ++ n.children.flatMap (sketches types { tag := t }) := by
  rw [sketches_eq, h]
  simp only [hin, sketchesAll_eq]

theorem sketches_of_not_declaring (hn : n.Read) (hr : n.rule ∉ declaring)
    (hp : n.rule ≠ .protocolList)
    (ht : t ≠ .protocolList) : sketches types { tag := t } n = annotationLeaves { tag := t } n :=
  sketches_eq_annotationLeaves types n _ hn hr (fun h => absurd h hp) ht

theorem tag_of_mem_annotationLeaves {c : Scope} (h : s ∈ annotationLeaves c n) :
    s.kind.tag = .nullability := by
  unfold annotationLeaves at h
  split at h
  · simp at h
  · obtain ⟨word, -, rfl⟩ := List.mem_map.mp h
    rfl

theorem tag_of_mem_leaf? {kind : String → Kind} {tag : Tag} {x : Option Node}
    (hkind : ∀ text, (kind text).tag = tag) (h : s ∈ Sketch.leaf? kind x) : s.kind.tag = tag := by
  cases x with
  | none => simp [Sketch.leaf?] at h
  | some x =>
    obtain rfl := List.mem_singleton.mp h
    exact hkind x.text

theorem filter_flatMap_tag {sk : Node → List Sketch} {tag : Tag} {r : Rule} {ns : List Node}
    (hsk : ∀ x ∈ ns, ∀ s ∈ sk x, s.kind.tag = tag ↔ x.rule = r) :
    (ns.flatMap sk).filter (fun s => decide (s.kind.tag = tag)) =
      (ns.filter (·.rule = r)).flatMap sk := by
  rw [List.filter_flatMap]
  induction ns with
  | nil => rfl
  | cons x ns ih =>
    rw [List.flatMap_cons, ih fun y hy => hsk y (List.mem_cons_of_mem _ hy), List.filter_cons]
    have hx := hsk x List.mem_cons_self
    by_cases hr : x.rule = r
    · rw [if_pos (by simpa using hr), List.flatMap_cons]
      congr 1
      exact List.filter_eq_self.mpr fun s hs => by simpa [hr] using hx s hs
    · rw [if_neg (by simpa using hr)]
      rw [List.filter_eq_nil_iff.mpr fun s hs => by simpa [hr] using hx s hs, List.nil_append]

/-- The tag of a tree tells what kind of parse node it comes from. -/
theorem tag_of_mem_sketches {x : Node} (hx : x.Read) (ht : t ≠ .protocolList)
    (h : s ∈ sketches types { tag := t } x) :
    (∀ tag, headerTargets.lookup x.rule = some (.fresh tag) → s.kind.tag = tag) ∧
      (x.rule ∉ declaring → x.rule ≠ .protocolList → s.kind.tag = .nullability) := by
  constructor
  · intro tag hlookup
    obtain ⟨tag', kind, htarget, hfresh, hkind⟩ := lookup_headerTargets x.rule
      (by rintro hu; rw [hu] at hlookup; cases hlookup) _ hlookup
    obtain rfl := Target.fresh.inj htarget
    have hopens : Scope.opens? { tag := t } x.rule = some kind := by
      rw [Scope.opens?, if_neg (by simp), hlookup]
      exact hfresh
    rw [sketches_eq, hopens, List.mem_singleton] at h
    rw [h, Sketch.kind_mk]
    exact tag_filled hkind fun _ => hlookup
  · intro hd hp
    rw [sketches_of_not_declaring hx hd hp ht] at h
    exact tag_of_mem_annotationLeaves h

theorem sketches_of_parts {ls : List Sketch} (hn : n.Read)
    (hopens : Scope.opens? { tag := t } n.rule = none)
    (hin : Scope.inside { tag := t } n.rule = { tag := t }) (hls : leaves types { tag := t } n = ls)
    (hparts : ∀ r ∈ n.rule.body.seen.flatMap Rule.leaves, r ∉ declaring ∧ r ≠ .protocolList)
    (ht : t ≠ .protocolList) : sketches types { tag := t } n =
      ls ++ n.children.flatMap (annotationLeaves { tag := t }) := by
  rw [sketches_of_opens?_none hopens hin, hls]
  congr 1
  refine List.flatMap_congr fun x hx => ?_
  obtain ⟨hread, hd, hp⟩ := hn.part_of rfl hparts hx
  exact sketches_of_not_declaring hread hd hp ht

/-- The tag of what the parse nodes of a rule add outside of lists, where they have one. -/
def partTag? (r : Rule) : Option Tag :=
  match headerTargets.lookup r with
  | some (.fresh tag) => some tag
  | _ =>
    if r ∈ declaring ∧ r ≠ .fieldDeclaration ∨ r = .protocolList then none
    else some .nullability

theorem partTag?_eq {x : Node} (hx : x.Read) (ht : t ∉ [Tag.protocolList, .ivarList])
    (hsome : (partTag? x.rule).isSome) (h : s ∈ sketches types { tag := t } x) :
    partTag? x.rule = some s.kind.tag := by
  simp only [List.mem_cons, List.not_mem_nil, or_false, not_or] at ht
  obtain ⟨hopened, hquiet⟩ := tag_of_mem_sketches hx ht.1 h
  by_cases hfield : x.rule = .fieldDeclaration
  · have hsx : sketches types { tag := t } x =
        [] ++ x.children.flatMap (annotationLeaves { tag := t }) := by
      refine sketches_of_parts hx (by rw [hfield]; rfl) (by rw [hfield]; rfl)
        (by rw [leaves, hfield]; exact if_neg ht.2) ?_ ht.1
      rw [hfield]
      decide
    rw [hsx, List.nil_append] at h
    obtain ⟨y, -, h⟩ := List.mem_flatMap.mp h
    rw [tag_of_mem_annotationLeaves h, hfield]
    rfl
  · unfold partTag? at hsome ⊢
    split
    · next tag hlookup => rw [hopened tag hlookup]
    · next hlookup =>
      by_cases hd : x.rule ∈ declaring ∧ x.rule ≠ .fieldDeclaration ∨ x.rule = .protocolList
      · simp [hd] at hsome
      · rw [if_neg hd, hquiet (fun h => hd (.inl ⟨h, hfield⟩)) fun h => hd (.inr h)]

section Parts

variable {r q : Rule} {kind : Kind} {span : Option Span} {ls : List Sketch} {tag : Tag}

theorem partsWith_of_rule (hn : n.Read) (hr : n.rule = r) (ht : t ∉ [Tag.protocolList, .ivarList])
    (hall : ∀ r' ∈ r.body.seen.flatMap Rule.leaves,
      (partTag? r').isSome ∧ (partTag? r' = some tag ↔ r' = q)) (hls : ∀ s ∈ ls, s.kind.tag ≠ tag) :
    (Sketch.mk kind span (ls ++ n.children.flatMap (sketches types { tag := t }))).partsWith tag =
      (n.childrenOf q).flatMap (sketches types { tag := t }) := by
  have hnil : ls.filter (fun s => decide (s.kind.tag = tag)) = [] := by simpa using hls
  rw [Sketch.partsWith, Sketch.parts, List.filter_append, hnil, List.nil_append,
    filter_flatMap_tag fun x hx s hs => ?_, Node.childrenOf]
  obtain ⟨hread, hsome, hiff⟩ := hn.part_of hr hall hx
  rw [← hiff, partTag?_eq hread ht hsome hs, Option.some.injEq]

/-- The parts with a tag are leaves if no rule of a part has this tag. -/
theorem partsWith_of_leaves (hn : n.Read) (hr : n.rule = r) (ht : t ∉ [Tag.protocolList, .ivarList])
    (hall : ∀ r' ∈ r.body.seen.flatMap Rule.leaves, (partTag? r').isSome ∧ partTag? r' ≠ some tag) :
    (Sketch.mk kind span (ls ++ n.children.flatMap (sketches types { tag := t }))).partsWith tag =
      ls.filter (fun s => decide (s.kind.tag = tag)) := by
  have hnil : (n.children.flatMap (sketches types { tag := t })).filter
      (fun s => decide (s.kind.tag = tag)) = [] := by
    refine List.filter_eq_nil_iff.mpr fun s hs htag => ?_
    obtain ⟨x, hx, hs⟩ := List.mem_flatMap.mp hs
    obtain ⟨hread, hsome, hne⟩ := hn.part_of hr hall hx
    exact hne (of_decide_eq_true htag ▸ partTag?_eq hread ht hsome hs)
  rw [Sketch.partsWith, Sketch.parts_mk, List.filter_append, hnil, List.append_nil]

theorem childWith?_of_rule {H : Node → Sketch → Prop} (h : Sketch.StandsAt o s id) (hn : n.Read)
    (hparts : s.partsWith tag = (n.childrenOf q).flatMap (sketches types { tag := t }))
    (hone : ∀ x : Node, x.Read → x.rule = q → ∃ s, sketches types { tag := t } x = [s] ∧ H x s) :
    (o.childWith? id tag = none ∧ n.child? q = none) ∨
      ∃ i x part, o.childWith? id tag = some i ∧ n.child? q = some x ∧ x.Read ∧
        Sketch.StandsAt o part i ∧ H x part := by
  rw [n.child?_eq_head?]
  cases hchildren : n.childrenOf q with
  | nil =>
    rcases h.childWith? tag with ⟨hnone, -⟩ | ⟨i, part, -, hsome, -⟩
    · exact .inl ⟨hnone, rfl⟩
    · simp [Sketch.part?, hparts, hchildren] at hsome
  | cons m ms =>
    obtain ⟨hmem, hrule⟩ :=
      Node.mem_childrenOf.mp (hchildren ▸ List.mem_cons_self : m ∈ n.childrenOf q)
    obtain ⟨p, hp, hholds⟩ := hone m (hn.part hmem).1 hrule
    have hpart : s.part? tag = some p := by
      rw [Sketch.part?, hparts, hchildren, List.flatMap_cons, hp]
      rfl
    rcases h.childWith? tag with ⟨-, hnone⟩ | ⟨i, part, hsome, hpart', hi⟩
    · simp [hpart] at hnone
    · obtain rfl : p = part := Option.some.inj (hpart.symm.trans hpart')
      exact .inr ⟨i, m, p, hsome, rfl, (hn.part hmem).1, hi, hholds⟩

end Parts

/-! ### Methods -/

theorem children_methodType (hn : n.Read) (hr : n.rule = .methodType) :
    ∃ x, n.children = [x] ∧ x.Read ∧ x.rule = .typeName := by
  obtain ⟨text, c, -, -, hread⟩ := hn.body (by rw [hr]; rfl)
  have hbody : Rule.methodType.body =
      .seq (.seq (.literal ['(']) (.call .typeName)) (.literal [')']) := rfl
  rw [hr, hbody, Expr.reading_seq, Reading.andThen_eq_some] at hread
  obtain ⟨c₁, ns₁, ns₂, h₁, h₂, hns⟩ := hread
  rw [Expr.reading_seq, Reading.andThen_eq_some] at h₁
  obtain ⟨c₀, ns₀, ns₁', h₀, h₁, rfl⟩ := h₁
  rw [Expr.reading_literal, Option.ite_none_right_eq_some, Option.some.injEq,
    Prod.mk.injEq] at h₀ h₂
  obtain ⟨-, -, rfl⟩ := h₀
  obtain ⟨-, -, rfl⟩ := h₂
  rw [Expr.reading_call] at h₁
  obtain ⟨text', ms, rfl⟩ := Rule.reading_singleton (.inl rfl) h₁
  obtain ⟨x, hx, -⟩ := List.map_eq_singleton_iff.mp hns
  exact ⟨x, hx,
    hn.part_of (P := (· = .typeName)) hr (by decide) (by rw [hx]; exact List.mem_singleton_self x)⟩

/-- The tree of the parentheses of a method: its type, and its nullability words. -/
structure HoldsMethodType (types : TypeReader) (n : Node) (s : Sketch) : Prop where
  tag : s.kind.tag = .methodType
  type : (s.part? .typeName).bind Sketch.carriedType? = Direct.type? types n
  words : s.textsWith .nullability = (annotations n).map Node.text

theorem sketches_methodType (types : TypeReader) (t : Tag) (hn : n.Read)
    (hr : n.rule = .methodType) :
    ∃ s, sketches types { tag := t } n = [s] ∧ HoldsMethodType types n s := by
  obtain ⟨x, hx, hread, hrule⟩ := children_methodType hn hr
  have hparts : x.children.flatMap (sketches types { tag := .methodType }) =
      (annotations x).map fun word => Sketch.leaf (.nullability word.text) word := by
    have hflat : x.children.flatMap (sketches types { tag := .methodType }) =
        x.children.flatMap (annotationLeaves { tag := .methodType }) := by
      refine List.flatMap_congr fun y hy => ?_
      obtain ⟨hy, hd, hp⟩ := hread.part_of (P := fun r => r ∉ declaring ∧ r ≠ .protocolList) hrule
        (by decide) hy
      exact sketches_of_not_declaring hy hd hp (by decide)
    have hin : Scope.inside { tag := .methodType } x.rule = { tag := .methodType } := by
      rw [hrule]; rfl
    have hleaves := flatMap_annotationLeaves { tag := .methodType } hread
    rw [hin, if_neg (by rw [hrule]; decide)] at hleaves
    rw [hflat, hleaves, annotationLeaves, if_neg (by decide)]
  have hannotations : annotations n = annotations x := by
    rw [annotations_eq (by rw [hr]; decide) (by rw [hr]; decide), hx, List.flatMap_singleton]
  have hsx : sketches types { tag := .methodType } x =
      ((types.typeName x).map fun type => Sketch.leaf (.typeName type) x).toList
        ++ (annotations x).map fun word => Sketch.leaf (.nullability word.text) word := by
    rw [sketches_of_opens?_none (by rw [hrule]; rfl) (by rw [hrule]; rfl), hparts, leaves, hrule]
  have htype : Direct.type? types n = types.typeName x := by
    rw [Direct.type?, Node.child?, hx, List.find?_singleton, if_pos (by simpa using hrule)]
    rfl
  have hs : sketches types { tag := t } n =
      [.mk .methodType (some (spanOf n)) (sketches types { tag := .methodType } x)] := by
    have hleaves : leaves types { tag := .methodType } n = [] := by rw [leaves, hr]
    rw [sketches_of_opens? hr rfl rfl rfl (by rw [filled, hr]) hleaves, hx, List.flatMap_singleton]
    rfl
  refine ⟨_, hs, rfl, ?_, ?_⟩
  · rw [hsx, htype]
    cases types.typeName x <;>
      simp [Sketch.part?, Sketch.partsWith, List.filter_map, Function.comp_def, Kind.tag,
        Sketch.carriedType?]
  · rw [hsx, hannotations]
    cases types.typeName x <;>
      simp [Sketch.textsWith, Sketch.partsWith, List.filter_map, Function.comp_def, Kind.tag,
        Kind.text?]

theorem firstType_eq (h : Sketch.StandsAt o s id) (hn : n.Read)
    (hparts : s.partsWith .methodType =
      (n.childrenOf .methodType).flatMap (sketches types { tag := t })) :
    (o.childWith? id .methodType).bind o.typeIn? =
      (n.child? .methodType).bind (Direct.type? types) ∧
      (o.childWith? id .methodType).bind o.nullabilityIn? =
        (n.child? .methodType).bind Direct.nullability? := by
  rcases childWith?_of_rule h hn hparts fun x => sketches_methodType types t with
    ⟨hnone, hchild⟩ | ⟨i, x, part, hsome, hchild, -, hi, hholds⟩
  · rw [hnone, hchild]
    exact ⟨rfl, rfl⟩
  · rw [hsome, hchild]
    refine ⟨hi.typeIn?.trans hholds.type, ?_⟩
    rw [Option.bind_some, hi.nullabilityIn?, hholds.words]
    rfl

structure HoldsPiece (types : TypeReader) (n : Node) (s : Sketch) : Prop where
  names : s.textsWith .identifier = (n.childText? .selector).toList ++
    (n.childText? .identifier).toList
  methodTypes : s.partsWith .methodType =
    (n.childrenOf .methodType).flatMap (sketches types { tag := .keywordDeclarator })

theorem sketches_keywordDeclarator (types : TypeReader) (t : Tag) (hn : n.Read)
    (hr : n.rule = .keywordDeclarator) :
    ∃ s, sketches types { tag := t } n = [s] ∧ HoldsPiece types n s := by
  have hleaves : leaves types { tag := .keywordDeclarator } n =
      Sketch.leaf? .identifier (n.child? .selector) ++
        Sketch.leaf? .identifier (n.child? .identifier) := by
    rw [leaves, hr]
  refine ⟨_, sketches_of_opens? hr rfl rfl rfl rfl hleaves, ?_, ?_⟩
  · rw [Sketch.textsWith, partsWith_of_leaves hn hr (by decide) (by decide)]
    cases hx : n.child? .selector <;> cases hy : n.child? .identifier <;>
      simp [Sketch.leaf?, Node.childText?, hx, hy, Kind.tag, Kind.text?]
  · refine partsWith_of_rule hn hr (by decide) (by decide) fun q hq => ?_
    have htag : q.kind.tag = .identifier := by
      rcases List.mem_append.mp hq with hq | hq <;> exact tag_of_mem_leaf? (fun _ => rfl) hq
    simp [htag]

theorem pieceOf?_eq_direct (h : Sketch.StandsAt o s id) (hn : n.Read)
    (hr : n.rule = .keywordDeclarator) (hs : HoldsPiece types n s) :
    pieceOf? o id = Direct.piece? types n := by
  obtain ⟨name, hname⟩ := hn.exists_child? (by rw [hr]; rfl) .identifier (by rw [hr]; rfl)
  obtain ⟨htype, hnull⟩ := firstType_eq h hn hs.methodTypes
  have hnames := (Sketch.textsWith_eq h).trans hs.names
  simp only [pieceOf?, hnames, htype, hnull, Direct.piece?, Node.childText?, hname]
  cases n.child? .selector <;> rfl

structure HoldsSelector (types : TypeReader) (n : Node) (s : Sketch) : Prop where
  name : (s.part? .identifier).bind (fun part => part.kind.text?) = n.childText? .selector
  pieces : s.partsWith .keywordDeclarator =
    (n.childrenOf .keywordDeclarator).flatMap (sketches types { tag := .selector })

theorem sketches_methodSelector (types : TypeReader) (t : Tag) (hn : n.Read)
    (hr : n.rule = .methodSelector) :
    ∃ s, sketches types { tag := t } n = [s] ∧ HoldsSelector types n s := by
  have hleaves : leaves types { tag := .selector } n =
      Sketch.leaf? .identifier (n.child? .selector) := by
    rw [leaves, hr]
  refine ⟨_, sketches_of_opens? hr rfl rfl rfl rfl hleaves, ?_, ?_⟩
  · rw [Sketch.part?, partsWith_of_leaves hn hr (by decide) (by decide)]
    cases hx : n.child? .selector <;> simp [Sketch.leaf?, Node.childText?, hx, Kind.tag, Kind.text?]
  · refine partsWith_of_rule hn hr (by decide) (by decide) fun q hq => ?_
    have htag : q.kind.tag = .identifier := tag_of_mem_leaf? (fun _ => rfl) hq
    simp [htag]

theorem pieces_eq_direct (h : Sketch.StandsAt o s id) (hn : n.Read) (hs : HoldsSelector types n s) :
    (o.childrenWith id .keywordDeclarator).filterMap (pieceOf? o) =
      (n.childrenOf .keywordDeclarator).filterMap (Direct.piece? types) := by
  have hstand := h.childrenWith .keywordDeclarator
  rw [hs.pieces, ← Sketch.standAt_iff] at hstand
  have hread : ∀ x ∈ n.childrenOf .keywordDeclarator, x.Read ∧ x.rule = .keywordDeclarator := by
    intro x hx
    obtain ⟨hmem, hrule⟩ := Node.mem_childrenOf.mp hx
    exact ⟨(hn.part hmem).1, hrule⟩
  generalize n.childrenOf .keywordDeclarator = xs at hstand hread
  generalize o.childrenWith id .keywordDeclarator = ids at hstand
  induction xs generalizing ids with
  | nil =>
    obtain rfl : ids = [] := hstand
    rfl
  | cons x xs ih =>
    obtain ⟨hx, hrule⟩ := hread x List.mem_cons_self
    obtain ⟨q, hq, hholds⟩ := sketches_keywordDeclarator types .selector hx hrule
    rw [List.flatMap_cons, hq] at hstand
    obtain ⟨i, rest, rfl, hi, hrest⟩ := hstand
    rw [List.filterMap_cons, List.filterMap_cons, pieceOf?_eq_direct hi hx hrule hholds,
      ih (fun y hy => hread y (List.mem_cons_of_mem _ hy)) rest hrest]

structure HoldsMethod (types : TypeReader) (n : Node) (s : Sketch) : Prop where
  kind : s.kind = .method (n.childText? .methodKind = some "+")
  methodTypes : s.partsWith .methodType =
    (n.childrenOf .methodType).flatMap (sketches types { tag := .method })
  selectors : s.partsWith .selector =
    (n.childrenOf .methodSelector).flatMap (sketches types { tag := .method })

theorem sketches_methodDeclaration (types : TypeReader) (t : Tag) (hn : n.Read)
    (hr : n.rule = .methodDeclaration) :
    ∃ s, sketches types { tag := t } n = [s] ∧ HoldsMethod types n s := by
  have hleaves : leaves types { tag := .method } n = [] := by rw [leaves, hr]
  refine ⟨_, sketches_of_opens? hr rfl rfl rfl rfl hleaves, ?_, ?_, ?_⟩
  · rw [Sketch.kind_mk, filled, hr]
  all_goals exact partsWith_of_rule hn hr (by decide) (by decide) (by simp)

theorem methodOf?_eq_direct (h : Sketch.StandsAt o s id) (hn : n.Read) (hs : HoldsMethod types n s)
    (p : Declaration.Place) (isOptional : Bool) :
    (methodOf? o p isOptional (n.childText? .methodKind = some "+") id).map Method.unsourced =
      Direct.method? types p isOptional n := by
  obtain ⟨htype, hnull⟩ := firstType_eq h hn hs.methodTypes
  rw [methodOf?_eq, htype, hnull, Direct.method?]
  rcases childWith?_of_rule h hn hs.selectors fun x => sketches_methodSelector types .method with
    ⟨hnone, hchild⟩ | ⟨i, x, part, hsome, hchild, hx, hi, hholds⟩
  · rw [hnone, hchild]
    rfl
  · rw [hsome, hchild, Option.bind_some, unsourced_methodFrom, hi.identifierIn?, hholds.name,
      pieces_eq_direct hi hx hholds]
    rfl

/-! ### Properties -/

theorem sketches_propertyAttributesList (types : TypeReader) (t : Tag) (hn : n.Read)
    (hr : n.rule = .propertyAttributesList) :
    ∃ s, sketches types { tag := t } n = [s] ∧
      (s.partsWith .modifier).filterMap Sketch.carriedModifier? =
        (n.childrenOf .propertyAttribute).filterMap modifierOf? := by
  have hleaves : leaves types { tag := .modifierList } n = [] := by rw [leaves, hr]
  refine ⟨_, sketches_of_opens? hr rfl (rfl : _ = Tag.modifierList) rfl rfl hleaves, ?_⟩
  have hall := hn.childrenOf_eq_children (q := .propertyAttribute) hr (by decide)
  have hpart : ∀ x ∈ n.childrenOf .propertyAttribute,
      ((sketches types { tag := .modifierList } x).filter
        (fun s => decide (s.kind.tag = .modifier))).filterMap Sketch.carriedModifier? =
        (modifierOf? x).toList := by
    intro x hx
    obtain ⟨hmem, hrule⟩ := Node.mem_childrenOf.mp hx
    have hsx : sketches types { tag := .modifierList } x =
        ((modifierOf? x).map fun m => Sketch.leaf (.modifier m) x).toList
          ++ x.children.flatMap (annotationLeaves { tag := .modifierList }) := by
      refine sketches_of_parts (hn.part hmem).1 (by rw [hrule]; rfl) (by rw [hrule]; rfl)
        (by rw [leaves, hrule]) ?_ (by decide)
      rw [hrule]
      decide
    have hnil : (x.children.flatMap (annotationLeaves { tag := .modifierList })).filter
        (fun s => decide (s.kind.tag = .modifier)) = [] := by
      refine List.filter_eq_nil_iff.mpr fun s hs => ?_
      obtain ⟨y, -, hs⟩ := List.mem_flatMap.mp hs
      simp [tag_of_mem_annotationLeaves hs]
    rw [hsx, List.filter_append, hnil, List.append_nil]
    cases modifierOf? x <;> simp [Kind.tag, Sketch.carriedModifier?]
  rw [Sketch.partsWith, Sketch.parts_mk, List.nil_append, List.filter_flatMap, ← hall,
    List.filterMap_eq_flatMap_toList _ (n.childrenOf .propertyAttribute)]
  generalize n.childrenOf .propertyAttribute = xs at hpart
  induction xs with
  | nil => rfl
  | cons x xs ih =>
    rw [List.flatMap_cons, List.flatMap_cons, List.filterMap_append, hpart x List.mem_cons_self,
      ih fun y hy => hpart y (List.mem_cons_of_mem _ hy)]

structure HoldsProperty (types : TypeReader) (n : Node) (s : Sketch) : Prop where
  kind : s.kind = .property
  name : (s.part? .identifier).bind (fun part => part.kind.text?) =
    (propertyParts? n).bind fun parts => DeclaredType.declaratorName? parts.2.2
  type : (s.part? .typeName).bind Sketch.carriedType? =
    (propertyParts? n).bind fun parts => types.declaration parts.2.1 parts.2.2
  modifierLists : s.partsWith .modifierList =
    (n.childrenOf .propertyAttributesList).flatMap (sketches types { tag := .property })

theorem sketches_propertyDeclaration (types : TypeReader) (t : Tag) (hn : n.Read)
    (hr : n.rule = .propertyDeclaration) :
    ∃ s, sketches types { tag := t } n = [s] ∧ HoldsProperty types n s := by
  have hleaf : ∀ q ∈ leaves types { tag := .property } n,
      q.kind.tag = .identifier ∨ q.kind.tag = .typeName := by
    intro q hq
    rw [leaves, hr] at hq
    cases hp : propertyParts? n with
    | none => simp [hp] at hq
    | some parts =>
      obtain ⟨field, specifiers, declarator⟩ := parts
      simp only [hp, List.mem_append, Option.mem_toList, Option.map_eq_some_iff] at hq
      rcases hq with ⟨name, -, rfl⟩ | ⟨type, -, rfl⟩
      · exact .inl rfl
      · exact .inr rfl
  refine ⟨_, sketches_of_opens? hr rfl rfl rfl (by rw [filled, hr]) rfl, rfl, ?_, ?_,
    partsWith_of_rule hn hr (by decide) (by decide) fun q hq => ?_⟩
  on_goal 3 => rcases hleaf q hq with htag | htag <;> simp [htag]
  all_goals
    rw [Sketch.part?, partsWith_of_leaves hn hr (by decide) (by decide), leaves, hr]
    cases propertyParts? n with
    | none => rfl
    | some parts =>
      obtain ⟨field, specifiers, declarator⟩ := parts
      cases hname : DeclaredType.declaratorName? declarator <;>
        cases htype : types.declaration specifiers declarator <;>
        simp [hname, htype, Kind.tag, Kind.text?, Sketch.carriedType?]

theorem propertyOf?_eq_direct (h : Sketch.StandsAt o s id) (hn : n.Read)
    (hs : HoldsProperty types n s) (p : Declaration.Place) (isOptional : Bool) :
    (propertyOf? o p isOptional id).map Property.unsourced =
      Direct.property? types p isOptional n := by
  have hmodifiers : o.modifiersIn id = Direct.modifiers n := by
    rw [h.modifiersIn, Sketch.part?, hs.modifierLists, Direct.modifiers, Node.child?_eq_head?]
    cases hchildren : n.childrenOf .propertyAttributesList with
    | nil => rfl
    | cons m ms =>
      obtain ⟨hmem, hrule⟩ :=
        Node.mem_childrenOf.mp
          (hchildren ▸ List.mem_cons_self : m ∈ n.childrenOf .propertyAttributesList)
      obtain ⟨q, hq, hmods⟩ :=
        sketches_propertyAttributesList types .property (hn.part hmem).1 hrule
      rw [List.flatMap_cons, hq]
      exact hmods
  rw [propertyOf?_eq, h.identifierIn?, hs.name, h.typeIn?, hs.type, hmodifiers, Direct.property?]
  cases propertyParts? n with
  | none => rfl
  | some parts =>
    obtain ⟨field, specifiers, declarator⟩ := parts
    simp only [Option.bind_some, Option.bind_eq_bind]
    cases DeclaredType.declaratorName? declarator with
    | none => rfl
    | some name => cases types.declaration specifiers declarator <;> rfl

/-! ### Instance variables -/

theorem sketches_ivarEntry (hn : n.Read)
    (hr : n.rule ∈ [.accessModifier, .fieldDeclaration, .skippedField]) :
    sketches types { tag := .ivarList } n = leaves types { tag := .ivarList } n := by
  have hparts : ∀ r ∈ n.rule.body.seen.flatMap Rule.leaves, n.rule.kind = .branch →
      r ∉ declaring ∧ r ≠ .protocolList := by
    have hall : ∀ r ∈ ([.accessModifier, .fieldDeclaration, .skippedField] : List Rule),
        ∀ r' ∈ r.body.seen.flatMap Rule.leaves, r.kind = .branch → r' ∉ declaring ∧
        r' ≠ .protocolList := by
      decide
    exact hall _ hr
  have hopens : ∀ r ∈ ([.accessModifier, .fieldDeclaration, .skippedField] : List Rule),
      Scope.opens? { tag := .ivarList } r = none ∧
        Scope.inside { tag := .ivarList } r = { tag := .ivarList } := by
    intro r hr
    simp only [List.mem_cons, List.not_mem_nil, or_false] at hr
    rcases hr with rfl | rfl | rfl <;> exact ⟨rfl, rfl⟩
  obtain ⟨hnone, hin⟩ := hopens _ hr
  rw [sketches_of_opens?_none hnone hin]
  have hnil : n.children.flatMap (sketches types { tag := .ivarList }) = [] := by
    refine List.flatMap_eq_nil_iff.mpr fun x hx => ?_
    obtain ⟨hread, hbranch, hrule⟩ := hn.part hx
    obtain ⟨hd, hp⟩ := hparts _ hrule hbranch
    rw [sketches_of_not_declaring hread hd hp (by decide), annotationLeaves, if_pos (.inr rfl)]
  rw [hnil, List.append_nil]

theorem ivarOf?_eq_direct (p : Declaration.Place) (access : AccessLevel)
    (specifiers field : Node) (hs : ivarSketch? types specifiers field = some s)
    (h : Sketch.StandsAt o s id) : o.kindOf? id = some .ivar ∧
      (ivarOf? o p access id).map Ivar.unsourced =
        Direct.ivar? types p access specifiers field := by
  simp only [ivarSketch?, Option.bind_eq_bind, Option.bind_eq_some_iff, Option.pure_def,
    Option.some.injEq] at hs
  obtain ⟨declarator, hd, name, hname, type, htype, rfl⟩ := hs
  refine ⟨h.kindOf?, ?_⟩
  rw [ivarOf?_eq, h.typeIn?, h.identifierIn?]
  simp [Sketch.part?, Sketch.partsWith, Kind.tag, Sketch.carriedType?, Kind.text?, Direct.ivar?, hd,
    hname, htype]
  rfl

theorem ivar?_eq_none {p : Declaration.Place} {access : AccessLevel} {specifiers field : Node}
    (h : ivarSketch? types specifiers field = none) :
    Direct.ivar? types p access specifiers field = none := by
  simp only [ivarSketch?, Direct.ivar?, Option.bind_eq_bind, Option.bind_eq_none_iff,
    Option.pure_def, reduceCtorEq] at h ⊢
  exact h

theorem ivarsOf_append {is : List Nat} (p : Declaration.Place) (access : AccessLevel)
    (specifiers : Node) (fields : List Node) (ids : List Nat)
    (h : Sketch.StandAt o (fields.filterMap (ivarSketch? types specifiers)) is) :
    (ivarsOf o p access (is ++ ids)).map Ivar.unsourced =
      fields.filterMap (Direct.ivar? types p access specifiers)
        ++ (ivarsOf o p access ids).map Ivar.unsourced := by
  induction fields generalizing is with
  | nil =>
    obtain rfl : is = [] := h
    rfl
  | cons field fields ih =>
    rw [List.filterMap_cons] at h
    cases hs : ivarSketch? types specifiers field with
    | none =>
      rw [hs] at h
      rw [List.filterMap_cons, ivar?_eq_none hs]
      exact ih h
    | some s =>
      rw [hs] at h
      obtain ⟨i, rest, rfl, hi, hrest⟩ := h
      obtain ⟨hkind, hivar⟩ := ivarOf?_eq_direct p access specifiers field hs hi
      rw [List.cons_append, ivarsOf, hkind]
      simp only [List.map_append, ih hrest, List.filterMap_cons, ← hivar]
      cases ivarOf? o p access i <;> rfl

theorem ivarsOf_eq_direct (p : Declaration.Place) (access : AccessLevel) (entries : List Node)
    (ids : List Nat)
    (hentries : ∀ x ∈ entries, x.Read ∧
      x.rule ∈ [.accessModifier, .fieldDeclaration, .skippedField])
    (h : Sketch.StandAt o (entries.flatMap (sketches types { tag := .ivarList })) ids) :
    (ivarsOf o p access ids).map Ivar.unsourced = Direct.ivars types p access entries := by
  induction entries generalizing access ids with
  | nil =>
    obtain rfl : ids = [] := h
    rfl
  | cons x entries ih =>
    obtain ⟨hx, hr⟩ := hentries x List.mem_cons_self
    have hrest := fun y hy => hentries y (List.mem_cons_of_mem x hy)
    rw [List.flatMap_cons, sketches_ivarEntry hx hr, Sketch.standAt_append] at h
    obtain ⟨is, js, rfl, his, hjs⟩ := h
    simp only [List.mem_cons, List.not_mem_nil, or_false] at hr
    rcases hr with hr | hr | hr
    · rw [leaves, hr] at his
      rw [Direct.ivars, hr]
      cases hk : Keyword.ofSpelling? x.text with
      | none =>
        rw [hk] at his
        obtain rfl : is = [] := his
        exact ih access js hrest hjs
      | some k =>
        rw [hk] at his
        obtain ⟨i, _, rfl, hi, rfl⟩ := his
        rw [List.cons_append, ivarsOf, hi.kindOf?]
        exact ih (accessAfter access k) js hrest hjs
    · rw [leaves, hr] at his
      simp only [if_true] at his
      rw [Direct.ivars, hr]
      simp only [Direct.fieldIvars]
      cases hspec : x.child? .specifierQualifierList with
      | none =>
        simp only [hspec] at his
        obtain rfl : is = [] := his
        exact ih access js hrest hjs
      | some specifiers =>
        cases hlist : x.child? .fieldDeclaratorList with
        | none =>
          simp only [hspec, hlist] at his
          obtain rfl : is = [] := his
          exact ih access js hrest hjs
        | some list =>
          simp only [hspec, hlist] at his
          rw [ivarsOf_append p access specifiers _ js his, ih access js hrest hjs]
    · rw [leaves, hr] at his
      rw [Direct.ivars, hr]
      obtain rfl : is = [] := his
      exact ih access js hrest hjs

theorem sketches_instanceVariables (types : TypeReader) (t : Tag) (hn : n.Read)
    (hr : n.rule = .instanceVariables) :
    ∃ s, sketches types { tag := t } n = [s] ∧ s.kind = .ivarList ∧
      s.parts = (Direct.ivarEntries n).flatMap (sketches types { tag := .ivarList }) ∧
      ∀ x ∈ Direct.ivarEntries n, x.Read ∧ x.rule ∈ [.accessModifier, .fieldDeclaration,
        .skippedField] := by
  have hleaves : leaves types { tag := .ivarList } n = [] := by rw [leaves, hr]
  have hsections : ∀ x ∈ n.children, x.Read ∧ x.rule = .visibilitySection := fun x hx =>
    hn.part_of (P := (· = .visibilitySection)) hr (by decide) hx
  refine ⟨_, sketches_of_opens? hr rfl rfl rfl (by rw [filled, hr]) hleaves, rfl, ?_,
    fun x hx => ?_⟩
  · rw [Sketch.parts_mk, List.nil_append, Direct.ivarEntries, List.flatMap_assoc]
    refine List.flatMap_congr fun x hx => ?_
    obtain ⟨-, hrule⟩ := hsections x hx
    rw [sketches_of_opens?_none (by rw [hrule]; rfl) (by rw [hrule]; rfl), leaves, hrule]
    rfl
  · obtain ⟨y, hy, hx⟩ := List.mem_flatMap.mp hx
    obtain ⟨hread, hrule⟩ := hsections y hy
    exact hread.part_of (P := (· ∈ [.accessModifier, .fieldDeclaration, .skippedField])) hrule
      (by decide) hx

/-! ### Members of a type -/

theorem sketches_of_token (hn : n.Read) (hk : n.rule.kind = .token)
    (hopens : Scope.opens? { tag := t } n.rule = none)
    (hin : Scope.inside { tag := t } n.rule = { tag := t }) :
    sketches types { tag := t } n = leaves types { tag := t } n := by
  have hnil : n.children = [] := by
    refine List.eq_nil_iff_forall_not_mem.mpr fun x hx => ?_
    have hbranch := (hn.part hx).2.1
    rw [hk] at hbranch
    cases hbranch
  rw [sketches_of_opens?_none hopens hin, hnil, List.flatMap_nil, List.append_nil]

theorem sketches_keyword (hn : n.Read)
    (hr : n.rule ∈ [Rule.protocolSectionKeyword, .nonnullAuditMarker]) :
    sketches types { tag := t } n =
      ((Keyword.ofSpelling? n.text).map fun k => Sketch.leaf (.keyword k) n).toList := by
  rcases List.mem_pair.mp hr with hr | hr <;>
    rw [sketches_of_token hn (by rw [hr]; rfl) (by rw [hr]; rfl) (by rw [hr]; rfl), leaves, hr]

theorem sketches_protocolList_eq (types : TypeReader) (t : Tag) (hn : n.Read)
    (hr : n.rule = .protocolList) : sketches types { tag := t } n =
      [.mk .protocolList (some (spanOf n))
        ((n.childrenOf .protocolName).map fun x => Sketch.leaf (.protocolName x.text) x)] := by
  have hleaves : leaves types { tag := .protocolList } n = [] := by rw [leaves, hr]
  have hnames : n.children.flatMap (sketches types { tag := .protocolList }) =
      (n.childrenOf .protocolName).map fun x => Sketch.leaf (.protocolName x.text) x := by
    have hall := hn.childrenOf_eq_children (q := .protocolName) hr (by decide)
    rw [hall, List.map_eq_flatMap]
    refine List.flatMap_congr fun x hx => ?_
    obtain ⟨hmem, hrule⟩ := Node.mem_childrenOf.mp (hall ▸ hx)
    have hx := (hn.part hmem).1
    have hnil : x.children.flatMap (sketches types { tag := .protocolList }) = [] := by
      refine List.flatMap_eq_nil_iff.mpr fun y hy => ?_
      obtain ⟨hy, hry⟩ := hx.part_of (P := (· = .identifier)) hrule (by decide) hy
      rw [sketches_of_token hy (by rw [hry]; rfl) (by rw [hry]; rfl) (by rw [hry]; rfl), leaves,
        hry]
    rw [sketches_of_opens?_none (by rw [hrule]; rfl) (by rw [hrule]; rfl), hnil, List.append_nil,
      leaves, hrule]
    rfl
  rw [sketches_of_opens? hr rfl rfl rfl (by rw [filled, hr]) hleaves, List.nil_append, ← hnames]
  rfl

theorem sketches_protocolList (types : TypeReader) (t : Tag) (hn : n.Read)
    (hr : n.rule = .protocolList) :
    ∃ s, sketches types { tag := t } n = [s] ∧ s.kind = .protocolList ∧
      s.textsWith .protocolName = (n.childrenOf .protocolName).map Node.text := by
  refine ⟨_, sketches_protocolList_eq types t hn hr, rfl, ?_⟩
  simp [Sketch.textsWith, Sketch.partsWith, List.filter_map, Function.comp_def, Kind.tag,
    Kind.text?]

theorem foldl_addMember_silent {ss : List Sketch} {ids : List Nat} (h : Sketch.StandAt o ss ids)
    (hss : ∀ s ∈ ss, s.kind.tag = .nullability ∨ s.kind.tag = .categoryName) (policy : Policy)
    (g : Gathering) : ids.foldl (addMember o policy) g = g := by
  refine Sketch.foldl_fixed h (fun q hq g i hi => ?_) g
  have htag := hss q hq
  rw [addMember, hi.kindOf?]
  cases hk : q.kind <;> simp_all [Kind.tag]

def memberRules : List Rule :=
  [.protocolList, .instanceVariables, .propertyDeclaration, .methodDeclaration,
    .protocolSectionKeyword, .nonnullAuditMarker]

/-- A member adds to the declaration around it what its parse node spells. -/
theorem foldl_addMember_eq_direct {ids : List Nat} (hn : n.Read)
    (hr : n.rule ∈ memberRules ∨ n.rule ∉ declaring) (ht : t ≠ .protocolList)
    (h : Sketch.StandAt o (sketches types { tag := t } n) ids) (policy : Policy) (s : Gathering) :
    (ids.foldl (addMember o policy) s).unsourced = Direct.gather types policy s.unsourced n := by
  -- where there is one tree, there is one node
  have hsingle : ∀ {q : Sketch}, sketches types { tag := t } n = [q] →
      ∃ i, ids = [i] ∧ Sketch.StandsAt o q i := by
    intro q hq
    rw [hq] at h
    obtain ⟨i, rest, rfl, hi, rfl⟩ := h
    exact ⟨i, rfl, hi⟩
  by_cases hmem : n.rule ∈ memberRules
  · simp only [memberRules, List.mem_cons, List.not_mem_nil, or_false] at hmem
    rcases hmem with hr | hr | hr | hr | hr | hr
    · obtain ⟨q, hq, hkind, hnames⟩ := sketches_protocolList types t hn hr
      obtain ⟨i, rfl, hi⟩ := hsingle hq
      rw [List.foldl_cons, List.foldl_nil, addMember, hi.kindOf?, hkind, Direct.gather, hr]
      simp only [protocolsIn, Sketch.textsWith_eq hi, hnames]
      rfl
    · obtain ⟨q, hq, hkind, hparts, hentries⟩ := sketches_instanceVariables types t hn hr
      obtain ⟨i, rfl, hi⟩ := hsingle hq
      rw [List.foldl_cons, List.foldl_nil, addMember, hi.kindOf?, hkind, Direct.gather, hr]
      have hstand := Sketch.standAt_iff.mpr hi.childrenOf
      rw [hparts] at hstand
      have hivars := ivarsOf_eq_direct { policy, owner := s.declaration.name, audited := s.audited }
        .privateAccess _ _ hentries hstand
      simp only [Gathering.unsourced, TypeDeclaration.unsourced, List.map_append, hivars]
    · obtain ⟨q, hq, hholds⟩ := sketches_propertyDeclaration types t hn hr
      obtain ⟨i, rfl, hi⟩ := hsingle hq
      rw [List.foldl_cons, List.foldl_nil, addMember, hi.kindOf?, hholds.kind, Direct.gather, hr]
      have hproperty := propertyOf?_eq_direct hi hn hholds
        { policy, owner := s.declaration.name, audited := s.audited } s.optionalSection
      simp only [Gathering.unsourced, TypeDeclaration.unsourced, List.map_append, ← hproperty,
        Option.toList_map]
    · obtain ⟨q, hq, hholds⟩ := sketches_methodDeclaration types t hn hr
      obtain ⟨i, rfl, hi⟩ := hsingle hq
      rw [List.foldl_cons, List.foldl_nil, addMember, hi.kindOf?, hholds.kind, Direct.gather, hr]
      have hmethod := methodOf?_eq_direct hi hn hholds
        { policy, owner := s.declaration.name, audited := s.audited } s.optionalSection
      simp only [Gathering.unsourced, TypeDeclaration.unsourced, List.map_append, ← hmethod,
        Option.toList_map]
    all_goals
      rw [sketches_keyword hn (by rw [hr]; decide)] at h
      rw [Direct.gather, hr]
      cases hk : Keyword.ofSpelling? n.text with
      | none =>
        rw [hk] at h
        obtain rfl : ids = [] := h
        rfl
      | some k =>
        rw [hk] at h
        obtain ⟨i, _, rfl, hi, rfl⟩ := h
        rw [List.foldl_cons, List.foldl_nil, addMember, hi.kindOf?]
        cases k <;> rfl
  · have hd := hr.resolve_left hmem
    have hp : n.rule ≠ .protocolList := fun hp => hmem (by rw [hp]; decide)
    rw [sketches_of_not_declaring hn hd hp ht] at h
    rw [foldl_addMember_silent h fun q hq => .inl (tag_of_mem_annotationLeaves hq)]
    unfold Direct.gather
    split <;> simp_all [memberRules]

/-! ### Types -/

def typeRules : List Rule := [.classInterface, .categoryInterface, .protocolDeclaration]

theorem read_of_mem_members (hn : n.Read) (hr : n.rule ∈ typeRules) {x : Node}
    (hx : x ∈ Direct.members n) : x.Read ∧ (x.rule ∈ memberRules ∨ x.rule ∉ declaring) := by
  obtain ⟨c, hc, hx⟩ := List.mem_flatMap.mp hx
  obtain ⟨hread, -, hrule⟩ := hn.part hc
  by_cases hlist : c.rule = .interfaceDeclarationList ∨ c.rule = .protocolDeclarationList
  · rw [if_pos hlist] at hx
    obtain ⟨hx, -, hrx⟩ := hread.part hx
    have hall : ∀ r ∈ ([.interfaceDeclarationList, .protocolDeclarationList] : List Rule),
        ∀ r' ∈ r.body.seen.flatMap Rule.leaves, r' ∈ memberRules ∨ r' ∉ declaring := by decide
    exact ⟨hx, hall c.rule (by simpa using hlist) _ hrx⟩
  · rw [if_neg hlist, List.mem_singleton] at hx
    subst hx
    have hall : ∀ r ∈ typeRules, ∀ r' ∈ r.body.seen.flatMap Rule.leaves,
        ¬ (r' = .interfaceDeclarationList ∨ r' = .protocolDeclarationList) →
          r' ∈ memberRules ∨ r' ∉ declaring := by decide
    exact ⟨hread, hall _ hr _ hrule hlist⟩

theorem flatMap_sketches_members (types : TypeReader) (t : Tag) (n : Node) :
    n.children.flatMap (sketches types { tag := t }) =
      (Direct.members n).flatMap (sketches types { tag := t }) := by
  rw [Direct.members, List.flatMap_assoc]
  refine List.flatMap_congr fun c _ => ?_
  by_cases hlist : c.rule = .interfaceDeclarationList ∨ c.rule = .protocolDeclarationList
  · rw [if_pos hlist]
    rcases hlist with hr | hr <;>
      rw [sketches_of_opens?_none (by rw [hr]; rfl) (by rw [hr]; rfl), leaves, hr] <;> rfl
  · rw [if_neg hlist, List.flatMap_singleton]

theorem tag_of_mem_member {x : Node} (hx : x.Read) (hr : x.rule ∈ memberRules ∨ x.rule ∉ declaring)
    (ht : t ≠ .protocolList) (h : s ∈ sketches types { tag := t } x) :
    s.kind.tag ≠ .categoryName ∧ (s.kind.tag = .protocolList → x.rule = .protocolList) := by
  obtain ⟨hopened, hquiet⟩ := tag_of_mem_sketches hx ht h
  by_cases hmem : x.rule ∈ memberRules
  · simp only [memberRules, List.mem_cons, List.not_mem_nil, or_false] at hmem
    rcases hmem with hr | hr | hr | hr | hr | hr
    · rw [hopened .protocolList (by rw [hr]; rfl), hr]; decide
    · rw [hopened .ivarList (by rw [hr]; rfl), hr]; decide
    · rw [hopened .property (by rw [hr]; rfl), hr]; decide
    · rw [hopened .method (by rw [hr]; rfl), hr]; decide
    all_goals
      rw [sketches_keyword hx (by rw [hr]; decide), Option.mem_toList, Option.map_eq_some_iff] at h
      obtain ⟨k, -, rfl⟩ := h
      simp [Kind.tag]
  · have hp : x.rule ≠ .protocolList := fun hp => hmem (by rw [hp]; decide)
    rw [hquiet (hr.resolve_left hmem) hp]
    simp

theorem exists_name? (hn : n.Read) (hr : n.rule ∈ typeRules) :
    ∃ name, Direct.name? n = some name := by
  have hkind : n.rule.kind = .branch := by
    have hall : ∀ r ∈ typeRules, r.kind = .branch := by decide
    exact hall _ hr
  unfold Direct.name?
  by_cases hp : n.rule = .protocolDeclaration
  · obtain ⟨x, hx⟩ := hn.exists_child? hkind .identifier (by rw [hp]; rfl)
    exact ⟨x.text, by rw [if_pos hp, Node.childText?, hx]; rfl⟩
  · have hall : ∀ r ∈ typeRules, r ≠ .protocolDeclaration → r.body.surely [.className] = true := by
      decide
    obtain ⟨x, hx⟩ := hn.exists_child? hkind .className (hall _ hr hp)
    obtain ⟨hread, hrule, -⟩ := hn.of_child? hx
    obtain ⟨y, hy⟩ := hread.exists_child? (by rw [hrule]; rfl) .identifier (by rw [hrule]; rfl)
    exact ⟨y.text, by rw [if_neg hp, hx, Option.bind_some, Node.childText?, hy]; rfl⟩

def declaredKind (n : Node) (name : String) : Kind :=
  match n.rule with
  | .categoryInterface => .categoryInterface (.valid name)
  | .protocolDeclaration => .protocolDeclaration (.valid name)
  | _ => .classInterface (.valid name)

structure HoldsType (types : TypeReader) (n : Node) (s : Sketch) : Prop where
  kind : ∀ name, Direct.name? n = some name → s.kind = declaredKind n name
  parts : ∃ t, t ≠ .protocolList ∧ s.parts =
    Sketch.leaf? .superclassName (n.child? .superclassName)
      ++ Sketch.leaf? .categoryName (n.child? .categoryName)
      ++ (Direct.members n).flatMap (sketches types { tag := t })

theorem sketches_type (types : TypeReader) (t : Tag) (hn : n.Read) (hr : n.rule ∈ typeRules) :
    ∃ s, sketches types { tag := t } n = [s] ∧ HoldsType types n s := by
  simp only [typeRules, List.mem_cons, List.not_mem_nil, or_false] at hr
  rw [← or_assoc] at hr
  rcases hr with hr | hr
  · rcases hr with hr | hr
    all_goals
      refine ⟨_, sketches_of_opens? hr rfl rfl rfl rfl (by rw [leaves, hr]), fun name hname => ?_,
        ⟨_, ?_, congrArg _ (flatMap_sketches_members types _ n)⟩⟩
      · rw [Direct.name?, if_neg (by rw [hr]; decide)] at hname
        rw [Sketch.kind_mk, filled, hr, hname, declaredKind, hr]
        rfl
      · decide
  · have habsent : ∀ r, r ∉ Rule.protocolDeclaration.body.seen.flatMap Rule.leaves →
        n.child? r = none := by
      intro r hr'
      cases hc : n.child? r with
      | none => rfl
      | some x =>
        obtain ⟨hmem, rfl⟩ := Node.child?_eq_some hc
        exact absurd (hr ▸ (hn.part hmem).2.2) hr'
    have hleaves : leaves types { tag := .protocolDeclaration } n = [] := by rw [leaves, hr]
    refine ⟨_, sketches_of_opens? hr rfl rfl rfl rfl hleaves, fun name hname => ?_, ?_⟩
    · rw [Direct.name?, if_pos hr] at hname
      rw [Sketch.kind_mk, filled, hr, hname, declaredKind, hr]
      rfl
    · refine ⟨.protocolDeclaration, by decide, ?_⟩
      rw [habsent .superclassName (by decide), habsent .categoryName (by decide),
        ← flatMap_sketches_members]
      rfl

theorem category_eq (h : Sketch.StandsAt o s id) (hn : n.Read) (hr : n.rule ∈ typeRules)
    (hs : HoldsType types n s) :
    (o.childWith? id .categoryName).bind o.textOf? = n.childText? .categoryName := by
  obtain ⟨t, ht, hparts⟩ := hs.parts
  have hwith : s.partsWith .categoryName = Sketch.leaf? .categoryName (n.child? .categoryName) := by
    have hmembers : ((Direct.members n).flatMap (sketches types { tag := t })).filter
        (fun q => decide (q.kind.tag = .categoryName)) = [] := by
      refine List.filter_eq_nil_iff.mpr fun q hq => ?_
      obtain ⟨x, hx, hq⟩ := List.mem_flatMap.mp hq
      obtain ⟨hread, hrule⟩ := read_of_mem_members hn hr hx
      simpa using (tag_of_mem_member hread hrule ht hq).1
    rw [Sketch.partsWith, hparts, List.filter_append, hmembers, List.append_nil]
    cases n.child? .superclassName <;> cases n.child? .categoryName <;>
      simp [Sketch.leaf?, Kind.tag]
  rcases h.childWith? .categoryName with ⟨hnone, hpart⟩ | ⟨i, part, hsome, hpart, hi⟩
  · rw [Sketch.part?, hwith] at hpart
    rw [hnone, Node.childText?]
    cases hc : n.child? .categoryName with
    | none => rfl
    | some x => simp [hc, Sketch.leaf?] at hpart
  · rw [Sketch.part?, hwith] at hpart
    rw [hsome, Option.bind_some, hi.textOf?, Node.childText?]
    cases hc : n.child? .categoryName with
    | none => simp [hc, Sketch.leaf?] at hpart
    | some x =>
      obtain rfl : Sketch.leaf (.categoryName x.text) x = part := by
        simpa [hc, Sketch.leaf?] using hpart
      rfl

/-- A type is declared as its parse node spells it. -/
theorem typeOf_eq_direct (h : Sketch.StandsAt o s id) (hn : n.Read) (hr : n.rule ∈ typeRules)
    (hs : HoldsType types n s) (policy : Policy) (audited : Bool) (name : String) :
    (typeOf o policy audited id (.valid name) (Direct.typeKind n)).1.map TypeDeclaration.unsourced =
        [(Direct.typeOf types policy audited n name).declaration] ∧
      (typeOf o policy audited id (.valid name) (Direct.typeKind n)).2 =
        (Direct.typeOf types policy audited n name).audited := by
  obtain ⟨t, ht, hparts⟩ := hs.parts
  have hstand := Sketch.standAt_iff.mpr h.childrenOf
  rw [hparts, Sketch.standAt_append] at hstand
  obtain ⟨leaves, members, hids, hleaves, hmembers⟩ := hstand
  rw [Sketch.standAt_append] at hleaves
  obtain ⟨supers, categories, rfl, hsupers, hcategories⟩ := hleaves
  -- the superclass comes first, and the category is no member
  let start : Gathering :=
    { declaration := { kind := Direct.typeKind n, name, source := some id }, audited }
  have hsuper : (supers.foldl (addMember o policy) start).unsourced =
      { declaration :=
          { kind := Direct.typeKind n, name, superclass := n.childText? .superclassName },
        audited } := by
    rw [Node.childText?]
    cases hc : n.child? .superclassName with
    | none =>
      rw [hc] at hsupers
      obtain rfl : supers = [] := hsupers
      rfl
    | some x =>
      rw [hc] at hsupers
      obtain ⟨i, _, rfl, hi, rfl⟩ := hsupers
      rw [List.foldl_cons, List.foldl_nil, addMember, hi.kindOf?]
      rfl
  have hcategory := foldl_addMember_silent hcategories
    (fun q hq => .inr (tag_of_mem_leaf? (fun _ => rfl) hq)) policy
    (supers.foldl (addMember o policy) start)
  have hfold := Sketch.foldl_eq (q := Gathering.unsourced) (g := Direct.gather types policy)
    (fun x hx g ids hids =>
      foldl_addMember_eq_direct (read_of_mem_members hn hr hx).1 (read_of_mem_members hn hr hx).2 ht
        hids
        policy g) hmembers (supers.foldl (addMember o policy) start)
  rw [hsuper] at hfold
  have hall : (((o.childrenOf id).foldl (addMember o policy) start)).unsourced =
      Direct.typeOf types policy audited n name := by
    rw [hids, List.foldl_append, List.foldl_append, hcategory, hfold]
    rfl
  refine ⟨?_, ?_⟩
  · have hdecl := congrArg (fun g : Gathering => [g.declaration]) hall
    exact hdecl
  · have haudited := congrArg Gathering.audited hall
    exact haudited

theorem foldl_addType_eq_direct {ids : List Nat} (hn : n.Read)
    (hr : n.rule ∈ typeRules ∨ n.rule = .nonnullAuditMarker ∨ n.rule ∉ declaring)
    (hp : n.rule ≠ .protocolList) (h : Sketch.StandAt o (sketches types { tag := .header } n) ids)
    (policy : Policy) (s : List TypeDeclaration × Bool) :
    Prod.map (List.map TypeDeclaration.unsourced) (fun b => b) (ids.foldl (addType o policy) s) =
      Direct.addType types policy (Prod.map (List.map TypeDeclaration.unsourced) (fun b => b) s)
        n := by
  by_cases htype : n.rule ∈ typeRules
  · obtain ⟨q, hq, hholds⟩ := sketches_type types .header hn htype
    rw [hq] at h
    obtain ⟨i, _, rfl, hi, rfl⟩ := h
    obtain ⟨name, hname⟩ := exists_name? hn htype
    obtain ⟨hdecl, haudited⟩ := typeOf_eq_direct hi hn htype hholds policy s.2 name
    have hkind := hi.kindOf?.trans (congrArg some (hholds.kind name hname))
    have hcategory := category_eq hi hn htype hholds
    simp only [typeRules, List.mem_cons, List.not_mem_nil, or_false] at htype
    rw [List.foldl_cons, List.foldl_nil, addType, hkind, Direct.addType]
    rcases htype with hr | hr | hr <;>
      simp only [declaredKind, Direct.typeKind, hr, hcategory] at hdecl haudited ⊢ <;>
      simp only [hname, Prod.map, List.map_append, hdecl, haudited]
  · by_cases hmarker : n.rule = .nonnullAuditMarker
    · rw [sketches_keyword hn (by rw [hmarker]; decide)] at h
      rw [Direct.addType, hmarker]
      cases hk : Keyword.ofSpelling? n.text with
      | none =>
        rw [hk] at h
        obtain rfl : ids = [] := h
        rfl
      | some k =>
        rw [hk] at h
        obtain ⟨i, _, rfl, hi, rfl⟩ := h
        rw [List.foldl_cons, List.foldl_nil, addType, hi.kindOf?]
        rfl
    · have hd := (hr.resolve_left htype).resolve_left hmarker
      rw [sketches_of_not_declaring hn hd hp (by decide)] at h
      have hfold : ids.foldl (addType o policy) s = s := by
        refine Sketch.foldl_fixed h (fun q hq s i hi => ?_) s
        have htag := tag_of_mem_annotationLeaves hq
        rw [addType, hi.kindOf?]
        cases hk : q.kind <;> simp_all [Kind.tag]
      rw [hfold]
      unfold Direct.addType
      split <;> simp_all [typeRules]

/-- The declarations of a header that are read from its outline are the ones that its parse
tree spells. -/
theorem ofOutline_eq_direct {text : String} {tree : Node} (h : Header.parse text = .ok tree)
    (ho : ofTreeWith types tree = .ok o) (policy : Policy) :
    (ofOutline policy o).map TypeDeclaration.unsourced = Direct.ofTree types policy tree := by
  rw [ofTreeWith_eq types h] at ho
  obtain rfl := Except.ok.inj ho
  have hrules : ∀ r ∈ Rule.translationUnit.body.seen.flatMap Rule.leaves,
      (r ∈ typeRules ∨ r = .nonnullAuditMarker ∨ r ∉ declaring) ∧ r ≠ .protocolList := by decide
  have hfold := Sketch.foldl_eq
    (q := Prod.map (List.map TypeDeclaration.unsourced) (fun b : Bool => b))
    (g := Direct.addType types policy)
    (fun n hn s ids hids =>
      foldl_addType_eq_direct (Header.read_of_parse h n hn).1
        (hrules _ (Header.read_of_parse h n hn).2).1
        (hrules _ (Header.read_of_parse h n hn).2).2 hids policy s)
    (standAt_root _) ([], false)
  exact congrArg Prod.fst hfold

end HeaderBridge.Outline
