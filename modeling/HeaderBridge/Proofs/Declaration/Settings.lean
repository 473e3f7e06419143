import HeaderBridge.Proofs.Declaration.Refinement
import HeaderBridge.Proofs.Grammar.Occurrences

/-! # What stands in front of a declaration

The markers of a header change how the declarations behind them are read, and
nothing else of a header does: a declaration follows from its parse node and the
markers in front of it.
-/

namespace HeaderBridge.Declaration

open Grammar Outline

/-- What the markers in front of a member say about it. -/
structure Setting where
  audited : Bool
  optionalSection : Bool := false

namespace Setting

def place (s : Setting) (policy : Policy) (owner : String) : Place :=
  { policy, owner, audited := s.audited }

def afterKeyword (isProtocol : Bool) (s : Setting) : Keyword → Setting
  | .atOptional => { s with optionalSection := isProtocol }
  | .atRequired => { s with optionalSection := false }
  | k => { s with audited := auditedAfter s.audited k }

def after (isProtocol : Bool) (s : Setting) (n : Node) : Setting :=
  match n.rule with
  | .protocolSectionKeyword | .nonnullAuditMarker =>
    ((Keyword.ofSpelling? n.text).map (s.afterKeyword isProtocol)).getD s
  | _ => s

/-- The members of a type, each with what the markers in front of it say. -/
def along (isProtocol : Bool) (s : Setting) : List Node → List (Setting × Node)
  | [] => []
  | n :: ns => (s, n) :: along isProtocol (s.after isProtocol n) ns

theorem map_snd_along (isProtocol : Bool) (s : Setting) (ns : List Node) :
    (s.along isProtocol ns).map Prod.snd = ns := by
  induction ns generalizing s with
  | nil => rfl
  | cons n ns ih => rw [along, List.map_cons, ih]

theorem mem_of_mem_along {isProtocol : Bool} {s : Setting} {ns : List Node} {x : Setting × Node}
    (h : x ∈ s.along isProtocol ns) : x.2 ∈ ns := by
  rw [← map_snd_along isProtocol s ns]
  exact List.mem_map_of_mem h

theorem exists_mem_along {isProtocol : Bool} (s : Setting) {ns : List Node} {n : Node}
    (hn : n ∈ ns) : ∃ s', (s', n) ∈ s.along isProtocol ns := by
  rw [← map_snd_along isProtocol s ns] at hn
  obtain ⟨⟨s', m⟩, hmem, rfl⟩ := List.mem_map.mp hn
  exact ⟨s', hmem⟩

end Setting

def Gathering.setting (g : Gathering) : Setting := ⟨g.audited, g.optionalSection⟩

namespace Direct

/-! ### The members of a type -/

section Members

variable (types : TypeReader) (policy : Policy) (owner : String)

def protocolsAt (n : Node) : List String :=
  if n.rule = .protocolList then
    ((n.childrenOf .protocolName).map Node.text).map Lowering.protocolName
  else []

def ivarsAt (x : Setting × Node) : List Ivar :=
  if x.2.rule = .instanceVariables then
    ivars types (x.1.place policy owner) .privateAccess (ivarEntries x.2)
  else []

def propertiesAt (x : Setting × Node) : List Property :=
  if x.2.rule = .propertyDeclaration then
    (property? types (x.1.place policy owner) x.1.optionalSection x.2).toList
  else []

def methodsAt (x : Setting × Node) : List Method :=
  if x.2.rule = .methodDeclaration then
    (method? types (x.1.place policy owner) x.1.optionalSection x.2).toList
  else []

end Members

def gatherAll (types : TypeReader) (policy : Policy) (g : Gathering) (ns : List Node) : Gathering :=
  let d := g.declaration
  let xs := g.setting.along d.isProtocol ns
  let s := ns.foldl (Setting.after d.isProtocol) g.setting
  { declaration := { d with
      protocols := d.protocols ++ ns.flatMap protocolsAt
      ivars := d.ivars ++ xs.flatMap (ivarsAt types policy d.name)
      properties := d.properties ++ xs.flatMap (propertiesAt types policy d.name)
      methods := d.methods ++ xs.flatMap (methodsAt types policy d.name) }
    audited := s.audited
    optionalSection := s.optionalSection }

theorem afterKeyword_eq (g : Gathering) (k : Keyword) :
    afterKeyword g k = { g with
      audited := (g.setting.afterKeyword g.declaration.isProtocol k).audited
      optionalSection := (g.setting.afterKeyword g.declaration.isProtocol k).optionalSection } := by
  cases k <;> rfl

theorem gather_eq (types : TypeReader) (policy : Policy) (g : Gathering) (n : Node) :
    gather types policy g n = gatherAll types policy g [n] := by
  have hkeyword : (((Keyword.ofSpelling? n.text).map (afterKeyword g)).getD g) = { g with
      audited := (((Keyword.ofSpelling? n.text).map
        (g.setting.afterKeyword g.declaration.isProtocol)).getD g.setting).audited
      optionalSection := (((Keyword.ofSpelling? n.text).map
        (g.setting.afterKeyword g.declaration.isProtocol)).getD g.setting).optionalSection } := by
    cases Keyword.ofSpelling? n.text with
    | none => rfl
    | some k => exact afterKeyword_eq g k
  simp only [gatherAll, Setting.along, List.flatMap_cons, List.flatMap_nil, List.append_nil,
    List.foldl_cons, List.foldl_nil, protocolsAt, ivarsAt, propertiesAt, methodsAt]
  unfold gather Setting.after
  split <;> simp_all [Gathering.setting, Setting.place]

theorem foldl_gather (types : TypeReader) (policy : Policy) (g : Gathering) (ns : List Node) :
    ns.foldl (gather types policy) g = gatherAll types policy g ns := by
  induction ns generalizing g with
  | nil => simp [gatherAll, Setting.along, Gathering.setting]
  | cons n ns ih =>
    rw [List.foldl_cons, ih, gather_eq]
    simp [gatherAll, Setting.along, Gathering.setting, TypeDeclaration.isProtocol]

/-! ### The types of a header -/

def auditedBehind (audited : Bool) (marker : Node) : Bool :=
  ((Keyword.ofSpelling? marker.text).map (auditedAfter audited)).getD audited

/-- The nodes of a list that are no audit markers, each with whether it is audited. -/
def audits (audited : Bool) : List Node → List (Bool × Node)
  | [] => []
  | n :: ns =>
    if n.rule = .nonnullAuditMarker then audits (auditedBehind audited n) ns
    else (audited, n) :: audits audited ns

variable {n : Node}

theorem audits_append_left {ms : List Node} (h : ∀ m ∈ ms, m.rule = .nonnullAuditMarker) (a : Bool)
    (ns : List Node) : audits a (ms ++ ns) = audits (ms.foldl auditedBehind a) ns := by
  induction ms generalizing a with
  | nil => rfl
  | cons m ms ih =>
    rw [List.cons_append, audits, if_pos (h m List.mem_cons_self),
      ih fun x hx => h x (List.mem_cons_of_mem _ hx)]
    rfl

theorem map_snd_audits (a : Bool) (ns : List Node) :
    (audits a ns).map Prod.snd = ns.filter (·.rule ≠ .nonnullAuditMarker) := by
  induction ns generalizing a with
  | nil => rfl
  | cons n ns ih =>
    rw [audits]
    by_cases hr : n.rule = .nonnullAuditMarker
    · rw [if_pos hr, ih, List.filter_cons_of_neg (by simp [hr])]
    · rw [if_neg hr, List.map_cons, ih, List.filter_cons_of_pos (by simp [hr])]

/-- Only audit markers change whether a member is audited. -/
theorem audited_after (hn : n.Read) (isProtocol : Bool) (s : Setting) :
    (s.after isProtocol n).audited =
      if n.rule = .nonnullAuditMarker then auditedBehind s.audited n else s.audited := by
  have hkeyword : ∀ k, (s.afterKeyword isProtocol k).audited = auditedAfter s.audited k := by
    intro k
    cases k <;> rfl
  by_cases hmarker : n.rule = .nonnullAuditMarker
  · rw [if_pos hmarker]
    unfold Setting.after auditedBehind
    rw [hmarker]
    cases Keyword.ofSpelling? n.text with
    | none => rfl
    | some k => exact hkeyword k
  · rw [if_neg hmarker]
    by_cases hsection : n.rule = .protocolSectionKeyword
    · have htext := hn.text_mem (by rw [hsection]; rfl) (by rw [hsection]; rfl)
      unfold Setting.after
      rw [hsection]
      rcases List.mem_pair.mp htext with htext | htext <;> rw [htext] <;> rfl
    · unfold Setting.after
      split <;> simp_all

theorem foldl_after_audited {ns : List Node} (hns : ∀ n ∈ ns, n.Read) (isProtocol : Bool)
    (s : Setting) : (ns.foldl (Setting.after isProtocol) s).audited =
      (ns.filter (·.rule ∈ [Rule.nonnullAuditMarker])).foldl auditedBehind s.audited := by
  induction ns generalizing s with
  | nil => rfl
  | cons n ns ih =>
    rw [List.foldl_cons, ih fun x hx => hns x (List.mem_cons_of_mem _ hx),
      audited_after (hns n List.mem_cons_self)]
    by_cases hmarker : n.rule = .nonnullAuditMarker <;> simp [hmarker]

theorem occurrences_type (hn : n.Read) (hr : n.rule ∈ typeRules) {rs : List Rule}
    (hrs : ∀ r ∈ rs, r.nesting = 1 ∨ r.nesting = 3) :
    n.occurrences rs = (if n.rule ∈ rs then [n] else []) ++ (members n).filter (·.rule ∈ rs) := by
  have hpart : ∀ c ∈ n.children, c.occurrences rs =
      (if c.rule = .interfaceDeclarationList ∨ c.rule = .protocolDeclarationList then c.children
        else [c]).filter (·.rule ∈ rs) := by
    intro c hc
    obtain ⟨hread, -, hrule⟩ := hn.part hc
    have hnesting : ∀ r ∈ typeRules, ∀ r' ∈ r.body.seen.flatMap Rule.leaves,
        r' = .interfaceDeclarationList ∨ r' = .protocolDeclarationList ∨ 3 ≤ r'.nesting := by decide
    have hlists : ∀ r ∈ ([.interfaceDeclarationList, .protocolDeclarationList] : List Rule),
        r.nesting = 2 ∧ ∀ r' ∈ r.body.seen.flatMap Rule.leaves, 3 ≤ r'.nesting := by decide
    by_cases hlist : c.rule = .interfaceDeclarationList ∨ c.rule = .protocolDeclarationList
    · rw [if_pos hlist]
      obtain ⟨htwo, hparts⟩ := hlists c.rule (by simpa using hlist)
      refine hread.occurrences_eq_filter (fun hc => ?_) fun x hx r hr => ?_
      · have := hrs _ hc
        omega
      · have := hparts _ (hread.part hx).2.2
        have := hrs r hr
        omega
    · rw [if_neg hlist, hread.occurrences_eq_self]
      · by_cases hc : c.rule ∈ rs <;> simp [hc]
      · have hdeep : 3 ≤ c.rule.nesting := by
          rcases hnesting _ hr _ hrule with h | h | h
          · exact absurd (.inl h) hlist
          · exact absurd (.inr h) hlist
          · exact h
        intro r hr
        have := hrs r hr
        omega
  rw [Node.occurrences_eq, members, List.filter_flatMap, List.flatMap_congr hpart]

theorem occurrences_members (hn : n.Read) (hr : n.rule ∈ typeRules) {rs : List Rule}
    (hrs : ∀ r ∈ rs, r.nesting = 3) : n.occurrences rs = (members n).filter (·.rule ∈ rs) := by
  have hself : n.rule ∉ rs := by
    intro h
    have hall : ∀ r ∈ typeRules, r.nesting ≠ 3 := by decide
    exact hall _ hr (hrs _ h)
  rw [occurrences_type hn hr fun r hr => .inr (hrs r hr), if_neg hself, List.nil_append]

def typeAt (types : TypeReader) (policy : Policy) (x : Bool × Node) : TypeDeclaration :=
  (typeOf types policy x.1 x.2 ((name? x.2).getD "")).declaration

/-- The rules of types and of the markers between them. -/
def auditedTypes : List Rule := .nonnullAuditMarker :: typeRules

/-- A header declares the types that stand in it, each as the markers in front of it say. -/
theorem foldl_addType (types : TypeReader) (policy : Policy) {ns : List Node}
    (hns : ∀ n ∈ ns, n.Read ∧ (n.rule ∈ typeRules ∨ 3 ≤ n.rule.nesting))
    (s : List TypeDeclaration × Bool) :
    (ns.foldl (addType types policy) s).1 =
      s.1 ++ (audits s.2 (ns.flatMap (Node.occurrences auditedTypes))).map
      (typeAt types policy) := by
  induction ns generalizing s with
  | nil => simp [audits]
  | cons n ns ih =>
    obtain ⟨hn, hr⟩ := hns n List.mem_cons_self
    rw [List.foldl_cons, ih fun x hx => hns x (List.mem_cons_of_mem _ hx), List.flatMap_cons]
    have hnesting : ∀ r ∈ auditedTypes, r.nesting = 1 ∨ r.nesting = 3 := by decide
    by_cases htype : n.rule ∈ typeRules
    · obtain ⟨name, hname⟩ := exists_name? hn htype
      have hself : n.rule ∈ auditedTypes := List.mem_cons_of_mem _ htype
      have hmarker : n.rule ≠ .nonnullAuditMarker := by
        intro h
        rw [h] at htype
        exact absurd htype (by decide)
      have hfilter : (members n).filter (·.rule ∈ auditedTypes) =
          (members n).filter (·.rule ∈ [Rule.nonnullAuditMarker]) := by
        refine List.filter_congr fun x hx => ?_
        have hnot : ∀ r ∈ typeRules, r ∉ memberRules ∧ r ∈ declaring := by decide
        have hx : x.rule ∉ typeRules := fun h =>
          (read_of_mem_members hn htype hx).2.elim (hnot _ h).1 (fun hd => hd (hnot _ h).2)
        simp [auditedTypes, hx]
      have hadd : addType types policy s n =
          (s.1 ++ [typeAt types policy (s.2, n)], (typeOf types policy s.2 n name).audited) := by
        have hcases : n.rule = .classInterface ∨ n.rule = .categoryInterface ∨
          n.rule = .protocolDeclaration := by simpa [typeRules] using htype
        rcases hcases with h | h | h <;> simp [addType, h, hname, typeAt]
      have haudited : (typeOf types policy s.2 n name).audited =
          ((members n).filter (·.rule ∈ [Rule.nonnullAuditMarker])).foldl auditedBehind s.2 := by
        rw [typeOf, foldl_gather]
        exact foldl_after_audited (fun x hx => (read_of_mem_members hn htype hx).1) _ _
      rw [hadd, occurrences_type hn htype hnesting, if_pos hself, hfilter, List.singleton_append,
        List.cons_append, audits, if_neg hmarker, audits_append_left, haudited]
      · simp
      · intro m hm
        simpa using (List.mem_filter.mp hm).2
    · have hdeep := hr.resolve_left htype
      rw [hn.occurrences_eq_self fun r hr => by have := hnesting r hr; omega]
      by_cases hmarker : n.rule = .nonnullAuditMarker
      · have hself : n.rule ∈ auditedTypes := by simp [auditedTypes, hmarker]
        rw [if_pos hself, audits_append_left (by simpa using hmarker)]
        simp [addType, hmarker, auditedBehind]
      · have hself : n.rule ∉ auditedTypes := by simp [auditedTypes, hmarker, htype]
        have hadd : addType types policy s n = s := by
          unfold addType
          split <;> simp_all [typeRules]
        rw [if_neg hself, hadd, List.nil_append]

theorem ofTree_eq (types : TypeReader) (policy : Policy) {text : String} {tree : Node}
    (h : Header.parse text = .ok tree) :
    ofTree types policy tree =
      (audits false (tree.occurrences auditedTypes)).map (typeAt types policy) := by
  have hrules : ∀ r ∈ Rule.translationUnit.body.seen.flatMap Rule.leaves,
      r ∈ typeRules ∨ 3 ≤ r.nesting := by decide
  have htop : tree.rule ∉ auditedTypes := by
    rw [(parse_translationUnit h).1]
    decide
  rw [ofTree, foldl_addType types policy fun n hn =>
    ⟨(Header.read_of_parse h n hn).1, hrules _ (Header.read_of_parse h n hn).2⟩]
  rw [Node.occurrences_eq, if_neg htop]
  rfl

theorem map_snd_audits_types (a : Bool) (tree : Node) :
    (audits a (tree.occurrences auditedTypes)).map Prod.snd = tree.occurrences typeRules := by
  have hsub : ∀ r ∈ typeRules, r ∈ auditedTypes := by decide
  rw [map_snd_audits, ← Node.filter_occurrences hsub]
  refine List.filter_congr fun n hn => ?_
  have hrule := (Node.within_of_mem_occurrences tree hn).2
  have hall : ∀ r ∈ auditedTypes, (decide (r ≠ .nonnullAuditMarker)) = decide (r ∈ typeRules) := by
    decide
  exact hall _ hrule

theorem read_of_mem_audits {text : String} {tree : Node} (h : Header.parse text = .ok tree)
    (a : Bool) {x : Bool × Node} (hx : x ∈ audits a (tree.occurrences auditedTypes)) :
    x.2.Read ∧ x.2.rule ∈ typeRules := by
  have hmem : x.2 ∈ tree.occurrences typeRules :=
    map_snd_audits_types a tree ▸ List.mem_map_of_mem hx
  have htop : tree.rule ∉ typeRules := by
    rw [(parse_translationUnit h).1]
    decide
  rw [Node.occurrences_eq, if_neg htop, List.nil_append, List.mem_flatMap] at hmem
  obtain ⟨c, hc, hmem⟩ := hmem
  obtain ⟨hwithin, hrule⟩ := Node.within_of_mem_occurrences c hmem
  exact ⟨(Header.read_of_parse h c hc).1.within hwithin, hrule⟩

end Direct

theorem exists_outlineWithin {text : String} {tree : Node} (h : Header.parse text = .ok tree)
    (maxDepth : Nat) : ∃ o, Header.outlineWithin maxDepth text = .ok o ∧
      ofTreeWith (.respelled maxDepth) tree = .ok o := by
  have ho := ofTreeWith_eq (.respelled maxDepth) h
  refine ⟨_, ?_, ho⟩
  simp only [Header.outlineWithin, h, bind, Except.bind, ofTree, ho]
  rfl

/-- What holds of the declaration of each type of a header, its source apart, holds of the
declarations of the outline, in source order. -/
theorem forall₂_ofOutline {types : TypeReader} {text : String} {tree : Node} {o : Outline}
    (h : Header.parse text = .ok tree) (ho : ofTreeWith types tree = .ok o) (policy : Policy)
    {R : Bool × Node → TypeDeclaration → Prop}
    (hR : ∀ x, x.2.Read → x.2.rule ∈ typeRules → R x (Direct.typeAt types policy x)) :
    List.Forall₂ (fun x d => R x d.unsourced)
      (Direct.audits false (tree.occurrences Direct.auditedTypes)) (ofOutline policy o) := by
  rw [← List.forall₂_map_right_iff, ofOutline_eq_direct h ho, Direct.ofTree_eq types policy h,
    List.forall₂_map_right_iff, List.forall₂_same]
  intro x hx
  obtain ⟨hread, hrule⟩ := Direct.read_of_mem_audits h false hx
  exact hR x hread hrule

end HeaderBridge.Declaration
