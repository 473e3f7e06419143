import HeaderBridge.Proofs.Declaration.Places
import HeaderBridge.Proofs.Declaration.Settings
import HeaderBridge.Proofs.Grammar.AuditedHeaders

/-! # Headers that are taken to be audited

To take a header to be audited is to put it between two audit markers. Every type
is lowered alike, and the markers leave the declarations of the header as they are.
-/

namespace HeaderBridge

open Grammar Grammar.Expr Outline

/-! ### Source text -/

namespace Declaration

theorem source_map_unsourced (ds : List TypeDeclaration) :
    source (ds.map TypeDeclaration.unsourced) = source ds := by
  have hlines : ∀ d : TypeDeclaration, d.unsourced.lines = d.lines := by
    intro d
    have hkind : d.unsourced.isProtocol = d.isProtocol := rfl
    have hivars : d.unsourced.ivars.flatMap Ivar.lines = d.ivars.flatMap Ivar.lines :=
      List.flatMap_map ..
    have hproperties (b : Bool) : d.unsourced.properties.flatMap (Property.lines b) =
        d.properties.flatMap (Property.lines b) := List.flatMap_map ..
    have hmethods (b : Bool) : d.unsourced.methods.flatMap (Method.lines b) =
        d.methods.flatMap (Method.lines b) := List.flatMap_map ..
    have hmembers : d.unsourced.memberLines = d.memberLines := by
      simp only [TypeDeclaration.memberLines, hkind, hivars, hproperties, hmethods]
    rw [TypeDeclaration.lines, hmembers]
    rfl
  rw [source, source, sourceLines, sourceLines, List.map_map]
  simp only [Function.comp_def, hlines]

end Declaration

theorem Header.convert_of_parse {text : String} {tree : Node} (h : parse text = .ok tree)
    (policy : Declaration.Policy) : convert policy text = .ok (Declaration.source
      (Declaration.Direct.ofTree (.respelled DeclaredType.defaultMaxDepth) policy tree)) := by
  obtain ⟨o, ho, hwith⟩ := Declaration.exists_outlineWithin h DeclaredType.defaultMaxDepth
  rw [← ofOutline_eq_direct h hwith, Declaration.source_map_unsourced]
  simp only [convert, outline, ho, bind, Except.bind]
  rfl

theorem Header.convert_of_not_units {text : String} (h : skipGap (units text.toList).1 ≠ [])
    (policy : Declaration.Policy) :
    ∃ f help, convert policy text = .error (.malformed f help) := by
  obtain ⟨f, help, hparse⟩ := parse_of_not_units h
  refine ⟨f, help, ?_⟩
  simp only [convert, outline, outlineWithin, hparse, bind, Except.bind]

namespace Declaration

/-! ### Types between audit markers -/

def Gathering.underAudit (s : Gathering) : Gathering := { s with audited := true }

namespace Direct

variable (types : TypeReader) (emit : Bool)

theorem ivars_underAudit (owner : String) (a : Bool) (access : AccessLevel) (ns : List Node) :
    ivars types ⟨⟨false, emit⟩, owner, true⟩ access ns =
      ivars types ⟨⟨true, emit⟩, owner, a⟩ access ns := by
  induction ns generalizing access with
  | nil => rfl
  | cons n ns ih =>
    have hfield : fieldIvars types ⟨⟨false, emit⟩, owner, true⟩ access n =
      fieldIvars types ⟨⟨true, emit⟩, owner, a⟩ access n := rfl
    simp only [ivars, ih, hfield]

/-- Nothing here closes an audited region. -/
structure Unclosed (n : Node) : Prop where
  self : n.text ≠ Keyword.auditEnd.spelling
  members : ∀ x ∈ members n, x.text ≠ Keyword.auditEnd.spelling

theorem ofSpelling?_ne_auditEnd {s : String} (h : s ≠ Keyword.auditEnd.spelling) :
    Keyword.ofSpelling? s ≠ some .auditEnd := by
  intro hs
  have hspelling := List.find?_some hs
  exact h (of_decide_eq_true hspelling).symm

theorem gather_underAudit (s : Gathering) {n : Node} (hn : n.text ≠ Keyword.auditEnd.spelling) :
    gather types ⟨false, emit⟩ s.underAudit n = (gather types ⟨true, emit⟩ s n).underAudit := by
  have hkeyword : ((Keyword.ofSpelling? n.text).map (afterKeyword s.underAudit)).getD s.underAudit =
      (((Keyword.ofSpelling? n.text).map (afterKeyword s)).getD s).underAudit := by
    have hne := ofSpelling?_ne_auditEnd hn
    cases hk : Keyword.ofSpelling? n.text with
    | none => rfl
    | some k =>
      cases k with
      | auditEnd => exact absurd hk hne
      | _ => rfl
  unfold gather
  split
  · rfl
  · simp only [Gathering.underAudit, ivars_underAudit types emit _ s.audited]
  · rfl
  · rfl
  · exact hkeyword
  · exact hkeyword
  · rfl

theorem foldl_gather_underAudit (s : Gathering) {ns : List Node}
    (hns : ∀ n ∈ ns, n.text ≠ Keyword.auditEnd.spelling) :
    ns.foldl (gather types ⟨false, emit⟩) s.underAudit =
      (ns.foldl (gather types ⟨true, emit⟩) s).underAudit := by
  induction ns generalizing s with
  | nil => rfl
  | cons n ns ih =>
    rw [List.foldl_cons, gather_underAudit types emit s (hns n List.mem_cons_self),
      ih _ fun x hx => hns x (List.mem_cons_of_mem _ hx), List.foldl_cons]

theorem addType_underAudit {n : Node} (hn : Unclosed n) (ds : List TypeDeclaration) (a : Bool) :
    addType types ⟨false, emit⟩ (ds, true) n =
      ((addType types ⟨true, emit⟩ (ds, a) n).1, true) := by
  have htype : ∀ name, typeOf types ⟨false, emit⟩ true n name =
      (typeOf types ⟨true, emit⟩ a n name).underAudit := fun name =>
    foldl_gather_underAudit types emit
      { declaration := { kind := typeKind n, name, superclass := n.childText? .superclassName },
        audited := a } hn.members
  have hmarker : ((Keyword.ofSpelling? n.text).map (auditedAfter true)).getD true = true := by
    have hne := ofSpelling?_ne_auditEnd hn.self
    cases hk : Keyword.ofSpelling? n.text with
    | none => rfl
    | some k =>
      cases k with
      | auditEnd => exact absurd hk hne
      | _ => rfl
  unfold addType
  cases name? n with
  | none =>
    split
    · rw [hmarker]
    all_goals rfl
  | some name =>
    simp only [htype, Gathering.underAudit]
    split
    · rw [hmarker]
    all_goals rfl

theorem foldl_addType_underAudit {ns : List Node} (hns : ∀ n ∈ ns, Unclosed n)
    (ds : List TypeDeclaration) (a : Bool) :
    (ns.foldl (addType types ⟨false, emit⟩) (ds, true)).1 =
      (ns.foldl (addType types ⟨true, emit⟩) (ds, a)).1 := by
  induction ns generalizing ds a with
  | nil => rfl
  | cons n ns ih =>
    rw [List.foldl_cons, addType_underAudit types emit (hns n List.mem_cons_self) ds a,
      List.foldl_cons]
    exact ih (fun x hx => hns x (List.mem_cons_of_mem _ hx)) _ _

theorem foldl_addType_of_not_type (policy : Policy) {ns : List Node}
    (hns : ∀ n ∈ ns, n.rule ∉ typeRules) (s : List TypeDeclaration × Bool) :
    (ns.foldl (addType types policy) s).1 = s.1 := by
  induction ns generalizing s with
  | nil => rfl
  | cons n ns ih =>
    rw [List.foldl_cons, ih fun x hx => hns x (List.mem_cons_of_mem _ hx)]
    have hn := hns n List.mem_cons_self
    unfold addType
    split <;> simp_all [typeRules]

end Direct

end Declaration

/-! ### Headers between audit markers -/

namespace Header

open Declaration Declaration.Direct

/-- The header between two audit markers. -/
def audited (text : String) : String :=
  "NS_ASSUME_NONNULL_BEGIN\n" ++ text ++ "\nNS_ASSUME_NONNULL_END\n"

theorem toList_audited (text : String) :
    (audited text).toList = openingLine ++ (text.toList ++ closingLine) := by
  have hclosing : closingLine = "\nNS_ASSUME_NONNULL_END\n".toList := by decide +kernel
  unfold audited openingLine
  rw [String.append_assoc, String.toList_append, String.toList_append, hclosing]

theorem infix_of_mem_units {cs : List Char} {n : Node} (h : n ∈ (units cs).2) :
    n.text.toList <:+: cs := by
  obtain ⟨a, b, hsplit⟩ := (Expr.reading_nodes (solid_skipGap cs) (reading_units cs) n h).1.split
  have hinfix : n.text.toList <:+: skipGap cs := by
    rw [hsplit, List.append_assoc]
    exact ⟨a, _, rfl⟩
  exact hinfix.trans (skipGap_suffix cs).isInfix

/-- No part of a header closes an audited region, if the word for it is nowhere in the text. -/
theorem unclosed_of_mem_units {text : String} {tree : Node} (h : parse text = .ok tree)
    (hend : ¬ Keyword.auditEnd.spelling.toList <:+: text.toList) :
    ∀ n ∈ (units text.toList).2, Unclosed n := by
  have hchildren : tree.children.map Node.unplaced = (units text.toList).2 ++ [.atEnd] := by
    rw [← Node.children_unplaced, (parse_eq_ok h).2]
    rfl
  have hne : ∀ {t : String}, t.toList <:+: text.toList → t ≠ Keyword.auditEnd.spelling := by
    rintro t ht rfl
    exact hend ht
  intro n hn
  have hinfix := infix_of_mem_units hn
  obtain ⟨m, hm, rfl⟩ := List.mem_map.mp (hchildren ▸ List.mem_append_left [Node.atEnd] hn)
  rw [Node.text_unplaced] at hinfix
  have hread := (read_of_parse h m hm).1
  refine ⟨by rw [Node.text_unplaced]; exact hne hinfix, fun x hx => ?_⟩
  rw [members_unplaced] at hx
  obtain ⟨y, hy, rfl⟩ := List.mem_map.mp hx
  rw [Node.text_unplaced]
  obtain ⟨c, hc, hy⟩ := List.mem_flatMap.mp hy
  have hpart := (hread.infix_child hc).trans hinfix
  split at hy
  · exact hne (((hread.part hc).1.infix_child hy).trans hpart)
  · rw [List.mem_singleton.mp hy]
    exact hne hpart

theorem ofTree_eq_foldl_units {types : TypeReader} (htypes : types.Placeless) (policy : Policy)
    {text : String} {tree : Node} (h : parse text = .ok tree) : ofTree types policy tree =
      (((units text.toList).2 ++ [Node.atEnd]).foldl (addType types policy) ([], false)).1 := by
  rw [← ofTree_unplaced htypes, (parse_eq_ok h).2]
  rfl

theorem ofTree_audited {types : TypeReader} (htypes : types.Placeless) (emit : Bool)
    {text : String} {tree tree' : Node} (h : parse text = .ok tree)
    (h' : parse (audited text) = .ok tree')
    (hend : ¬ Keyword.auditEnd.spelling.toList <:+: text.toList)
    (hsame : SameButIdle (units text.toList).2 (units (text.toList ++ closingLine)).2) :
    ofTree types ⟨true, emit⟩ tree = ofTree types ⟨false, emit⟩ tree' := by
  obtain ⟨common, tail, tail', hunits, hunits', htail, htail'⟩ := hsame
  have hidle : ∀ r ∈ Rule.endOfInput :: Rule.idle, r ∉ typeRules := by decide
  have hdrop : ∀ {ns : List Node}, (∀ n ∈ ns, n.rule ∈ Rule.idle) → ∀ policy s,
      ((common ++ ns ++ [Node.atEnd]).foldl (Direct.addType types policy) s).1 =
        (common.foldl (Direct.addType types policy) s).1 := by
    intro ns hns policy s
    rw [List.append_assoc, List.foldl_append]
    refine foldl_addType_of_not_type types policy (fun n hn => hidle _ ?_) _
    rcases List.mem_append.mp hn with hn | hn
    · exact List.mem_cons_of_mem _ (hns n hn)
    · rw [List.mem_singleton.mp hn]
      exact List.mem_cons_self
  have hopen : addType types ⟨false, emit⟩ ([], false) openingMarker = ([], true) := by
    have hword : Keyword.ofSpelling? openingMarker.text = some .auditBegin := by decide
    have hrule : openingMarker.rule = .nonnullAuditMarker := rfl
    simp only [Direct.addType, hrule, hword]
    rfl
  have hcommon : ∀ n ∈ common, Unclosed n := fun n hn =>
    unclosed_of_mem_units h hend n (hunits ▸ List.mem_append_left _ hn)
  calc ofTree types ⟨true, emit⟩ tree
      = ((common ++ tail ++ [Node.atEnd]).foldl (Direct.addType types ⟨true, emit⟩)
          ([], false)).1 := by
        rw [ofTree_eq_foldl_units htypes _ h, hunits]
    _ = (common.foldl (Direct.addType types ⟨true, emit⟩) ([], false)).1 := hdrop htail _ _
    _ = (common.foldl (Direct.addType types ⟨false, emit⟩) ([], true)).1 :=
        (foldl_addType_underAudit types emit hcommon [] false).symm
    _ = ((common ++ tail' ++ [Node.atEnd]).foldl (Direct.addType types ⟨false, emit⟩)
          ([], true)).1 :=
        (hdrop htail' _ _).symm
    _ = ofTree types ⟨false, emit⟩ tree' := by
        rw [ofTree_eq_foldl_units htypes _ h', toList_audited, (units_openingLine _).2, hunits',
          List.cons_append, List.foldl_cons, hopen]

/-- To take a header to be audited is to put it between audit markers: both ways the header is
malformed, or both ways it has the same source. This holds of every header that does not close an
audited region itself and has no class interface with nothing but blanks and comments behind its
colon. -/
theorem convert_audited (emit : Bool) (text : String)
    (hend : ¬ "NS_ASSUME_NONNULL_END".toList <:+: text.toList)
    (hcolons : ∀ cs, UnitAt text.toList cs → hasDanglingColon cs = false) :
    (∃ f help f' help',
      convert { assumeNonnull := true, emitAttributes := emit } text =
        .error (.malformed f help) ∧
      convert { assumeNonnull := false, emitAttributes := emit } (audited text) =
        .error (.malformed f' help')) ∨
    ∃ swift,
      convert { assumeNonnull := true, emitAttributes := emit } text = .ok swift ∧
      convert { assumeNonnull := false, emitAttributes := emit } (audited text) = .ok swift := by
  have hopening := (units_openingLine (text.toList ++ closingLine)).1
  rw [← toList_audited] at hopening
  rcases units_append_line hcolons with ⟨hrest, hrest'⟩ | ⟨⟨hrest, hrest'⟩, hsame⟩
  · obtain ⟨f, help, hplain⟩ := convert_of_not_units hrest ⟨true, emit⟩
    obtain ⟨f', help', haudited⟩ := convert_of_not_units (hopening ▸ hrest') ⟨false, emit⟩
    exact .inl ⟨f, help, f', help', hplain, haudited⟩
  · obtain ⟨tree, h⟩ := parse_of_units hrest
    obtain ⟨tree', h'⟩ := parse_of_units (hopening.trans hrest')
    have htrees :=
      ofTree_audited (TypeReader.respelled_placeless DeclaredType.defaultMaxDepth) emit h h'
      hend hsame
    refine .inr ⟨_, convert_of_parse h _, ?_⟩
    rw [convert_of_parse h', htrees]

def superclassHeader : String := "@interface A : B <P> // ;\n- (id)f;\n@end"

/-- A class with a superclass behind its colon and a comment in its head. -/
theorem convert_audited_superclass : ∃ swift,
    convert { assumeNonnull := true } superclassHeader = .ok swift ∧
      convert {} (audited superclassHeader) = .ok swift := by
  have hend : ¬ "NS_ASSUME_NONNULL_END".toList <:+: superclassHeader.toList := by decide +kernel
  have hcolons : ∀ cs, UnitAt superclassHeader.toList cs → hasDanglingColon cs = false := by
    have hall : ∀ cs ∈ superclassHeader.toList.tails, hasDanglingColon cs = false := by
      decide +kernel
    exact fun cs h => hall cs ((List.mem_tails _ _).mpr h.suffix)
  have hok : (convert { assumeNonnull := true } superclassHeader).isOk = true := by decide +kernel
  rcases convert_audited false _ hend hcolons with ⟨f, help, f', help', herror, -⟩ | h
  · rw [herror] at hok
    cases hok
  · exact h

def danglingHeader : String := "@interface A : // ; @end"

/-- Where a class interface has nothing but a comment behind its colon, the closing marker is
taken for the superclass. -/
theorem closing_marker_taken_for_superclass :
    ∃ f help, convert { assumeNonnull := true } danglingHeader = .ok "class A \x7b\n\x7d\n" ∧
      convert {} (audited danglingHeader) = .error (.malformed f help) := by
  have hplain : (convert { assumeNonnull := true } danglingHeader).toOption =
      some "class A \x7b\n\x7d\n" := by decide +kernel
  have hrest : skipGap (units (audited danglingHeader).toList).1 ≠ [] := by decide +kernel
  obtain ⟨f, help, haudited⟩ := convert_of_not_units hrest {}
  refine ⟨f, help, ?_, haudited⟩
  cases hconvert : convert { assumeNonnull := true } danglingHeader with
  | error e => simp [hconvert, Except.toOption] at hplain
  | ok swift =>
    rw [hconvert] at hplain
    exact congrArg Except.ok (Option.some.inj hplain)

end Header

end HeaderBridge
