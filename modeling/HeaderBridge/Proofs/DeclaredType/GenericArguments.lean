import HeaderBridge.Proofs.DeclaredType.Depth
import HeaderBridge.Proofs.DeclaredType.RoundTrip
import HeaderBridge.Proofs.Outline.Respelling
import Mathlib.Tactic.Choose

/-! # Arguments of generic types

Arguments between angle brackets denote the types that they denote on their own,
unless all of them are single words. Then they are taken for names, whatever
these words denote elsewhere.
-/

namespace HeaderBridge

open Grammar Grammar.Expr

/-! ### Arguments behind a gap -/

namespace Grammar.Expr

variable {cs : List Char}

theorem shape_many_of_none {a : Expr} (h : a.shape cs = none) :
    (many a).shape cs = some (skipGap cs, []) := by
  rw [shape, reading_many, shape_eq_none.mp h]
  rfl

theorem shape_typeSpecifier_none (h : startsIdent cs = false) :
    (Expr.call .typeSpecifier).shape cs = none := by
  by_contra hne
  obtain ⟨⟨c, ns⟩, hread⟩ :=
    Option.ne_none_iff_exists'.mp fun hnone => hne (shape_eq_none.mpr hnone)
  obtain ⟨s, rfl, hs⟩ := specifiersReread _ _ _ _ (Nat.le_refl _) hread
  rw [startsIdent_append hs.start c] at h
  cases h

theorem shape_typePrefix_gap (h : ¬ Solid cs) : (Expr.call .typePrefix).shape cs = none := by
  have hrun : identRun cs = [] := by
    by_contra hne
    exact h (firm_of_identRun_ne_nil hne).solid
  rw [shape_typePrefix, hrun]
  rfl

theorem shape_base_gap (h : ¬ Solid cs) : base.shape cs =
    ((Expr.call .typeSpecifier).shape (skipGap cs)).andThen (many (.call .typePrefix)).shape := by
  rw [base, shape_seq, shape_seq, shape_many_of_none (shape_typePrefix_gap h),
    Reading.some_nil_andThen]

theorem prefixRule?_not_keyword {w : List Char} {r : Rule} (h : prefixRule? (.ofList w) = some r) :
    String.ofList w ∉ scalarStarts ∧ String.ofList w ∉ Rule.tagKeyword.spellings := by
  have hall : ∀ r ∈ [Rule.arcBehaviourSpecifier, .nullabilitySpecifier, .typeQualifier],
      ∀ u ∈ r.spellings, u ∉ scalarStarts ∧ u ∉ Rule.tagKeyword.spellings := by decide
  exact hall r (List.mem_of_find?_eq_some h) _ (by simpa using List.find?_some h)

/-- A word around a type is taken for the name of a type only where no type name is read: nothing
but more such words, stars or angle brackets follow it. -/
theorem shape_base_word {r : Rule} {c : List Char} {ns : List Node} (hcs : Solid cs)
    (hword : prefixRule? (.ofList (identRun cs)) = some r)
    (h : ((Expr.call .typeSpecifier).shape cs).andThen (many (.call .typePrefix)).shape =
      some (c, ns)) (hc : startsIdent c = false) : base.shape cs = none := by
  have hfirst : (Expr.call .typePrefix).shape cs =
      some (skipGap (identRest cs), [.token r (identRun cs)]) := by
    rw [shape_typePrefix, hword]
    rfl
  have hstop : startsIdent ((Expr.call .typePrefix).rounds (skipGap (identRest cs))).1 = false := by
    by_cases hangle : (skipGap (identRest cs)).head? = some '<'
    · obtain ⟨ds, hds⟩ := List.head?_eq_some_iff.mp hangle
      have hnone : (Expr.call .typePrefix).shape ('<' :: ds) = none := by
        rw [shape_typePrefix]
        rfl
      rw [hds, rounds_of_none hnone]
      rfl
    · obtain ⟨hchars, hstart, -⟩ := prefixRule?_spelling hword
      obtain ⟨hscalar, htag⟩ := prefixRule?_not_keyword hword
      have hname := name_spells ⟨hstart, hchars⟩ hscalar (identRest cs)
        ⟨ends_identRest cs, hangle, fun hmem => absurd hmem htag⟩
      rw [identRun_append_identRest] at hname
      rw [hname, Reading.some_andThen, shape_many rfl (solid_skipGap _), Option.map_some,
        Option.some.injEq] at h
      rw [congrArg Prod.fst h]
      exact hc
  rw [base, shape_seq, shape_seq, shape_many rfl hcs, rounds_of_some rfl hfirst,
    Reading.some_andThen, shape_typeSpecifier_none hstop]
  rfl

theorem shape_typeArgument : (Expr.call .typeArgument).shape cs =
    ((base.shape cs).andThen (opt (.call .pointer)).shape).map
      fun y => (y.1, [.branch .typeArgument y.2]) := by
  rw [shape_branch rfl, Rule.typeArgument_body, shape_seq]

theorem shape_typeName_none (h : base.shape cs = none) : (Expr.call .typeName).shape cs = none := by
  have hbody : Rule.typeName.body =
      .seq (.call .specifierQualifierList) (.opt (.call .abstractDeclarator)) := rfl
  have hlist : Rule.specifierQualifierList.body = base := rfl
  rw [shape_branch rfl, hbody, shape_seq, shape_branch rfl, hlist, h]
  rfl

theorem startsIdent_of_pointer_end {ns : List Node} (hcs : Solid cs)
    (h : (opt (.call .pointer)).shape cs = some ([], ns)) : startsIdent cs = false := by
  by_cases hstar : cs.head? = some '*'
  · rw [startsIdent, hstar]
    rfl
  · rw [shape_opt hcs, shape_pointer_none hstar] at h
    obtain ⟨rfl, -⟩ := Prod.mk.inj (Option.some.inj h)
    rfl

/-- If the text behind the gap is a type name, the gap before an argument makes no difference. -/
theorem shape_typeArgument_gap {ns : List Node}
    (h : (Expr.call .typeArgument).shape cs = some ([], ns))
    (hname : (Expr.call .typeName).shape (skipGap cs) ≠ none) :
    (Expr.call .typeArgument).shape (skipGap cs) = some ([], ns) := by
  by_cases hsolid : Solid cs
  · rwa [hsolid.skipGap]
  have hgap := shape_base_gap hsolid
  have hbase : base.shape (skipGap cs) = base.shape cs := by
    cases hword : prefixRule? (.ofList (identRun (skipGap cs))) with
    | none =>
      have hnone : (Expr.call .typePrefix).shape (skipGap cs) = none := by
        rw [shape_typePrefix, hword]
        rfl
      rw [hgap, base, shape_seq, shape_seq, shape_many_of_none hnone, skipGap_skipGap,
        Reading.some_nil_andThen]
    | some r =>
      -- the word would be the name of the argument, but in front of a type name it is no name
      refine absurd (shape_typeName_none ?_) hname
      rw [shape_typeArgument] at h
      obtain ⟨⟨c, ms⟩, hread, hy⟩ := Option.map_eq_some_iff.mp h
      obtain ⟨rfl, -⟩ := Prod.mk.inj hy
      obtain ⟨c, ns₁, ns₂, h₁, h₂, -⟩ := Reading.andThen_eq_some.mp hread
      exact shape_base_word (solid_skipGap cs) hword (hgap.symm.trans h₁)
        (startsIdent_of_pointer_end (solid_of_shape h₁) h₂)
  rw [shape_typeArgument, hbase, ← shape_typeArgument]
  exact h

end Grammar.Expr

namespace DeclaredType

/-! ### Texts of arguments -/

def isArgument (a : String) : Bool :=
  match parse .typeArgument a with
  | .ok [n] => n.text = a
  | _ => false

theorem isArgument_iff {a : String} :
    isArgument a = true ↔ ∃ n, parse .typeArgument a = .ok [n] ∧ n.text = a := by
  unfold isArgument
  split
  · next n hparse => simp [hparse]
  · next hother => simpa using fun n hparse => absurd hparse (hother n)

def loneWord? (a : String) : Option String :=
  let cs := skipGap a.toList
  if startsIdent cs && (skipGap (identRest cs)).isEmpty then some (.ofList (identRun cs)) else none

def ofWord (w : String) : DeclaredType :=
  if w = "id" then object [] else if w = "void" then void else named w

theorem named_eq_ofWord {w : String} : named w = ofWord w ↔ w ≠ "id" ∧ w ≠ "void" := by
  by_cases hid : w = "id"
  · simp [ofWord, hid]
  · by_cases hvoid : w = "void" <;> simp [ofWord, hid, hvoid]

/-- The argument that a text consists of, with gaps around it. Its node denotes what the text
denotes. -/
structure ArgumentPiece (a : String) (x : List Char) (node : Node) : Prop where
  around : ∃ g h, a.toList = g ++ (x ++ h) ∧ IsGap g ∧ IsGap h
  text : ArgumentText x [node]
  read : ∀ d, readArgument (.direct d) node = readWithin d a

theorem ArgumentPiece.rule {a : String} {x : List Char} {node : Node} (h : ArgumentPiece a x node) :
    node.rule = .typeArgument := by
  obtain ⟨base, declarator, hnode, -⟩ := h.text.whole
  rw [List.singleton_inj.mp hnode]
  rfl

theorem exists_argumentPiece {a : String} (ha : isArgument a = true)
    (hclosed : Outline.endsInComment a = false) (hread : (parseTypeName? a).isSome = true) :
    ∃ x node, ArgumentPiece a x node := by
  obtain ⟨n, hparse, htext⟩ := isArgument_iff.mp ha
  obtain ⟨cs, hreading⟩ := parse_eq_ok hparse
  have hend : cs = [] := by
    have hall := Rule.reading_text (.inl rfl) hreading
    rw [Node.text_unplaced, htext] at hall
    exact List.self_eq_append_right.mp hall
  subst hend
  have hname : (Expr.call .typeName).shape (skipGap a.toList) ≠ none := by
    obtain ⟨m, hm⟩ := Option.isSome_iff_exists.mp hread
    obtain ⟨c, hc, -⟩ := parseTypeName?_eq_some hm
    rw [shape_of_reading (by rw [reading_call]; exact hc)]
    exact Option.some_ne_none _
  rw [← reading_call] at hreading
  have hhere := shape_of_reading hreading
  rw [skipGap_nil] at hhere
  obtain ⟨⟨c, ns⟩, hgap, hy⟩ := Option.map_eq_some_iff.mp (shape_typeArgument_gap hhere hname)
  obtain ⟨hc, hns⟩ := Prod.mk.inj hy
  obtain ⟨x, r, hx, hreach, htext⟩ := argument_reading (specifiersReread _) (solid_skipGap _) hgap
  have hr : skipGap r = [] := by rw [← hreach.skipGap_eq]; exact hc
  obtain ⟨g, hg, hgap⟩ := exists_gap_append hx (htext.firm.append r).ne_nil
  rw [hns, List.map_singleton] at htext
  obtain ⟨base, declarator, hnode, hpointer, hwhole⟩ := htext.whole
  have hwhole : (Expr.call .typeName).shape (skipGap a.toList) =
      some ([], [.typeName base declarator]) := by rw [hx, hwhole r hr, hr]
  obtain ⟨m, hm, hskel⟩ := parseTypeName?_of_shape hwhole
  obtain ⟨hm, hrule⟩ := read_of_parseTypeName? hm
  refine ⟨x, _, ⟨g, r, hg, hgap, ?_⟩, htext, fun d => ?_⟩
  · refine Outline.isGap_of_endsInComment (htext.neat.append hgap.spot) hr ?_
    rwa [List.append_assoc, ← hg, String.ofList_toList]
  · rw [readWithin_of_shape d hwhole, List.singleton_inj.mp hnode,
      readTypeName_eq_readArgument _ (rule_ne_pointer_of_typeName hm hrule hskel) hpointer]

/-! ### Single words -/

theorem noWord_nil : NoWord [] := by
  rw [NoWord, skipGap_nil]
  rfl

namespace ArgumentPiece

variable {a : String} {x : List Char} {node : Node} (h : ArgumentPiece a x node)
include h

theorem skipGap_toList : ∃ r, skipGap a.toList = x ++ r ∧ IsGap r := by
  obtain ⟨g, r, ha, hg, hr⟩ := h.around
  exact ⟨r, by rw [ha, hg.skipGap_append_firm h.text.firm], hr⟩

theorem loneWord?_of_isIdent (hx : IsIdent x) : loneWord? a = some (.ofList x) := by
  obtain ⟨r, ha, hr⟩ := h.skipGap_toList
  have hends : Ends r := by
    by_cases hne : r = []
    · rw [hne]
      exact Ends.nil
    · simpa using hr.ends hne []
  have hstart := startsIdent_append hx.start r
  simp [loneWord?, ha, hstart, identRest_append hx.chars hends, identRun_append hx.chars hends,
    hr.skipGap_eq_nil]

theorem loneWord?_of_not_isIdent (hx : ¬ IsIdent x) : loneWord? a = none := by
  obtain ⟨r, ha, -⟩ := h.skipGap_toList
  obtain ⟨c, t, hskip, -⟩ := (h.text.busy.resolve_left hx) r
  simp [loneWord?, ha, hskip]

theorem prefixRule?_eq_none (hx : IsIdent x) : prefixRule? (.ofList x) = none := by
  by_contra hne
  obtain ⟨r, hr⟩ := Option.ne_none_iff_exists'.mp hne
  have hwords : (many (.call .typePrefix)).shape x = some ([], [.token r x]) := by
    have hrounds := (Words.one hr).rounds Ends.nil noWord_nil
    rw [List.append_nil, skipGap_nil] at hrounds
    rw [shape_many rfl hx.firm.solid, hrounds]
  have hbase : base.shape x = none := by
    rw [base, shape_seq, shape_seq, hwords, Reading.some_andThen, shape_typeSpecifier_none rfl]
    rfl
  have hshape := h.text.spells [] (stop_nil skipGap_nil)
  rw [List.append_nil, shape_typeArgument, hbase] at hshape
  cases hshape

end ArgumentPiece

theorem readWithin_of_specifier {a : String} {g s k : List Char} {part : Node}
    (hs : SpecifierText [] s [.branch .typeSpecifier [part]])
    (hword : prefixRule? (.ofList (identRun s)) = none) (ha : a.toList = g ++ (s ++ k))
    (hg : IsGap g) (hk : IsGap k) (d : Nat) :
    readWithin d a = readSpecifier (.direct d) (.branch .typeSpecifier [part]) := by
  have hparts : BaseParts [] s [] [] [] [] [.branch .typeSpecifier [part]] [] :=
    ⟨.none, hs, .none, .inl rfl, by simp [Apart], noWord_nil, hword⟩
  have hbase := hparts.text.spelling
  rw [List.append_nil, List.nil_append] at hbase
  have hshape := typeName_base hbase k hk.skipGap_eq_nil
  rw [hk.skipGap_eq_nil, ← hg.skipGap_append_firm (firm_of_startsIdent hs.start) k, ← ha] at hshape
  rw [readWithin_of_shape d hshape]
  change ((readSpecifier (.direct d) (.branch .typeSpecifier [part])).bind fun b => some b).bind
    (fun b => some b) = _
  simp

theorem ArgumentPiece.readWithin_word {a : String} {x : List Char} {node : Node}
    (h : ArgumentPiece a x node) (hx : IsIdent x) (d : Nat) :
    readWithin d a = some (ofWord (.ofList x)) := by
  obtain ⟨g, k, ha, hg, hk⟩ := h.around
  have hword : prefixRule? (.ofList (identRun x)) = none := by
    rw [identRun_self hx, h.prefixRule?_eq_none hx]
  by_cases hscalar : String.ofList x ∈ scalarStarts
  · have htext := scalar_text hscalar .nil Ends.nil rfl
    rw [List.append_nil] at htext
    have hid : String.ofList x ≠ "id" := fun he => absurd (he ▸ hscalar) (by decide)
    have hprimitive : IsScalar (.ofList x) := ⟨_, [], hscalar, by simp, by simp⟩
    rw [readWithin_of_specifier htext hword ha hg hk]
    change some (ofPrimitive (.ofList x)) = _
    rw [ofPrimitive_of_isScalar hprimitive, ofWord, if_neg hid]
  · have htext := name_text hx hscalar Ends.nil fun _ => by rw [skipGap_nil]; rfl
    have hvoid : String.ofList x ≠ "void" := fun he => hscalar (he ▸ by decide)
    rw [readWithin_of_specifier htext hword ha hg hk, ofWord, if_neg hvoid]
    rfl

/-! ### Lists of arguments -/

theorem exists_separated {text : String → List Char} {args : List String} (hne : args ≠ [])
    (h : ∀ a ∈ args, ∃ g k, a.toList = g ++ (text a ++ k) ∧ IsGap g ∧ IsGap k) :
    ∃ g x k, (", ".intercalate args).toList = g ++ (x ++ k) ∧ IsGap g ∧ IsGap k ∧
      ∀ (Q : List Char → List Node → Prop) (node : String → Node),
        (∀ a ∈ args, Q (text a) [node a]) →
          Separated (fun _ => Q) [] (args.map text) x (args.map node) := by
  simp only [String.toList_intercalate]
  induction args with
  | nil => exact absurd rfl hne
  | cons a args ih =>
    obtain ⟨g, k, ha, hg, hk⟩ := h a List.mem_cons_self
    cases args with
    | nil =>
      refine ⟨g, text a, k, by simpa using ha, hg, hk, fun Q node hQ => ?_⟩
      exact .one (hQ a List.mem_cons_self)
    | cons b args =>
      obtain ⟨g', y, k', hy, hg', hk', hsep⟩ :=
        ih (by simp) fun c hc => h c (List.mem_cons_of_mem a hc)
      refine ⟨g, text a ++ (k ++ ',' :: ([' '] ++ g' ++ y)), k', ?_, hg, hk', fun Q node hQ => ?_⟩
      · rw [List.map_cons] at hy
        rw [List.map_cons, List.map_cons, List.intercalate_cons_cons, hy, ha]
        simp
      · exact .cons (hQ a List.mem_cons_self) hk (IsGap.blank.append hg')
          (hsep Q node fun c hc => hQ c (List.mem_cons_of_mem a hc))

section Generic

variable {name : String} (hname : IsGenericName name)
include hname

theorem readWithin_angles {list : String} {g x k : List Char} {m : Node}
    (hlist : list.toList = g ++ (x ++ k)) (hneat : Neat ('<' :: (g ++ (x ++ (k ++ ['>'])))))
    (hspells : angles.Spells (fun _ => True) ('<' :: (g ++ (x ++ (k ++ ['>'])))) [m]) (d : Nat) :
    readWithin d (name ++ "<" ++ list ++ ">") = readGeneric (.direct d)
      (.branch .genericTypeSpecifier [.token .identifier name.toList, m]) := by
  have htext := generic_text (r := []) hname.ident
    (by rw [String.ofList_toList]; exact hname.scalar) IsGap.nil hspells hneat
  refine readWithin_of_specifier htext ?_ ?_ IsGap.nil IsGap.nil d
  · rw [identRun_append hname.ident.chars (IsGap.nil.ends_cons rfl _), String.ofList_toList,
      hname.word]
  · simp [hlist]

variable {args : List String} (hne : args ≠ [])
include hne

/-- Where all arguments are single words, they are names. -/
theorem readWithin_generic_words (hid : name ≠ "id") {text : String → List Char}
    (h : ∀ a ∈ args, ∃ g k, a.toList = g ++ (text a ++ k) ∧ IsGap g ∧ IsGap k)
    (hwords : ∀ a ∈ args, IsIdent (text a)) (d : Nat) :
    readWithin d (name ++ "<" ++ ", ".intercalate args ++ ">") =
      some (generic name (args.map fun a => named (.ofList (text a)))) := by
  obtain ⟨g, x, k, hlist, hg, hk, hsep⟩ := exists_separated hne h
  have hsep := hsep ProtocolText (fun a => protocolNode (.ofList (text a))) fun a ha =>
    ⟨hwords a ha, by rw [protocolNode, String.toList_ofList]⟩
  have hneat := (hsep.neat fun _ _ _ hx => hx.ident.neat).between_angles hg hk
  rw [readWithin_angles hname hlist hneat (angles_protocols hsep hg hk)]
  change some (if String.ofList name.toList = "id" then object _ else generic _ _) = _
  have htoken : (Node.token .identifier name.toList).text = name := String.ofList_toList
  rw [String.ofList_toList, if_neg hid, htoken,
    childrenOf_branch (q := .protocolName) fun _ _ => rfl, List.map_map, List.map_map]
  rfl

/-- Where one argument is not a single word, all arguments denote what they denote on their own. -/
theorem readWithin_generic_arguments {text : String → List Char} {node : String → Node}
    (h : ∀ a ∈ args, ArgumentPiece a (text a) (node a)) (hlong : ∃ a ∈ args, ¬ IsIdent (text a))
    (d : Nat) :
    readWithin (d + 1) (name ++ "<" ++ ", ".intercalate args ++ ">") =
      (args.mapM (readWithin d)).map (generic name) := by
  obtain ⟨g, x, k, hlist, hg, hk, hsep⟩ := exists_separated hne fun a ha => (h a ha).around
  have hsep := hsep ArgumentText node fun a ha => (h a ha).text
  have hneat := (hsep.neat fun _ _ _ hx => hx.neat).between_angles hg hk
  have hlong : ∃ y ∈ args.map text, ¬ IsIdent y := by simpa using hlong
  rw [readWithin_angles hname hlist hneat (arguments_spell hsep hlong hg hk)]
  change (((Node.branch .genericsSpecifier (args.map node)).childrenOf .typeArgument).mapM
    (readArgument (.direct d))).bind (fun ts => some (generic (.ofList name.toList) ts)) = _
  rw [childrenOf_branch fun a ha => (h a ha).rule, String.ofList_toList, Option.map_eq_bind,
    ← mapM_eq_mapM_map fun a ha => ((h a ha).read d).symm]
  rfl

end Generic

theorem readWithin_of_le {a : String} {t : DeclaredType} {d e : Nat} (h : readWithin d a = some t)
    (hde : d ≤ e) : readWithin e a = some t := by
  obtain ⟨m, hm, -⟩ := Option.bind_eq_some_iff.mp h
  obtain ⟨u, k, -, hu⟩ := readWithin_settles hm
  simp only [hu] at h ⊢
  split at h
  · rw [if_pos (by omega), h]
  · cases h

theorem mapM_of_map_eq {α : Type} {f : α → Option DeclaredType} {xs : List α}
    {ts : List DeclaredType} (h : xs.map f = ts.map some) : xs.mapM f = some ts := by
  have hid : xs.mapM f = (xs.map f).mapM id := mapM_eq_mapM_map fun _ _ => rfl
  have hsome : ts.mapM some = (ts.map some).mapM id := mapM_eq_mapM_map fun _ _ => rfl
  rw [hid, h, ← hsome]
  exact (List.mapM_pure ..).trans (congrArg some (List.map_id ts))

theorem map_named_eq_iff {text : String → List Char} {node : String → Node}
    {type : String → DeclaredType} {args : List String} {d : Nat}
    (h : ∀ a ∈ args, ArgumentPiece a (text a) (node a)) (hwords : ∀ a ∈ args, IsIdent (text a))
    (htype : ∀ a ∈ args, readWithin d a = some (type a)) :
    (args.map fun a => named (.ofList (text a))) = args.map type ↔
      ∀ a ∈ args, loneWord? a ≠ some "id" ∧ loneWord? a ≠ some "void" := by
  rw [List.map_inj_left]
  refine forall₂_congr fun a ha => ?_
  have hword := (h a ha).readWithin_word (hwords a ha) d
  rw [htype a ha, Option.some.injEq] at hword
  rw [hword, (h a ha).loneWord?_of_isIdent (hwords a ha), named_eq_ofWord]
  simp

/-- Arguments with nothing open at their ends, each of them readable one level below the whole, are
read as what they denote on their own. The one exception are lists of single words: these words are
names, also where they are `id` or `void`. -/
theorem read_generic_iff {name : String} {args : List String} (hname : IsGenericName name)
    (hid : name ≠ "id") (hne : args ≠ []) (hargs : ∀ a ∈ args, isArgument a = true)
    (hclosed : ∀ a ∈ args, Outline.endsInComment a = false)
    (hdepth : ∀ a ∈ args, (readWithin (defaultMaxDepth - 1) a).isSome = true) :
    ∃ ts : List DeclaredType, args.map read = ts.map some ∧
      (read (name ++ "<" ++ ", ".intercalate args ++ ">") = some (generic name ts) ↔
        (∃ a ∈ args, loneWord? a = none) ∨
          ∀ a ∈ args, loneWord? a ≠ some "id" ∧ loneWord? a ≠ some "void") ∧
      ∀ ws : List String, args.map loneWord? = ws.map some →
        read (name ++ "<" ++ ", ".intercalate args ++ ">") =
          some (generic name (ws.map named)) := by
  have hpieces : ∀ a ∈ args, ∃ x node, ArgumentPiece a x node := by
    intro a ha
    refine exists_argumentPiece (hargs a ha) (hclosed a ha) ?_
    exact Option.isSome_of_isSome_bind (hdepth a ha)
  choose! text node hpiece using hpieces
  choose! type htype using fun a ha => Option.isSome_iff_exists.mp (hdepth a ha)
  have hread : ∀ a ∈ args, read a = some (type a) := fun a ha =>
    readWithin_of_le (htype a ha) (by decide)
  refine ⟨args.map type, by simpa using hread, ?_⟩
  by_cases hlong : ∃ a ∈ args, ¬ IsIdent (text a)
  · have hnone : ∃ a ∈ args, loneWord? a = none := by
      obtain ⟨a, ha, hx⟩ := hlong
      exact ⟨a, ha, (hpiece a ha).loneWord?_of_not_isIdent hx⟩
    have htypes : args.mapM (readWithin (defaultMaxDepth - 1)) = some (args.map type) :=
      mapM_of_map_eq (by simpa using htype)
    have hwhole := readWithin_generic_arguments hname hne hpiece hlong (defaultMaxDepth - 1)
    rw [htypes] at hwhole
    refine ⟨iff_of_true hwhole (.inl hnone), fun ws hws => ?_⟩
    obtain ⟨a, ha, hnone⟩ := hnone
    have hmem : none ∈ ws.map some := by
      rw [← hws, ← hnone]
      exact List.mem_map_of_mem ha
    simp at hmem
  · have hwords : ∀ a ∈ args, IsIdent (text a) := by simpa using hlong
    have hlone : ∀ a ∈ args, loneWord? a = some (.ofList (text a)) := fun a ha =>
      (hpiece a ha).loneWord?_of_isIdent (hwords a ha)
    have hwhole : read (name ++ "<" ++ ", ".intercalate args ++ ">") = _ :=
      readWithin_generic_words hname hne hid (fun a ha => (hpiece a ha).around) hwords _
    refine ⟨?_, fun ws hws => ?_⟩
    · have hsome : ¬ ∃ a ∈ args, loneWord? a = none := by
        rintro ⟨a, ha, hnone⟩
        simp [hlone a ha] at hnone
      rw [hwhole, or_iff_right hsome, Option.some.injEq, generic.injEq, eq_self, true_and]
      exact map_named_eq_iff hpiece hwords htype
    · have hws : args.map (fun a => String.ofList (text a)) = ws := by
        rw [← List.map_inj_right (f := some) fun _ _ => Option.some.inj, ← hws, List.map_map]
        exact List.map_congr_left fun a ha => (hlone a ha).symm
      rw [hwhole, ← hws, List.map_map]
      rfl

/-- A word beside an argument with blanks and a comment around it. -/
theorem read_generic_beside_pointer :
    ∃ ts : List DeclaredType,
      ["id", " NSArray<id<A>> * const /* c */"].map read = ts.map some ∧
      read "NSDictionary<id,  NSArray<id<A>> * const /* c */>" =
        some (generic "NSDictionary" ts) := by
  obtain ⟨ts, hts, hiff, -⟩ := @read_generic_iff "NSDictionary"
    ["id", " NSArray<id<A>> * const /* c */"] ⟨by decide, by decide, by decide⟩ (by decide)
    (by decide) (by decide +kernel) (by decide +kernel) (by decide +kernel)
  have hlong : loneWord? " NSArray<id<A>> * const /* c */" = none := by decide +kernel
  have htext : "NSDictionary" ++ "<" ++ ", ".intercalate ["id",
      " NSArray<id<A>> * const /* c */"] ++
      ">" = "NSDictionary<id,  NSArray<id<A>> * const /* c */>" := by decide +kernel
  refine ⟨ts, hts, ?_⟩
  rw [← htext]
  exact hiff.mpr (.inl ⟨_, List.mem_cons_of_mem _ List.mem_cons_self, hlong⟩)

/-- Between angle brackets the word `id` alone is the name of a type. -/
theorem read_generic_lone_id : isArgument "id" = true ∧ read "id" = some (object []) ∧
    read "NSArray<id>" = some (generic "NSArray" [named "id"]) := by
  decide +kernel

end DeclaredType

end HeaderBridge
