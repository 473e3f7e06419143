import HeaderBridge.Proofs.Declaration.Methods
import HeaderBridge.Proofs.DeclaredType.Written

/-! # Full names of methods

A method is called by its name and the labels of its arguments. Both follow from
the words of its selector, so that methods with different selectors can be told
apart, except where initializers lose their first word and where a label that is
missing meets one that is spelled `_`.
-/

namespace HeaderBridge

/-- The name and the labels by which a method is called; `_` stands for no label. -/
def Method.fullName (m : Method) : String × List String :=
  (m.signature.name, m.signature.parameters.map fun p => p.label.getD "_")

namespace Declaration

open Grammar Outline

/-! ### The words of a selector -/

namespace Selector

/-- What stands in front of, between and behind the colons of a selector. -/
def words (s : String) : List String := (s.toList.splitOn ':').map .ofList

def first (s : String) : String := (words s).headD ""

def keywords (s : String) : List String := (words s).dropLast

def label (keyword : String) : String := if keyword = "" then "_" else keyword

def laterLabels (s : String) : List String := (keywords s).tail.map label

/-- The label that an initializer keeps for its first argument. -/
def initializerLabel (s : String) : String := (initializerLabel? (first s)).getD "_"

def fullName (isInitializer : Bool) (s : String) : String × List String :=
  (if isInitializer then "init" else first s,
    if keywords s = [] then []
    else (if isInitializer then initializerLabel s else "_") :: laterLabels s)

theorem eq_of_words_eq {s t : String} (h : words s = words t) : s = t := by
  have hsplit : s.toList.splitOn ':' = t.toList.splitOn ':' :=
    List.map_injective_iff.mpr (fun _ _ => String.ofList_injective) h
  have hjoin : ∀ r : String, [':'].intercalate (r.toList.splitOn ':') = r.toList :=
    fun r => List.intercalate_splitOn ':'
  apply String.toList_injective
  rw [← hjoin s, hsplit, hjoin t]

theorem words_eq_of_keywords_eq_nil {s : String} (h : keywords s = []) : words s = [first s] := by
  have hne : words s ≠ [] := by simp [words, List.splitOn_ne_nil]
  rw [keywords] at h
  rw [first]
  cases hs : words s with
  | nil => exact absurd hs hne
  | cons w ws =>
    rw [hs] at h
    cases ws with
    | nil => rfl
    | cons v vs => cases h

theorem keywords_eq_cons {s : String} (h : keywords s ≠ []) :
    keywords s = first s :: (keywords s).tail := by
  rw [keywords] at h ⊢
  rw [first]
  cases hs : words s with
  | nil =>
    rw [hs] at h
    exact absurd rfl h
  | cons w ws =>
    cases ws with
    | nil =>
      rw [hs] at h
      exact absurd rfl h
    | cons v vs => rfl

theorem words_of_word {w : String} (h : ':' ∉ w.toList) : words w = [w] := by
  rw [words, List.splitOn_eq_singleton h, List.map_singleton, String.ofList_toList]

theorem words_keyword {w : String} (h : ':' ∉ w.toList) (s : String) :
    words (w ++ ":" ++ s) = w :: words s := by
  have hchars : (w ++ ":" ++ s).toList = w.toList ++ ':' :: s.toList := by simp
  rw [words, hchars, List.splitOn_append_cons_self_of_not_mem h, List.map_cons,
    String.ofList_toList]
  rfl

theorem words_joinLabels {ls : List (Option String)} (h : ∀ l ∈ ls, ∀ s ∈ l, ':' ∉ s.toList) :
    words (joinLabels ls) = ls.map (·.getD "") ++ [""] := by
  induction ls with
  | nil => rfl
  | cons l ls ih =>
    obtain ⟨hl, hls⟩ := List.forall_mem_cons.mp h
    have hword : ':' ∉ (l.getD "").toList := by
      cases l with
      | none => simp
      | some s => exact hl s rfl
    rw [joinLabels_cons, words_keyword hword, ih hls]
    rfl

theorem label_getD {l : Option String} (h : ∀ s ∈ l, s ≠ "") : label (l.getD "") = l.getD "_" := by
  cases l with
  | none => rfl
  | some s => exact if_neg (h s rfl)

theorem label_injective {v w : String} (hv : v ≠ "_") (hw : w ≠ "_") (h : label v = label w) :
    v = w := by
  unfold label at h
  split at h <;> split at h
  · next hv hw => rw [hv, hw]
  · exact absurd h.symm hw
  · exact absurd h hv
  · exact h

theorem eq_of_map_label_eq {vs ws : List String} (hvs : "_" ∉ vs) (hws : "_" ∉ ws)
    (h : vs.map label = ws.map label) : vs = ws := by
  induction vs generalizing ws with
  | nil => exact (List.map_eq_nil_iff.mp h.symm).symm
  | cons v vs ih =>
    obtain ⟨w, ws, rfl, hw, htail⟩ := List.map_eq_cons_iff.mp h.symm
    rw [List.mem_cons, not_or] at hvs hws
    rw [label_injective (Ne.symm hvs.1) (Ne.symm hws.1) hw.symm, ih hvs.2 hws.2 htail.symm]

theorem fullName_eq_iff {b c : Bool} {s t : String} : fullName b s = fullName c t ↔
    (keywords s).length = (keywords t).length ∧ laterLabels s = laterLabels t ∧
      (if b then "init" else first s) = (if c then "init" else first t) ∧
      (keywords s = [] ∨
        (if b then initializerLabel s else "_") = (if c then initializerLabel t else "_")) := by
  have hlength : ∀ {vs ws : List String}, vs.map label = ws.map label → vs.length = ws.length := by
    intro vs ws h
    simpa using congrArg List.length h
  rw [fullName, fullName, Prod.mk.injEq, laterLabels, laterLabels]
  cases keywords s with
  | nil =>
    cases keywords t with
    | nil => simp
    | cons w ws => simp
  | cons v vs =>
    cases keywords t with
    | nil => simp
    | cons w ws =>
      simp only [List.tail_cons, reduceCtorEq, if_false, List.cons.injEq, List.length_cons,
        false_or]
      constructor
      · rintro ⟨hname, hlabel, hlater⟩
        exact ⟨congrArg (· + 1) (hlength hlater), hlater, hname, hlabel⟩
      · rintro ⟨-, hlater, hname, hlabel⟩
        exact ⟨hname, hlabel, hlater⟩

end Selector

open Selector

/-! ### Names that follow from selectors -/

/-- The full name of a method follows from its selector and from whether it is an initializer. -/
structure FollowsSelector (x : Method) : Prop where
  ending : keywords x.selector = [] ∨ words x.selector = keywords x.selector ++ [""]
  fullName : x.fullName = Selector.fullName x.signature.isInitializer x.selector
  isStatic : x.member.isStatic = true → x.signature.isInitializer = false

theorem map_label_parametersOf (p : Place) (l : Option String) (pieces : List Piece) :
    (parametersOf p l pieces).map (fun q => q.label.getD "_") =
      if pieces = [] then [] else l.getD "_" :: pieces.tail.map fun q => q.label.getD "_" := by
  cases pieces with
  | nil => rfl
  | cons piece pieces => simp [parametersOf, parameterOf]

section MethodFrom

variable {p : Place} {member : Member} {isOptional isClassMethod : Bool} {unary : Option String}
  {pieces : List Piece} {type : Option DeclaredType} {nullability : Option Nullability} {x : Method}
  (h : methodFrom p member isOptional isClassMethod unary pieces type nullability = some x)
include h

theorem isInitializer_methodFrom (hstatic : x.member.isStatic = true) :
    x.signature.isInitializer = false := by
  rw [isStatic_methodFrom h] at hstatic
  obtain ⟨⟨name, selector⟩, -, rfl⟩ := Option.map_eq_some_iff.mp h
  simp [hstatic]

theorem fullName_methodFrom : ∃ name, unary.or (pieces.head?.bind (·.label)) = some name ∧
    x.fullName = (if x.signature.isInitializer then "init" else name,
      if pieces = [] then []
      else (if x.signature.isInitializer then (initializerLabel? name).getD "_" else "_") ::
        pieces.tail.map fun q => q.label.getD "_") := by
  rw [methodFrom, nameAndSelector?_eq, Option.map_map] at h
  obtain ⟨name, hname, rfl⟩ := Option.map_eq_some_iff.mp h
  refine ⟨name, hname, ?_⟩
  dsimp only [Function.comp, Method.fullName]
  split <;> simp [map_label_parametersOf]

theorem followsSelector_methodFrom
    (hselector : (∃ w, unary = some w ∧ ':' ∉ w.toList ∧ pieces = []) ∨
      unary = none ∧ ∀ l ∈ pieces.map (·.label), ∀ s ∈ l, s ≠ "" ∧ ':' ∉ s.toList) :
    FollowsSelector x := by
  obtain ⟨name, hname, hfull⟩ := fullName_methodFrom h
  have htext := selector_methodFrom h
  rcases hselector with ⟨w, rfl, hw, rfl⟩ | ⟨rfl, hlabels⟩
  · obtain rfl : w = name := Option.some.inj hname
    have hwords : words x.selector = [w] := by rw [htext, Option.getD_some, words_of_word hw]
    have hkeywords : keywords x.selector = [] := by rw [keywords, hwords]; rfl
    refine ⟨.inl hkeywords, ?_, isInitializer_methodFrom h⟩
    rw [hfull, Selector.fullName, if_pos hkeywords, if_pos rfl, first, hwords]
    rfl
  · cases pieces with
    | nil => cases hname
    | cons piece pieces =>
      have hfirst : piece.label = some name := hname
      have hwords : words x.selector = name :: pieces.map (fun q => q.label.getD "") ++ [""] := by
        rw [htext, Option.getD_none, words_joinLabels fun l hl s hs => (hlabels l hl s hs).2]
        simp [hfirst, Function.comp_def]
      have hkeywords : keywords x.selector = name :: pieces.map fun q => q.label.getD "" := by
        rw [keywords, hwords, List.dropLast_concat]
      have hlater : laterLabels x.selector = pieces.map fun q => q.label.getD "_" := by
        rw [laterLabels, hkeywords, List.tail_cons, List.map_map]
        refine List.map_congr_left fun q hq => label_getD fun s hs => ?_
        exact (hlabels q.label (List.mem_map_of_mem (List.mem_cons_of_mem _ hq)) s hs).1
      have hstart : first x.selector = name := by rw [first, hwords]; rfl
      have hne : keywords x.selector ≠ [] := by rw [hkeywords]; exact List.cons_ne_nil _ _
      refine ⟨.inr (by rw [hwords, hkeywords]), ?_, isInitializer_methodFrom h⟩
      rw [hfull, Selector.fullName, if_neg (List.cons_ne_nil piece pieces), if_neg hne, hlater,
        initializerLabel, hstart]
      rfl

end MethodFrom

/-- The names of the methods that are declared follow from their selectors. -/
theorem followsSelector_method? (types : TypeReader) (p : Place) (isOptional : Bool) {n : Node}
    (hn : n.Read) {x : Method} (h : Direct.method? types p isOptional n = some x) :
      FollowsSelector x := by
  obtain ⟨s, hs, h⟩ := Option.bind_eq_some_iff.mp h
  obtain ⟨hread, hrule, -⟩ := hn.of_child? hs
  have hword : ∀ {y : Node}, y.Read → y.rule = .selector → y.text ≠ "" ∧ ':' ∉ y.text.toList := by
    intro y hy hyr
    have hident := hy.isIdent (by rw [hyr]; decide)
    refine ⟨fun hnil => ?_, fun hcolon => ?_⟩
    · have hstart := hident.start
      rw [hnil] at hstart
      cases hstart
    · exact absurd (hident.chars _ hcolon) (by decide)
  refine followsSelector_methodFrom h ?_
  rcases selector_alternatives hread hrule with ⟨y, hy, hnil⟩ | hnone
  · obtain ⟨hmem, hyr⟩ := Node.child?_eq_some hy
    refine .inl ⟨y.text, ?_, (hword (hread.part hmem).1 hyr).2, ?_⟩
    · rw [Node.childText?, hy]
      rfl
    · rw [hnil]
      rfl
  · refine .inr ⟨?_, fun l hl t ht => ?_⟩
    · rw [Node.childText?, hnone]
      rfl
    · obtain ⟨piece, hpiece, rfl⟩ := List.mem_map.mp hl
      obtain ⟨k, hk, hkpiece⟩ := List.mem_filterMap.mp hpiece
      obtain ⟨name, -, rfl⟩ := Option.map_eq_some_iff.mp hkpiece
      obtain ⟨y, hy, rfl⟩ := Option.map_eq_some_iff.mp ht
      obtain ⟨hmem, hyr⟩ := Node.child?_eq_some hy
      have hkread := (hread.part (Node.mem_childrenOf.mp hk).1).1
      exact hword (hkread.part hmem).1 hyr

theorem followsSelector_typeAt (types : TypeReader) (policy : Policy) (x : Bool × Node)
    (hn : x.2.Read) (hr : x.2.rule ∈ typeRules) :
      ∀ m ∈ (Direct.typeAt types policy x).methods, FollowsSelector m := by
  intro m hm
  obtain ⟨name, hname⟩ := exists_name? hn hr
  rw [Direct.typeAt, hname, Option.getD_some, Direct.typeOf, Direct.foldl_gather, Direct.gatherAll,
    List.nil_append] at hm
  obtain ⟨y, hy, hm⟩ := List.mem_flatMap.mp hm
  rw [Direct.methodsAt] at hm
  split at hm
  · next hmethod =>
    have hread := (read_of_mem_members hn hr (Setting.mem_of_mem_along hy)).1
    exact followsSelector_method? types _ _ hread (Option.mem_toList.mp hm)
  · cases hm

/-! ### Names that clash -/

/-- Two methods start alike, where initializers have lost the first words of their selectors and
are all called `init`. -/
def SameStart (m n : Method) : Prop :=
  match m.signature.isInitializer, n.signature.isInitializer with
  | false, false => first m.selector = first n.selector
  | false, true =>
    first m.selector = "init" ∧ (keywords m.selector = [] ∨ initializerLabel n.selector = "_")
  | true, false =>
    first n.selector = "init" ∧ (keywords m.selector = [] ∨ initializerLabel m.selector = "_")
  | true, true =>
    keywords m.selector = [] ∨ initializerLabel m.selector = initializerLabel n.selector

/-- Two methods are called alike: they take equally many arguments, all labels but the first are
the same, and they start alike. -/
structure Clash (m n : Method) : Prop where
  count : (keywords m.selector).length = (keywords n.selector).length
  labels : laterLabels m.selector = laterLabels n.selector
  start : SameStart m n

section Clash

variable {m n : Method} (hm : FollowsSelector m) (hn : FollowsSelector n)
include hm hn

theorem fullName_eq_iff_clash : m.fullName = n.fullName ↔ Clash m n := by
  rw [hm.fullName, hn.fullName, Selector.fullName_eq_iff]
  have hstart : SameStart m n ↔
      (if m.signature.isInitializer then "init" else first m.selector) =
          (if n.signature.isInitializer then "init" else first n.selector) ∧
        (keywords m.selector = [] ∨
          (if m.signature.isInitializer then initializerLabel m.selector else "_") =
            (if n.signature.isInitializer then initializerLabel n.selector else "_")) := by
    unfold SameStart
    cases m.signature.isInitializer <;> cases n.signature.isInitializer
    · simp
    · exact and_congr_right fun _ => or_congr_right eq_comm
    · exact and_congr_left fun _ => eq_comm
    · simp
  rw [← hstart]
  constructor
  · rintro ⟨hcount, hlabels, h⟩
    exact ⟨hcount, hlabels, h⟩
  · rintro ⟨hcount, hlabels, h⟩
    exact ⟨hcount, hlabels, h⟩

/-- Without initializers and without `_` for a keyword, a full name tells the selector. -/
theorem selector_eq_of_fullName_eq (hinit : m.signature.isInitializer = false)
    (hinit' : n.signature.isInitializer = false) (hm' : "_" ∉ (keywords m.selector).tail)
    (hn' : "_" ∉ (keywords n.selector).tail) (h : m.fullName = n.fullName) :
      m.selector = n.selector := by
  obtain ⟨hcount, hlabels, hstart⟩ := (fullName_eq_iff_clash hm hn).mp h
  have hfirst : first m.selector = first n.selector := by
    unfold SameStart at hstart
    rw [hinit, hinit'] at hstart
    exact hstart
  apply eq_of_words_eq
  by_cases hnil : keywords m.selector = []
  · have hnil' : keywords n.selector = [] := by rw [← List.length_eq_zero_iff, ← hcount, hnil]; rfl
    rw [words_eq_of_keywords_eq_nil hnil, words_eq_of_keywords_eq_nil hnil', hfirst]
  · have hnil' : keywords n.selector ≠ [] := by
      rwa [← List.length_pos_iff, ← hcount, List.length_pos_iff]
    rw [hm.ending.resolve_left hnil, hn.ending.resolve_left hnil', keywords_eq_cons hnil,
      keywords_eq_cons hnil', hfirst, eq_of_map_label_eq hm' hn' hlabels]

end Clash

/-- Two methods of a type have the same full name exactly if they clash. No class method is an
initializer, and without initializers different selectors give different full names unless one of
them has `_` for a keyword behind the first. -/
theorem ofOutline_fullName_eq_iff (maxDepth : Nat) (policy : Policy) {text : String} {tree : Node}
    (h : Header.parse text = .ok tree) :
    ∃ o, Header.outlineWithin maxDepth text = .ok o ∧ ∀ d ∈ ofOutline policy o, ∀ m ∈ d.methods,
      (m.member.isStatic = true → m.signature.isInitializer = false) ∧
      ∀ n ∈ d.methods, (m.fullName = n.fullName ↔ Clash m n) ∧
        (m.signature.isInitializer = false → n.signature.isInitializer = false →
          "_" ∉ (keywords m.selector).tail → "_" ∉ (keywords n.selector).tail →
          m.selector ≠ n.selector → m.fullName ≠ n.fullName) := by
  obtain ⟨o, houtline, ho⟩ := exists_outlineWithin h maxDepth
  refine ⟨o, houtline, ?_⟩
  have hfollow : ∀ d ∈ ofOutline policy o, ∀ m ∈ d.methods, FollowsSelector m := by
    intro d hd m hm
    have hmem := List.mem_map_of_mem (f := TypeDeclaration.unsourced) hd
    rw [ofOutline_eq_direct h ho, Direct.ofTree_eq _ policy h] at hmem
    obtain ⟨x, hx, hxd⟩ := List.mem_map.mp hmem
    obtain ⟨hread, hrule⟩ := Direct.read_of_mem_audits h false hx
    have hfollow := followsSelector_typeAt (.respelled maxDepth) policy x hread hrule
    rw [hxd] at hfollow
    have hfollow := hfollow m.unsourced (List.mem_map_of_mem hm)
    exact ⟨hfollow.ending, hfollow.fullName, hfollow.isStatic⟩
  intro d hd m hm
  refine ⟨(hfollow d hd m hm).isStatic, fun n hn => ⟨?_, ?_⟩⟩
  · exact fullName_eq_iff_clash (hfollow d hd m hm) (hfollow d hd n hn)
  · intro hinit hinit' hm' hn' hne hfull
    exact hne (selector_eq_of_fullName_eq (hfollow d hd m hm) (hfollow d hd n hn) hinit hinit' hm'
      hn' hfull)

def labelsHeader : String :=
  "@interface A\n- (int)f:(int)x :(int)y;\n- (int)f:(int)x at:(int)y;\n@end"

/-- Two methods of which one has a label that the other one misses. -/
theorem ofOutline_fullName_eq_iff_labels : ∃ tree o d m n,
    Header.parse labelsHeader = .ok tree ∧ Header.outlineWithin 32 labelsHeader = .ok o ∧
    d ∈ ofOutline {} o ∧ m ∈ d.methods ∧ n ∈ d.methods ∧ m.selector = "f::" ∧ n.selector = "f:at:" ∧
    m.fullName ≠ n.fullName := by
  have hok : (Header.parse labelsHeader).isOk = true := by decide +kernel
  obtain ⟨tree, h⟩ := Header.exists_parse hok
  obtain ⟨o, ho, hall⟩ := ofOutline_fullName_eq_iff 32 {} h
  have hmethods : (Header.outlineWithin 32 labelsHeader).toOption.map
      (fun o => (ofOutline {} o).map fun d =>
        d.methods.map fun m => (m.selector, m.signature.isInitializer)) =
      some [[("f::", false), ("f:at:", false)]] := by decide +kernel
  rw [ho] at hmethods
  obtain ⟨d, hd, hds⟩ := List.map_eq_singleton_iff.mp (Option.some.inj hmethods)
  obtain ⟨m, ms, hmethods, hm, hms⟩ := List.map_eq_cons_iff.mp hds
  obtain ⟨n, rfl, hn⟩ := List.map_eq_singleton_iff.mp hms
  obtain ⟨hmselector, hminit⟩ := Prod.mk.inj hm
  obtain ⟨hnselector, hninit⟩ := Prod.mk.inj hn
  have hdmem : d ∈ ofOutline {} o := by rw [hd]; exact List.mem_singleton_self d
  have hmmem : m ∈ d.methods := by rw [hmethods]; exact List.mem_cons_self
  have hnmem : n ∈ d.methods := by
    rw [hmethods]; exact List.mem_cons_of_mem m (List.mem_singleton_self n)
  refine ⟨tree, o, d, m, n, h, ho, hdmem, hmmem, hnmem, hmselector, hnselector, ?_⟩
  refine ((hall d hdmem m hmmem).2 n hnmem).2 hminit hninit ?_ ?_ ?_
  · rw [hmselector]; decide +kernel
  · rw [hnselector]; decide +kernel
  · rw [hmselector, hnselector]; decide

def initializersHeader : String :=
  "@interface A\n- (id)initWithName:(int)a;\n- (id)initWithname:(int)b;\n@end"

/-- Initializers whose selectors differ in the letter behind `initWith` have the same name. -/
theorem initializers_share_fullName : ∃ o d m n,
    Header.outlineWithin 32 initializersHeader = .ok o ∧
    d ∈ ofOutline {} o ∧ m ∈ d.methods ∧ n ∈ d.methods ∧ m.member.isStatic = n.member.isStatic ∧
    m.selector ≠ n.selector ∧ m.fullName = n.fullName := by
  have hok : (Header.parse initializersHeader).isOk = true := by decide +kernel
  obtain ⟨tree, h⟩ := Header.exists_parse hok
  have hselectors : (Header.outlineWithin 32 initializersHeader).toOption.map
      (fun o => (ofOutline {} o).map fun d =>
        d.methods.map fun m => (m.member.isStatic, m.selector)) =
      some [[(false, "initWithName:"), (false, "initWithname:")]] := by decide +kernel
  have hnames : (Header.outlineWithin 32 initializersHeader).toOption.map
      (fun o => (ofOutline {} o).map fun d => d.methods.map Method.fullName) =
      some [[("init", ["name"]), ("init", ["name"])]] := by decide +kernel
  obtain ⟨o, ho, -⟩ := exists_outlineWithin h 32
  rw [ho] at hselectors hnames
  obtain ⟨d, hd, hds⟩ := List.map_eq_singleton_iff.mp (Option.some.inj hselectors)
  obtain ⟨m, ms, hmethods, hm, hms⟩ := List.map_eq_cons_iff.mp hds
  obtain ⟨n, rfl, hn⟩ := List.map_eq_singleton_iff.mp hms
  have hsame : m.fullName = ("init", ["name"]) ∧ n.fullName = ("init", ["name"]) := by
    have hnames : (ofOutline {} o).map (fun d => d.methods.map Method.fullName) = _ :=
      Option.some.inj hnames
    simpa [hd, hmethods] using hnames
  obtain ⟨hmstatic, hmselector⟩ := Prod.mk.inj hm
  obtain ⟨hnstatic, hnselector⟩ := Prod.mk.inj hn
  refine ⟨o, d, m, n, ho, ?_, ?_, ?_, ?_, ?_, ?_⟩
  · rw [hd]; exact List.mem_singleton_self d
  · rw [hmethods]; exact List.mem_cons_self
  · rw [hmethods]; exact List.mem_cons_of_mem m (List.mem_singleton_self n)
  · rw [hmstatic, hnstatic]
  · rw [hmselector, hnselector]; decide
  · rw [hsame.1, hsame.2]

end Declaration

end HeaderBridge
