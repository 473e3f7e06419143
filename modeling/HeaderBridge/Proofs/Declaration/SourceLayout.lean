import HeaderBridge.Proofs.Declaration.Texts
import Mathlib.Data.List.Forall2

/-! # The layout of source

The source of a header is a text with properly nested brackets, in which never more
than two braces are open. Each type is written on lines of its own, with one line that
declares each member, and on each line the other brackets close each other.
-/

namespace HeaderBridge

open Text

/-! ### Braces -/

namespace Text

/-- A text that leaves the brackets as they were, where as many braces as given may be opened. -/
def Braced (depth : Nat) (u : List Char) : Prop :=
  ∀ limit expected, expected.count '}' + depth ≤ limit → nest limit expected u = some expected

namespace Braced

variable {k : Nat} {u v : List Char}

theorem of_balanced (h : Balanced u) : Braced k u := fun limit expected _ => h limit expected

theorem append (hu : Braced k u) (hv : Braced k v) : Braced k (u ++ v) := by
  intro limit expected hlimit
  rw [nest_append, hu limit expected hlimit, Option.bind_some, hv limit expected hlimit]

theorem braces (h : Braced k u) : Braced (k + 1) ('{' :: (u ++ ['}'])) := by
  intro limit expected hlimit
  have hopen : step limit expected '{' = some ('}' :: expected) :=
    if_neg fun hfull => absurd hfull.2 (by omega)
  have hinside := h limit ('}' :: expected) (by rw [List.count_cons_self]; omega)
  rw [nest_cons, hopen, Option.bind_some, nest_append, hinside]
  rfl

end Braced

def ofLines (ls : List String) : String := String.join (ls.map (· ++ "\n"))

theorem toList_ofLines (ls : List String) :
    (ofLines ls).toList = ls.flatMap fun l => l.toList ++ ['\n'] := by
  simp [ofLines, String.toList_join, List.flatMap_map]

theorem ofLines_append (ks ls : List String) : ofLines (ks ++ ls) = ofLines ks ++ ofLines ls := by
  simp [ofLines]

theorem ofLines_intercalate (blocks : List (List String)) :
    ofLines ([""].intercalate blocks) = "\n".intercalate (blocks.map ofLines) := by
  induction blocks with
  | nil => rfl
  | cons b blocks ih =>
    cases blocks with
    | nil => simp
    | cons b' blocks =>
      rw [List.intercalate_cons_cons, ofLines_append, ofLines_append, ih, List.map_cons,
        List.map_cons, List.map_cons, String.intercalate_cons_cons]
      rfl

theorem balanced_line : Balanced ['\n'] := .of_nest (by decide)

theorem Braced.ofLines_of_balanced {k : Nat} {ls : List String} (h : ∀ l ∈ ls, Balanced l.toList) :
    Braced k (ofLines ls).toList := by
  rw [toList_ofLines]
  refine .of_balanced ?_
  induction ls with
  | nil => exact .nil
  | cons l ls ih =>
    rw [List.forall_mem_cons] at h
    exact (h.1.append balanced_line).append (ih h.2)

theorem Braced.ofLines_flatMap {k : Nat} {α : Type} {f : α → List String} {xs : List α}
    (h : ∀ x ∈ xs, Braced k (ofLines (f x)).toList) : Braced k (ofLines (xs.flatMap f)).toList := by
  induction xs with
  | nil => exact .of_balanced .nil
  | cons x xs ih =>
    rw [List.forall_mem_cons] at h
    rw [List.flatMap_cons, ofLines_append, String.toList_append]
    exact h.1.append (ih h.2)

theorem Braced.ofLines_intercalate {k : Nat} {blocks : List (List String)}
    (h : ∀ b ∈ blocks, Braced k (ofLines b).toList) :
    Braced k (ofLines ([""].intercalate blocks)).toList := by
  induction blocks with
  | nil => exact .of_balanced .nil
  | cons b blocks ih =>
    rw [List.forall_mem_cons] at h
    cases blocks with
    | nil =>
      rw [List.intercalate_singleton]
      exact h.1
    | cons b' blocks =>
      rw [List.intercalate_cons_cons, ofLines_append, ofLines_append, String.toList_append,
        String.toList_append]
      exact (h.1.append (.of_balanced balanced_line)).append (ih h.2)

end Text

/-! ### Lines of members -/

def startsWord (s : String) : Bool := s.toList.head?.any fun c => c.isAlpha || c = '@'

def isDeclaration (line : String) : Bool := startsWord (.ofList (line.toList.drop 4))

/-- A line is empty, or starts with exactly four blanks. -/
def Indented (line : String) : Prop :=
  line = "" ∨ ∃ t, line = "    " ++ t ∧ ∃ c ∈ t.toList.head?, c ≠ ' '

theorem isDeclaration_memberLine (t : String) : isDeclaration (memberLine t) = startsWord t := by
  rw [isDeclaration, memberLine, String.toList_append]
  exact congrArg startsWord String.ofList_toList

theorem startsWord_append {s : String} (h : startsWord s = true) (t : String) :
    startsWord (s ++ t) = true := by
  obtain ⟨c, hc, hstart⟩ := (Option.any_eq_true _ _).mp h
  rw [startsWord, String.toList_append, List.head?_append, hc]
  exact hstart

theorem indented_of_startsWord {t : String} (h : startsWord t = true) :
    Indented (memberLine t) := by
  obtain ⟨c, hc, hstart⟩ := (Option.any_eq_true _ _).mp h
  refine .inr ⟨t, rfl, c, hc, ?_⟩
  rintro rfl
  exact absurd hstart (by decide)

theorem startsWord_words {ws : List String} (hne : ws ≠ []) (h : ws ⊆ leads) :
    startsWord (" ".intercalate ws) = true := by
  have hall : ∀ w ∈ leads, startsWord w = true := by decide
  obtain ⟨w, ws, rfl⟩ := List.exists_cons_of_ne_nil hne
  have hw := hall w (h List.mem_cons_self)
  cases ws with
  | nil => rwa [String.intercalate_singleton]
  | cons v ws =>
    rw [String.intercalate_cons_cons]
    exact startsWord_append (startsWord_append hw _) _

theorem startsWord_variableText {modifiers : List String} (h : modifiers ⊆ leads) (name : String)
    (type : SwiftType) : startsWord (variableText modifiers name type) = true := by
  have hwords :=
    startsWord_words (by simp) (List.append_subset.mpr ⟨h, show ["var"] ⊆ leads by decide⟩)
  exact startsWord_append (startsWord_append (startsWord_append (startsWord_append hwords _) _) _) _

/-- How a member is written: with one line that declares it. -/
structure MemberBlock (lines : List String) (declaration : String) : Prop where
  indented : ∀ l ∈ lines, Indented l
  declares : lines.filter isDeclaration = [declaration]
  braced : Braced 1 (ofLines lines).toList

namespace MemberBlock

theorem line {t : String} (hstart : startsWord t = true) (ht : Braced 1 t.toList) :
    MemberBlock [memberLine t] (memberLine t) := by
  refine ⟨List.forall_mem_singleton.mpr (indented_of_startsWord hstart), ?_, ?_⟩
  · rw [List.filter_cons_of_pos (by rw [isDeclaration_memberLine, hstart])]
    rfl
  · have hblanks : Balanced "    ".toList := .of_nest (by decide)
    rw [toList_ofLines, List.flatMap_singleton, memberLine, String.toList_append]
    exact ((Braced.of_balanced hblanks).append ht).append (.of_balanced balanced_line)

theorem body {t : String} (hstart : startsWord t = true) (ht : Balanced t.toList) :
    MemberBlock [memberLine (t ++ " \x7b"), memberLine "\x7d"] (memberLine (t ++ " \x7b")) := by
  have hopen := startsWord_append hstart " \x7b"
  refine ⟨?_, ?_, ?_⟩
  · rw [List.forall_mem_cons, List.forall_mem_singleton]
    exact ⟨indented_of_startsWord hopen, .inr ⟨"\x7d", rfl, '}', rfl, by decide⟩⟩
  · rw [List.filter_cons_of_pos (by rw [isDeclaration_memberLine, hopen])]
    rfl
  · have hblanks : Balanced "    ".toList := .of_nest (by decide)
    have hblank : Balanced [' '] := .of_nest (by decide)
    have hinside : Balanced ("\n    ".toList) := .of_nest (by decide)
    have hbraces := (Braced.of_balanced (k := 0) hinside).braces
    have hlines : (ofLines [memberLine (t ++ " \x7b"), memberLine "\x7d"]).toList =
        "    ".toList ++ t.toList ++ [' '] ++ '{' :: ("\n    ".toList ++ ['}']) ++ ['\n'] := by
      simp [toList_ofLines, memberLine]
    rw [hlines]
    exact ((((Braced.of_balanced hblanks).append (.of_balanced ht)).append
      (.of_balanced hblank)).append
      hbraces).append (.of_balanced balanced_line)

theorem comments {m : Member} (hm : m.Plain) {lines : List String} {declaration : String}
    (h : MemberBlock lines declaration) : MemberBlock (m.commentLines ++ lines) declaration := by
  have hcomment : ∀ l ∈ m.commentLines, Indented l ∧ isDeclaration l = false ∧
      Balanced l.toList := by
    intro l hl
    obtain ⟨a, ha, rfl⟩ := List.mem_map.mp hl
    have htext : Tame true (memberLine ("// " ++ a)).toList := (tame_joint (by decide)).concat
      ((tame_joint (by decide)).concat (.of_isPlain (hm.annotations a ha)))
    have hstart : ("// " ++ a).toList.head? = some '/' := by simp
    refine ⟨.inr ⟨_, rfl, '/', hstart, by decide⟩, ?_, htext.balanced⟩
    rw [isDeclaration_memberLine, startsWord, hstart]
    decide
  refine ⟨List.forall_mem_append.mpr ⟨fun l hl => (hcomment l hl).1, h.indented⟩, ?_, ?_⟩
  · have hnone : m.commentLines.filter isDeclaration = [] :=
      List.filter_eq_nil_iff.mpr fun l hl => by simp [(hcomment l hl).2.1]
    rw [List.filter_append, hnone, h.declares]
    rfl
  · rw [ofLines_append, String.toList_append]
    exact (Braced.ofLines_of_balanced fun l hl => (hcomment l hl).2.2).append h.braced

end MemberBlock

def Ivar.declaration (v : Ivar) : String := memberLine v.text

def Property.declaration (inProtocol : Bool) (p : Property) : String :=
  memberLine (p.text inProtocol ++ p.accessors inProtocol)

def Method.declaration (inProtocol : Bool) (m : Method) : String :=
  memberLine (m.text inProtocol ++ if inProtocol then "" else " \x7b")

variable {unwraps : Bool}

theorem Ivar.Proper.written {v : Ivar} (h : v.Proper unwraps) :
    MemberBlock v.lines v.declaration := by
  refine (MemberBlock.line ?_ (.of_balanced h.tame_text.balanced)).comments h.member
  exact startsWord_variableText (modifiers_subset h.member) _ _

theorem Property.Proper.written {p : Property} (h : p.Proper unwraps) (inProtocol : Bool) :
    MemberBlock (p.lines inProtocol) (p.declaration inProtocol) := by
  have haccessors : Braced 1 (p.accessors inProtocol).toList := by
    have hinside : ∀ s ∈ [" get ", " get set "], Balanced s.toList := fun s hs => .of_nest (by
      revert s
      decide)
    have hblank : Balanced [' '] := .of_nest (by decide)
    unfold accessors
    split
    · exact .of_balanced .nil
    · split
      · exact (Braced.of_balanced hblank).append
          (Braced.of_balanced (k := 0) (hinside " get " (by decide))).braces
      · exact (Braced.of_balanced hblank).append
          (Braced.of_balanced (k := 0) (hinside " get set " (by decide))).braces
  refine (MemberBlock.line (startsWord_append ?_ _) ?_).comments h.member
  · exact startsWord_variableText (modifiers_subset h.member inProtocol) _ _
  · rw [String.toList_append]
    exact (Braced.of_balanced (h.tame_text inProtocol).balanced).append haccessors

theorem Method.Proper.startsWord_text {m : Method} (h : m.Proper unwraps) (inProtocol : Bool) :
    startsWord (m.text inProtocol) = true := by
  by_cases hne : m.modifiers inProtocol = []
  · -- only the word for functions can be missing, in front of an initializer
    have hinit : m.signature.isInitializer = true := by
      by_contra hinit
      simp [modifiers, hinit] at hne
    have hname : startsWord m.signature.name = true := by
      rw [h.signature.initializer hinit]
      decide
    rw [text, hne]
    exact startsWord_append
      (startsWord_append (startsWord_append (startsWord_append hname _) _) _) _
  · have hlead := startsWord_words hne (modifiers_subset h.member inProtocol)
    have hempty : (" ".intercalate (m.modifiers inProtocol)).isEmpty = false := by
      rw [Bool.eq_false_iff, ne_eq, String.isEmpty_iff]
      intro hempty
      rw [hempty] at hlead
      cases hlead
    rw [text, hempty]
    exact startsWord_append (startsWord_append hlead _) _

theorem Method.Proper.written {m : Method} (h : m.Proper unwraps) (inProtocol : Bool) :
    MemberBlock (m.lines inProtocol) (m.declaration inProtocol) := by
  have hstart := h.startsWord_text inProtocol
  have htext := (h.tame_text inProtocol).balanced
  rw [lines_eq, declaration]
  cases inProtocol with
  | true =>
    simp only [if_true, String.append_empty]
    exact (MemberBlock.line hstart (.of_balanced htext)).comments h.member
  | false => exact (MemberBlock.body hstart htext).comments h.member

/-! ### Lines of types -/

namespace TypeDeclaration

def declarations (d : TypeDeclaration) : List String :=
  d.ivars.map Ivar.declaration ++ d.properties.map (Property.declaration d.isProtocol)
    ++ d.methods.map (Method.declaration d.isProtocol)

structure LaidOut (d : TypeDeclaration) (lines : List String) : Prop where
  /-- A mark may stand in front of the line that opens the type. -/
  shape : ∃ mark opening body, lines = mark ++ opening :: (body ++ ["\x7d"]) ∧
    (mark = [] ∨ ∃ category, mark = ["// MARK: - " ++ category]) ∧
    opening.toList.head? ≠ some ' ' ∧ opening.toList.getLast? = some '{' ∧
    (∀ l ∈ body, Indented l) ∧ body.filter isDeclaration = d.declarations
  /-- No brace is open before the lines and behind them, and never more than two are. -/
  nested : nest 2 [] (ofLines lines).toList = some []

theorem filter_intercalate {blocks : List (List String)} :
    ([""].intercalate (blocks.filter (!·.isEmpty))).filter isDeclaration =
      blocks.flatMap (·.filter isDeclaration) := by
  have hall : ∀ blocks : List (List String), ([""].intercalate blocks).filter isDeclaration =
      blocks.flatMap (·.filter isDeclaration) := by
    intro blocks
    induction blocks with
    | nil => rfl
    | cons b blocks ih =>
      cases blocks with
      | nil => simp
      | cons b' blocks =>
        rw [List.intercalate_cons_cons, List.filter_append, List.filter_append, ih,
          show [""].filter isDeclaration = [] from rfl, List.append_nil, ← List.flatMap_cons]
  rw [hall]
  induction blocks with
  | nil => rfl
  | cons b blocks ih =>
    cases b with
    | nil => exact ih
    | cons l b =>
      rw [List.filter_cons_of_pos rfl, List.flatMap_cons, ih, List.flatMap_cons]

namespace Proper

variable {d : TypeDeclaration} (h : d.Proper unwraps)
include h

theorem forall_groups {P : List String → Prop}
    (hP : ∀ {α : Type} {f : α → List String} {g : α → String} {xs : List α},
      (∀ x ∈ xs, MemberBlock (f x) (g x)) → P (xs.flatMap f)) :
    ∀ b ∈ [d.ivars.flatMap Ivar.lines, d.properties.flatMap (Property.lines d.isProtocol),
      d.methods.flatMap (Method.lines d.isProtocol)], P b := by
  simp only [List.forall_mem_cons, List.not_mem_nil, false_imp_iff, implies_true, and_true]
  exact ⟨hP fun v hv => (h.ivars v hv).written, hP fun p hp => (h.properties p hp).written _,
    hP fun m hm => (h.methods m hm).written _⟩

theorem indented_memberLines : ∀ l ∈ d.memberLines, Indented l := by
  refine forall_mem_intercalate (List.forall_mem_singleton.mpr (.inl rfl)) fun b hb => ?_
  refine h.forall_groups (P := fun b => ∀ l ∈ b, Indented l) (fun hxs l hl => ?_) b
    (List.mem_filter.mp hb).1
  obtain ⟨x, hx, hl⟩ := List.mem_flatMap.mp hl
  exact (hxs x hx).indented l hl

theorem braced_memberLines : Braced 1 (ofLines d.memberLines).toList := by
  refine Braced.ofLines_intercalate fun b hb => ?_
  exact h.forall_groups (P := fun b => Braced 1 (ofLines b).toList)
    (fun hxs => Braced.ofLines_flatMap fun x hx => (hxs x hx).braced) b (List.mem_filter.mp hb).1

theorem filter_memberLines : d.memberLines.filter isDeclaration = d.declarations := by
  have hmap : ∀ {α : Type} {f : α → List String} {g : α → String} {xs : List α},
      (∀ x ∈ xs, MemberBlock (f x) (g x)) → (xs.flatMap f).filter isDeclaration = xs.map g := by
    intro α f g xs hxs
    rw [List.filter_flatMap, ← List.flatMap_pure_eq_map]
    exact List.flatMap_congr fun x hx => (hxs x hx).declares
  rw [memberLines, filter_intercalate, declarations]
  simp only [List.flatMap_cons, List.flatMap_nil, List.append_nil, List.append_assoc,
    hmap fun v hv => (h.ivars v hv).written, hmap fun p hp => (h.properties p hp).written _,
    hmap fun m hm => (h.methods m hm).written _]

omit h in
theorem lines_eq : d.lines = d.mark ++ (d.text ++ " \x7b") :: (d.memberLines ++ ["\x7d"]) := by
  simp [lines, openingLines_eq]

theorem braced_lines : Braced 2 (ofLines d.lines).toList := by
  have hmark : Braced 2 (ofLines d.mark).toList :=
    .ofLines_of_balanced fun l hl => (h.tame_mark l hl).balanced
  have hblank : Balanced [' '] := .of_nest (by decide)
  have hbody := (Braced.append (.of_balanced balanced_line) h.braced_memberLines).braces
  have htext : (ofLines d.lines).toList = (ofLines d.mark).toList ++ (d.text.toList ++ [' ']
      ++ '{' :: (['\n'] ++ (ofLines d.memberLines).toList ++ ['}']) ++ ['\n']) := by
    rw [lines_eq, ofLines_append, String.toList_append]
    simp [toList_ofLines]
  rw [htext]
  exact hmark.append
    ((((Braced.of_balanced h.tame_text.balanced).append (.of_balanced hblank)).append
    hbody).append (.of_balanced balanced_line))

theorem laidOut : d.LaidOut d.lines := by
  refine ⟨⟨d.mark, _, d.memberLines, lines_eq, ?_, ?_, ?_, h.indented_memberLines,
    h.filter_memberLines⟩, h.braced_lines 2 [] (by decide)⟩
  · unfold mark
    split
    · exact .inr ⟨_, rfl⟩
    · exact .inl rfl
  · have hall : ∀ w ∈ ["class ", "extension ", "@objc protocol "],
        w.toList.head?.any (· ≠ ' ') = true := by decide
    obtain ⟨c, hc, hne⟩ := (Option.any_eq_true _ _).mp (hall _ d.word_mem)
    rw [text, String.toList_append, String.toList_append, List.append_assoc, List.head?_append, hc]
    simpa using hne
  · simp

end Proper

theorem Proper.of_unsourced {d : TypeDeclaration} (h : d.unsourced.Proper unwraps) :
    d.Proper unwraps := by
  refine ⟨h.category, h.name, h.superclass, h.protocols, fun v hv => ?_, fun p hp => ?_,
    fun m hm => ?_⟩
  · obtain ⟨hmember, hname, htype⟩ := h.ivars _ (List.mem_map_of_mem hv)
    exact ⟨⟨hmember.attributes, hmember.annotations⟩, hname, htype⟩
  · obtain ⟨hmember, hname, htype⟩ := h.properties _ (List.mem_map_of_mem hp)
    exact ⟨⟨hmember.attributes, hmember.annotations⟩, hname, htype⟩
  · obtain ⟨hmember, hsignature⟩ := h.methods _ (List.mem_map_of_mem hm)
    exact ⟨⟨hmember.attributes, hmember.annotations⟩, hsignature⟩

end TypeDeclaration

/-! ### Headers -/

open Grammar

namespace Header

/-- For every header that can be parsed and every policy there is source, made of one block of
lines for each type, which empty lines set apart. Its brackets are properly nested, and never more
than two braces are open. No line has a line break in it, and on each line the brackets that are no
braces close each other. -/
theorem convert_laidOut {text : String} {tree : Node} (h : parse text = .ok tree)
    (policy : Declaration.Policy) : ∃ o swift blocks,
      outline text = .ok o ∧ convert policy text = .ok swift ∧
      swift = "\n".intercalate (blocks.map ofLines) ∧ nest 2 [] swift.toList = some [] ∧
      (∀ lines ∈ blocks, ∀ l ∈ lines, (∀ c ∈ lineBreaks, c ∉ l.toList) ∧
        nest 0 [] (l.toList.filter (!isBrace ·)) = some []) ∧
      List.Forall₂ TypeDeclaration.LaidOut (Declaration.ofOutline policy o) blocks := by
  obtain ⟨o, houtline, ho⟩ := Declaration.exists_outlineWithin h DeclaredType.defaultMaxDepth
  have hproper : ∀ d ∈ Declaration.ofOutline policy o, d.Proper true := by
    intro d hd
    refine TypeDeclaration.Proper.of_unsourced (proper_of_parse h (.inl rfl) policy rfl _ ?_)
    rw [← Outline.ofOutline_eq_direct h ho policy]
    exact List.mem_map_of_mem hd
  have hconvert : convert policy text = .ok (ofLines
      ([""].intercalate ((Declaration.ofOutline policy o).map TypeDeclaration.lines))) := by
    simp only [convert, outline, houtline, bind, Except.bind]
    rfl
  refine ⟨o, _, (Declaration.ofOutline policy o).map TypeDeclaration.lines, houtline, hconvert,
    ofLines_intercalate _, ?_, fun lines hlines l hl => ?_, ?_⟩
  · refine Braced.ofLines_intercalate (k := 2) (fun b hb => ?_) 2 [] (by decide)
    obtain ⟨d, hd, rfl⟩ := List.mem_map.mp hb
    exact (hproper d hd).braced_lines
  · obtain ⟨d, hd, rfl⟩ := List.mem_map.mp hlines
    have horderly := (hproper d hd).orderly_lines l hl
    exact ⟨notMem_of_prints horderly.prints, horderly.balanced 0 []⟩
  · rw [List.forall₂_map_right_iff, List.forall₂_same]
    exact fun d hd => (hproper d hd).laidOut

/-- A category with a comment on its property, and a protocol. -/
def categoryHeader : String := ofLines
  ["@interface A (C)", "@property (getter=isOn) BOOL on;", "- (id)f:(int (^)(A *))g;", "@end",
    "@protocol P", "@property int n[2];", "@end"]

theorem convert_laidOut_category : ∃ o swift blocks,
    outline categoryHeader = .ok o ∧ convert {} categoryHeader = .ok swift ∧
      swift = ofLines ["// MARK: - C", "extension A \x7b", "    // Objective-C property 'on'",
        "    var isOn: Bool", "", "    func f(_ g: ((A?) -> CInt)!) -> AnyObject! \x7b", "    \x7d",
        "\x7d", "", "@objc protocol P \x7b", "    var n: (CInt, CInt) \x7b get set \x7d", "\x7d"] ∧
      swift = "\n".intercalate (blocks.map ofLines) ∧ nest 2 [] swift.toList = some [] ∧
      List.Forall₂ TypeDeclaration.LaidOut (Declaration.ofOutline {} o) blocks := by
  have htext : (convert {} categoryHeader).toOption = some (ofLines
      ["// MARK: - C", "extension A \x7b", "    // Objective-C property 'on'",
        "    var isOn: Bool", "", "    func f(_ g: ((A?) -> CInt)!) -> AnyObject! \x7b", "    \x7d",
        "\x7d", "", "@objc protocol P \x7b", "    var n: (CInt, CInt) \x7b get set \x7d",
        "\x7d"]) := by
    decide +kernel
  cases h : parse categoryHeader with
  | error f =>
    rw [convert, outline, outlineWithin, h] at htext
    cases htext
  | ok tree =>
    obtain ⟨o, swift, blocks, ho, hswift, hblocks, hnest, -, hlaid⟩ := convert_laidOut h {}
    rw [hswift] at htext
    exact ⟨o, swift, blocks, ho, hswift, Option.some.inj htext, hblocks, hnest, hlaid⟩

end Header

end HeaderBridge
