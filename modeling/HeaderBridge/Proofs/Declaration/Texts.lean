import HeaderBridge.Proofs.Declaration.Proper

/-! # The texts of proper declarations

What declares a member is a tame text, but for the braces behind it. All lines of the
source of proper declarations are orderly.
-/

namespace HeaderBridge

open Text

variable {unwraps : Bool}

/-! ### Types -/

namespace SwiftType

theorem composes_tame (unwraps : Bool) : Composes unwraps (Tame unwraps) where
  word := by
    have hall : ∀ w ∈ ownWords, isTame w = true := by decide
    exact fun w hw => .of_isTame (hall w hw)
  join {c u v} hc hmark hu hv := by
    have hall : ∀ unwraps, ∀ c ∈ separators, (c = '!' → unwraps = true) →
        shows unwraps c = true ∧ isLoose c = true := by decide
    obtain ⟨hshows, hloose⟩ := hall unwraps c hc hmark
    exact hu.append ((Tame.singleton hshows hloose).append hv)
  round := Tame.round
  square := Tame.square
  angle {u v} hu hv := by
    have hall : ∀ w ∈ ["<", ">"], isTame w = true := by decide
    have hopen : Tame unwraps ['<'] := .of_isTame (hall "<" (by decide))
    have hclose : Tame unwraps ['>'] := .of_isTame (hall ">" (by decide))
    exact hu.append (hopen.append (hv.append hclose))

theorem tame_render {t : SwiftType} (h : t.isProper isPlain unwraps = true) :
    Tame unwraps t.render.toList := by
  have hmark : Tame unwraps truncationMarker.toList :=
    .of_isPlain (show isPlain truncationMarker = true by decide)
  rw [render_eq]
  exact (composes_tame unwraps).renderWithin (fun _ => .of_isPlain) (some maxLevels) 0
    (fun _ => hmark) t h

end SwiftType

/-! ### Words -/

def leads : List String :=
  ["@objc optional", "@objc", "private", "public", "private(set)", "static", "class", "func",
    "weak", "unowned(unsafe)", "var"]

/-- The texts between the words, the names and the types of source. -/
def joints : List String := ["", " ", ": ", "_ ", " -> ", "    ", "// ", "class ", "extension ",
  "// MARK: - ", "@objc protocol "]

theorem tame_lead {w : String} (h : w ∈ leads) : Tame unwraps w.toList := by
  have hall : ∀ w ∈ leads, isTame w = true := by decide
  exact .of_isTame (hall w h)

theorem tame_joint {w : String} (h : w ∈ joints) : Tame unwraps w.toList := by
  have hall : ∀ w ∈ joints, isTame w = true := by decide
  exact .of_isTame (hall w h)

theorem tame_words {ws : List String} (h : ws ⊆ leads) : Tame unwraps (" ".intercalate ws).toList :=
  (SwiftType.composes_tame unwraps).intercalate (by decide) (by decide) fun _ hw => tame_lead (h hw)

theorem Member.leadWords_subset {m : Member} (h : m.Plain) (isOptional : Bool) :
    m.leadWords isOptional ⊆ leads := by
  intro w hw
  rcases List.mem_append.mp hw with hw | hw
  · split at hw
    · rw [List.mem_singleton.mp hw]
      decide
    · rw [h.attributes w hw]
      decide
  · have hall : ∀ a : AccessLevel, ∀ w ∈ a.word?, w ∈ leads := by
      intro a
      cases a <;> simp [AccessLevel.word?, leads]
    exact hall m.access w (Option.mem_toList.mp hw)

theorem Lowering.Lowered.modifierWords_subset (l : Lowering.Lowered) : l.modifierWords ⊆ leads := by
  intro w hw
  obtain ⟨o, -, ho⟩ := Option.bind_eq_some_iff.mp (Option.mem_toList.mp hw)
  cases o with
  | weak | unownedUnsafe =>
    obtain rfl := Option.some.inj ho
    decide
  | strong | autoreleasing => cases ho

theorem ite_subset_leads {c : Prop} [Decidable c] {word : String} (h : word ∈ leads) :
    (if c then [word] else []) ⊆ leads := by
  split
  · simpa using h
  · simp

/-! ### Members -/

theorem tame_variableText {modifiers : List String} {name : String} {type : SwiftType}
    (hmodifiers : modifiers ⊆ leads) (hname : isPlain name = true)
    (htype : type.isProper isPlain unwraps = true) :
    Tame unwraps (variableText modifiers name type).toList := by
  have hwords : modifiers ++ ["var"] ⊆ leads :=
    List.append_subset.mpr ⟨hmodifiers, by decide⟩
  exact ((((tame_words hwords).concat (tame_joint (by decide))).concat (.of_isPlain hname)).concat
    (tame_joint (by decide))).concat (SwiftType.tame_render htype)

def Ivar.text (v : Ivar) : String :=
  variableText (v.member.leadWords false ++ v.storage.modifierWords) v.name v.storage.type

theorem Ivar.lines_eq (v : Ivar) : v.lines = v.member.commentLines ++ [memberLine v.text] := rfl

theorem Ivar.modifiers_subset {v : Ivar} (h : v.member.Plain) :
    v.member.leadWords false ++ v.storage.modifierWords ⊆ leads :=
  List.append_subset.mpr ⟨Member.leadWords_subset h _, v.storage.modifierWords_subset⟩

theorem Ivar.Proper.tame_text {v : Ivar} (h : v.Proper unwraps) : Tame unwraps v.text.toList :=
  tame_variableText (modifiers_subset h.member) h.name h.type

def Property.modifiers (inProtocol : Bool) (p : Property) : List String :=
  p.member.leadWords (inProtocol && p.isOptional)
    ++ (if p.isReadonly && !inProtocol then ["private(set)"] else [])
    ++ (if p.member.isStatic then ["static"] else [])
    ++ p.storage.modifierWords

def Property.text (inProtocol : Bool) (p : Property) : String :=
  variableText (p.modifiers inProtocol) p.name p.storage.type

/-- The accessors that a protocol asks for. -/
def Property.accessors (inProtocol : Bool) (p : Property) : String :=
  if !inProtocol then "" else if p.isReadonly then " \x7b get \x7d" else " \x7b get set \x7d"

theorem Property.lines_eq (inProtocol : Bool) (p : Property) : p.lines inProtocol =
    p.member.commentLines ++ [memberLine (p.text inProtocol ++ p.accessors inProtocol)] := rfl

theorem Property.modifiers_subset {p : Property} (h : p.member.Plain) (inProtocol : Bool) :
    p.modifiers inProtocol ⊆ leads := by
  simp only [modifiers, List.append_subset]
  exact ⟨⟨⟨Member.leadWords_subset h _, ite_subset_leads (by decide)⟩,
    ite_subset_leads (by decide)⟩, p.storage.modifierWords_subset⟩

theorem Property.Proper.tame_text {p : Property} (h : p.Proper unwraps) (inProtocol : Bool) :
    Tame unwraps (p.text inProtocol).toList :=
  tame_variableText (modifiers_subset h.member inProtocol) h.name h.type

theorem Parameter.Proper.tame_text {p : Parameter} (h : p.Proper unwraps) :
    Tame unwraps p.text.toList := by
  have hlabel := h.label
  have hname : Tame unwraps p.name.toList := .of_isPlain h.name
  have hcolon : Tame unwraps ": ".toList := tame_joint (by decide)
  have htype := SwiftType.tame_render h.type
  unfold Parameter.text
  cases hl : p.label with
  | none => exact (((tame_joint (by decide)).concat hname).concat hcolon).concat htype
  | some label =>
    rw [hl, Option.all_some] at hlabel
    have hlabel : Tame unwraps label.toList := .of_isPlain hlabel
    dsimp only
    split
    · exact (hlabel.concat hcolon).concat htype
    · exact (((hlabel.concat (tame_joint (by decide))).concat hname).concat hcolon).concat htype

theorem Signature.Proper.tame_text {s : Signature} (h : s.Proper unwraps) :
    Tame unwraps s.text.toList := by
  have hparameters : ∀ t ∈ s.parameters.map Parameter.text, Tame unwraps t.toList := by
    intro t ht
    obtain ⟨p, hp, rfl⟩ := List.mem_map.mp ht
    exact (h.parameters p hp).tame_text
  have hlist := ((SwiftType.composes_tame unwraps).list hparameters).round
  have hname : Tame unwraps s.name.toList := .of_isPlain h.name
  have hcall := hname.append hlist
  have hresult := SwiftType.tame_render h.result
  unfold Signature.text
  refine Tame.concat (by simpa using hcall) ?_
  split
  · exact tame_joint (by decide)
  · exact (tame_joint (by decide)).concat hresult

def Method.modifiers (inProtocol : Bool) (m : Method) : List String :=
  m.member.leadWords (inProtocol && m.isOptional)
    ++ if m.signature.isInitializer then []
      else (if m.member.isStatic then [if inProtocol then "static" else "class"] else []) ++
        ["func"]

def Method.text (inProtocol : Bool) (m : Method) : String :=
  (if (" ".intercalate (m.modifiers inProtocol)).isEmpty then ""
    else " ".intercalate (m.modifiers inProtocol) ++ " ") ++ m.signature.text

theorem Method.lines_eq (inProtocol : Bool) (m : Method) : m.lines inProtocol =
    m.member.commentLines ++ if inProtocol then [memberLine (m.text inProtocol)]
      else [memberLine (m.text inProtocol ++ " \x7b"), memberLine "\x7d"] := rfl

theorem Method.modifiers_subset {m : Method} (h : m.member.Plain) (inProtocol : Bool) :
    m.modifiers inProtocol ⊆ leads := by
  refine List.append_subset.mpr ⟨Member.leadWords_subset h _, ?_⟩
  split
  · simp
  · exact List.append_subset.mpr ⟨ite_subset_leads (by cases inProtocol <;> decide), by decide⟩

theorem Method.Proper.tame_text {m : Method} (h : m.Proper unwraps) (inProtocol : Bool) :
    Tame unwraps (m.text inProtocol).toList := by
  refine Tame.concat ?_ h.signature.tame_text
  split
  · exact tame_joint (by decide)
  · exact (tame_words (Method.modifiers_subset h.member _)).concat (tame_joint (by decide))

/-! ### Types -/

def TypeDeclaration.word (d : TypeDeclaration) : String :=
  match d.kind with
  | .classType => "class "
  | .extensionType _ => "extension "
  | .protocolType => "@objc protocol "

def TypeDeclaration.mark (d : TypeDeclaration) : List String :=
  match d.kind with
  | .extensionType (some category) => ["// MARK: - " ++ category]
  | _ => []

def TypeDeclaration.text (d : TypeDeclaration) : String := d.word ++ (d.name ++ d.inheritanceText)

theorem TypeDeclaration.openingLines_eq (d : TypeDeclaration) :
    d.openingLines = d.mark ++ [d.text ++ " \x7b"] := by
  unfold openingLines mark text word
  split <;> simp [*, String.append_assoc]

theorem TypeDeclaration.word_mem (d : TypeDeclaration) :
    d.word ∈ ["class ", "extension ", "@objc protocol "] := by
  unfold word
  split <;> simp

theorem TypeDeclaration.Proper.tame_text {d : TypeDeclaration} (h : d.Proper unwraps) :
    Tame unwraps d.text.toList := by
  have hnames : ∀ n ∈ d.superclass.toList ++ d.protocols, Tame unwraps n.toList := by
    refine List.forall_mem_append.mpr ⟨fun n hn => ?_, fun n hn => .of_isPlain (h.protocols n hn)⟩
    exact .of_isPlain ((Option.all_eq_true _ _).mp h.superclass n (Option.mem_toList.mp hn))
  have hinheritance : Tame unwraps d.inheritanceText.toList := by
    unfold inheritanceText
    split
    · exact tame_joint (by decide)
    · exact (tame_joint (by decide)).concat ((SwiftType.composes_tame unwraps).list hnames)
  have hword : ∀ w ∈ ["class ", "extension ", "@objc protocol "], w ∈ joints := by decide
  exact (tame_joint (hword _ d.word_mem)).concat ((Tame.of_isPlain h.name).concat hinheritance)

/-! ### Lines -/

theorem orderly_brace {w : String}
    (h : w ∈ ["\x7d", " \x7b", "", " \x7b get \x7d", " \x7b get set \x7d"]) :
    Orderly unwraps w.toList := by
  have hall : ∀ w ∈ ["\x7d", " \x7b", "", " \x7b get \x7d", " \x7b get set \x7d"],
      isOrderly w = true := by decide
  exact .of_isOrderly (hall w h)

theorem orderly_memberLine {s : String} (h : Orderly unwraps s.toList) :
    Orderly unwraps (memberLine s).toList :=
  (Orderly.of_tame (tame_joint (by decide))).concat h

theorem Member.Plain.orderly_commentLines {m : Member} (h : m.Plain) :
    ∀ l ∈ m.commentLines, Orderly unwraps l.toList := by
  intro l hl
  obtain ⟨a, ha, rfl⟩ := List.mem_map.mp hl
  exact orderly_memberLine (.of_tame
    ((tame_joint (by decide)).concat (.of_isPlain (h.annotations a ha))))

theorem Property.orderly_accessors (inProtocol : Bool) (p : Property) :
    Orderly unwraps (p.accessors inProtocol).toList := by
  unfold accessors
  repeat' split
  all_goals exact orderly_brace (by decide)

namespace TypeDeclaration.Proper

variable {d : TypeDeclaration} (h : d.Proper unwraps)
include h

theorem orderly_memberLines : ∀ l ∈ d.memberLines, Orderly unwraps l.toList := by
  refine forall_mem_intercalate (List.forall_mem_singleton.mpr (orderly_brace (by decide)))
    fun group hgroup l hl => ?_
  have hgroup := (List.mem_filter.mp hgroup).1
  simp only [List.mem_cons, List.not_mem_nil, or_false] at hgroup
  rcases hgroup with rfl | rfl | rfl
  · obtain ⟨v, hv, hl⟩ := List.mem_flatMap.mp hl
    have hv := h.ivars v hv
    rw [Ivar.lines_eq, List.mem_append, List.mem_singleton] at hl
    rcases hl with hl | rfl
    · exact hv.member.orderly_commentLines l hl
    · exact orderly_memberLine (.of_tame hv.tame_text)
  · obtain ⟨p, hp, hl⟩ := List.mem_flatMap.mp hl
    have hp := h.properties p hp
    rw [Property.lines_eq, List.mem_append, List.mem_singleton] at hl
    rcases hl with hl | rfl
    · exact hp.member.orderly_commentLines l hl
    · exact orderly_memberLine ((Orderly.of_tame (hp.tame_text _)).concat (p.orderly_accessors _))
  · obtain ⟨m, hm, hl⟩ := List.mem_flatMap.mp hl
    have hm := h.methods m hm
    have htext : Orderly unwraps (m.text d.isProtocol).toList := .of_tame (hm.tame_text _)
    rw [Method.lines_eq, List.mem_append] at hl
    rcases hl with hl | hl
    · exact hm.member.orderly_commentLines l hl
    · split at hl
      · rw [List.mem_singleton.mp hl]
        exact orderly_memberLine htext
      · rcases List.mem_pair.mp hl with rfl | rfl
        · exact orderly_memberLine (htext.concat (orderly_brace (by decide)))
        · exact orderly_memberLine (orderly_brace (by decide))

theorem tame_mark : ∀ l ∈ d.mark, Tame unwraps l.toList := by
  intro l hl
  unfold mark at hl
  split at hl
  · next category hkind =>
    rw [List.mem_singleton.mp hl]
    exact (tame_joint (by decide)).concat (.of_isPlain (h.category category hkind))
  · cases hl

theorem orderly_lines : ∀ l ∈ d.lines, Orderly unwraps l.toList := by
  simp only [lines, openingLines_eq, List.forall_mem_append, List.forall_mem_singleton]
  exact ⟨⟨⟨fun l hl => .of_tame (h.tame_mark l hl),
    (Orderly.of_tame h.tame_text).concat (orderly_brace (by decide))⟩, h.orderly_memberLines⟩,
      orderly_brace (by decide)⟩

end TypeDeclaration.Proper

theorem Declaration.orderly_sourceLines {ds : List TypeDeclaration}
    (h : ∀ d ∈ ds, d.Proper unwraps) : ∀ l ∈ sourceLines ds, Orderly unwraps l.toList := by
  refine forall_mem_intercalate (List.forall_mem_singleton.mpr (orderly_brace (by decide)))
    fun lines hlines => ?_
  obtain ⟨d, hd, rfl⟩ := List.mem_map.mp hlines
  exact (h d hd).orderly_lines

end HeaderBridge
