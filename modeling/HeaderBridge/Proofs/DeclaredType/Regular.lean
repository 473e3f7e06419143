import HeaderBridge.Proofs.DeclaredType.Canonical
import HeaderBridge.Proofs.Grammar.Trimming

/-! # Regular types

Types whose words stand where a spelling has room for them: ownership words and
`__kindof` in front of everything, nullability words behind a base, behind a caret
or behind a star, and all other words behind a base or behind a star. Canonical
types are regular.
-/

namespace HeaderBridge.DeclaredType

open Grammar Grammar.Expr

/-! ### Words and names -/

def frontWords : List String := Rule.arcBehaviourSpecifier.spellings ++ ["__kindof"]

def starWords : List String := pointerQualifiers ++ ["IBOutlet", "IBInspectable", "__unused"]

structure IsGenericName (n : String) : Prop where
  ident : IsIdent n.toList
  scalar : n ∉ scalarStarts
  word : prefixRule? n = none

theorem IsTypeName.not_mem {n : String} (h : IsTypeName n) :
    prefixRule? n = none ∧ n ∉ Rule.tagKeyword.spellings ∧ n ∉ scalarStarts := by
  simpa [isReserved, and_assoc] using h.2.1

theorem IsTypeName.isGenericName {n : String} (h : IsTypeName n) : IsGenericName n :=
  ⟨h.1, h.not_mem.2.2, h.not_mem.1⟩

/-! ### Lengths of arrays -/

def opensComment : List Char → Bool
  | '/' :: '/' :: _ | '/' :: '*' :: _ => true
  | _ => false

structure IsLength (l : String) : Prop where
  ends : l = "" ∨ Tidy l.toList
  inside : ∀ c ∈ l.toList, c ≠ ']'
  comment : opensComment l.toList = false

theorem isLength_of_isIdentChar {l : String} (h : ∀ c ∈ l.toList, isIdentChar c = true) :
    IsLength l := by
  refine ⟨?_, fun c hc => ?_, ?_⟩
  · by_cases hl : l.toList = []
    · exact .inl (String.toList_eq_nil_iff.mp hl)
    · refine .inr ⟨⟨_, List.head?_eq_some_head hl, ?_⟩, ⟨_, List.getLast?_eq_some_getLast hl, ?_⟩⟩
      · exact isBlank_of_isIdentChar (h _ (List.head_mem hl))
      · exact isBlank_of_isIdentChar (h _ (List.getLast_mem hl))
  · rintro rfl
    exact absurd (h _ hc) (by decide)
  · unfold opensComment
    split
    · next hl => exact absurd (h '/' (by simp [hl])) (by decide)
    · next hl => exact absurd (h '/' (by simp [hl])) (by decide)
    · rfl

theorem isBlank_of_isGapBlank {c : Char} (h : isGapBlank c = true) : Text.isBlank c = true := by
  simp only [isGapBlank, Bool.or_eq_true, beq_iff_eq] at h
  rcases h with rfl | rfl | rfl | rfl <;> rfl

theorem IsLength.solid {l : String} (h : IsLength l) (r : List Char) :
    Solid (l.toList ++ ']' :: r) := by
  rcases h.ends with rfl | htidy
  · exact solid_cons rfl (by decide)
  · obtain ⟨c, hc, hblank⟩ := htidy.first
    have hgap : isGapBlank c = false := by
      by_contra hgap
      simp [isBlank_of_isGapBlank (by simpa using hgap)] at hblank
    have hcomment := h.comment
    cases hl : l.toList with
    | nil => simp [hl] at hc
    | cons d ds =>
      rw [hl] at hc hcomment
      obtain rfl : d = c := by simpa using hc
      by_cases hd : d = '/'
      · subst hd
        cases ds with
        | nil => rfl
        | cons e es =>
          rw [List.cons_append, List.cons_append, Solid, gapStep?]
          · rfl
          · rintro cs - he
            obtain ⟨rfl, -⟩ := List.cons.inj he
            cases hcomment
          · rintro cs - he
            obtain ⟨rfl, -⟩ := List.cons.inj he
            cases hcomment
      · exact solid_cons hgap hd

theorem IsLength.trim {l : String} (h : IsLength l) : Text.trim l = l := by
  rcases h.ends with rfl | htidy
  · rfl
  · have htrim := htidy.trim
    rwa [String.ofList_toList] at htrim

/-! ### Stages -/

/-- The stages in which a type is put together. -/
inductive Stage where
  | base | qualified | pointer | argument | array | direct | declared

/-- Regular types up to a stage. -/
inductive Regular : Stage → DeclaredType → Prop where
  | void : Regular .base void
  | name {n : String} : IsTypeName n → Regular .base (named n)
  | scalar {n : String} : IsScalar n → n ≠ "void" → Regular .base (named n)
  | object {ps : List String} : (∀ p ∈ ps, IsIdent p.toList) → Regular .base (object ps)
  /-- Where all arguments are single words, they are names, whatever these words are elsewhere. -/
  | names {n : String} {ps : List String} : IsGenericName n → n ≠ "id" → ps ≠ [] →
      (∀ p ∈ ps, IsIdent p.toList) → Regular .base (generic n (ps.map named))
  | arguments {n : String} {ts : List DeclaredType} : IsGenericName n →
      (∀ t ∈ ts, Regular .argument t) → (¬ ∀ t ∈ ts, IsIdent t.spelling.toList) →
      Regular .base (generic n ts)
  | qualify {t : DeclaredType} {qs : List String} : Regular .base t →
      (∀ q ∈ qs, q ∈ baseQualifiers) → Regular .qualified (t.qualify qs)
  | ofQualified {t : DeclaredType} : Regular .qualified t → Regular .pointer t
  | star {t : DeclaredType} {qs : List String} : Regular .pointer t → (∀ q ∈ qs, q ∈ starWords) →
      Regular .pointer ((pointer t).qualify qs)
  /-- The nullability words of a base stand behind all its other words. -/
  | ownBase {t : DeclaredType} {ns ss : List String} : Regular .qualified t →
      (∀ n ∈ ns, n ∈ Rule.nullabilitySpecifier.spellings) → (∀ s ∈ ss, s ∈ frontWords) →
      Regular .argument ((t.qualify ns).specify ss)
  | ownPointer {t : DeclaredType} {ss : List String} : Regular .pointer t →
      (∀ s ∈ ss, s ∈ frontWords) → Regular .argument (t.specify ss)
  | ofPointer {t : DeclaredType} : Regular .pointer t → Regular .array t
  | array {t : DeclaredType} {l : String} : Regular .array t → IsLength l →
      Regular .array (array t l)
  | ofArray {t : DeclaredType} : Regular .array t → Regular .direct t
  | block {r : DeclaredType} {ps : List DeclaredType} {qs : List String} : Regular .pointer r →
      (∀ p ∈ ps, Regular .declared p) → ps ≠ [.void] →
      (qs = [] ∨ ∃ q ∈ Rule.nullabilitySpecifier.spellings, qs = [q]) →
      Regular .direct ((block none r ps).qualify qs)
  | ofArgument {t : DeclaredType} : Regular .argument t → Regular .declared t
  | front {t : DeclaredType} {ss : List String} : Regular .direct t → (∀ s ∈ ss, s ∈ frontWords) →
      Regular .declared (t.specify ss)

def Layer.stage : Layer → Stage
  | .base => .base
  | .qualified => .qualified
  | .pointer => .pointer
  | .array => .array
  | .declared => .declared

theorem mem_starWords {q : String} (h : q ∈ pointerQualifiers) : q ∈ starWords :=
  List.mem_append_left _ h

theorem map_named_spelling {ts : List DeclaredType} (h : ∀ t ∈ ts, ∃ m, t = named m) :
    (ts.map spelling).map named = ts := by
  rw [List.map_map, List.map_congr_left (g := id) fun t ht => ?_, List.map_id]
  obtain ⟨m, rfl⟩ := h t ht
  rfl

theorem Canonical.regular {layer : Layer} {t : DeclaredType} (h : Canonical layer t) :
    Regular layer.stage t := by
  have hnone : ∀ {ws : List String}, ∀ s ∈ [], s ∈ ws := by simp
  induction h with
  | void => exact .void
  | name hn => exact .name hn
  | scalar hn hvoid => exact .scalar hn hvoid
  | object hps => exact .object hps
  | @generic n ts hn hne _ hnames ih =>
    by_cases hall : ∀ t ∈ ts, IsIdent t.spelling.toList
    · rw [← map_named_spelling (hnames hall)]
      exact .names hn.isGenericName hn.2.2 (by simpa using hne) (by simpa using hall)
    · exact .arguments hn.isGenericName (fun t ht => @Regular.ownPointer t [] (ih t ht) hnone) hall
  | @ofBase t _ ih => exact @Regular.qualify t [] ih hnone
  | @qualifiedBase t qs _ hne hqs ih =>
    obtain ⟨q, qs, rfl⟩ := List.exists_cons_of_ne_nil hne
    exact .qualify ih hqs
  | ofQualified _ ih => exact .ofQualified ih
  | @pointer t _ ih => exact @Regular.star t [] ih hnone
  | @qualifiedPointer t qs _ hne hqs ih =>
    obtain ⟨q, qs, rfl⟩ := List.exists_cons_of_ne_nil hne
    exact .star ih fun p hp => mem_starWords (hqs p hp)
  | ofPointer _ ih => exact .ofPointer ih
  | array _ hl ih => exact .array ih (isLength_of_isIdentChar hl)
  | @ofArray t _ ih => exact @Regular.front t [] (.ofArray ih) hnone
  | @block r ps _ _ hvoid ihr ihps =>
    exact @Regular.front _ [] (@Regular.block r ps [] ihr ihps hvoid (.inl rfl)) hnone
  | @qualifiedBlock r ps q _ _ hvoid hq ihr ihps =>
    exact @Regular.front _ [] (@Regular.block r ps [q] ihr ihps hvoid (.inr ⟨q, hq, rfl⟩)) hnone

end HeaderBridge.DeclaredType
