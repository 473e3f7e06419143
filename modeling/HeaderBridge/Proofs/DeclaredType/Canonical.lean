import HeaderBridge.DeclaredType.Spelling
import HeaderBridge.Proofs.DeclaredType.Structure
import HeaderBridge.Proofs.Grammar.Declarators

/-! # Canonical types

The types that their canonical spellings denote. They are built in layers: a base
with its qualifiers, stars with words behind them, and then arrays or a block.
-/

namespace HeaderBridge.DeclaredType

open Grammar Grammar.Expr

/-! ### Words -/

instance (i : List Char) : Decidable (IsIdent i) :=
  decidable_of_iff (startsIdent i = true ∧ ∀ c ∈ i, isIdentChar c = true)
    ⟨fun h => ⟨h.1, h.2⟩, fun h => ⟨h.start, h.chars⟩⟩

/-- A word that may not name a type: one that stands around types, a tag, or a word of a scalar. -/
def isReserved (n : String) : Bool :=
  (prefixRule? n).isSome || n ∈ Rule.tagKeyword.spellings || n ∈ scalarStarts

def IsTypeName (n : String) : Prop := IsIdent n.toList ∧ isReserved n = false ∧ n ≠ "id"

instance (n : String) : Decidable (IsTypeName n) :=
  inferInstanceAs (Decidable (IsIdent n.toList ∧ isReserved n = false ∧ n ≠ "id"))

def IsScalar (n : String) : Prop :=
  ∃ w ws, w ∈ scalarStarts ∧ (∀ v ∈ ws, v ∈ Rule.primitiveWord.spellings) ∧
    n = " ".intercalate (w :: ws)

def baseQualifiers : List String := ["const", "volatile", "restrict"]

def pointerQualifiers : List String := Rule.nullabilitySpecifier.spellings ++ baseQualifiers

/-! ### Layers -/

/-- The layers of a canonical type, each within the next. -/
inductive Layer where
  | base | qualified | pointer | array | declared

/-- Canonical types up to a layer. -/
inductive Canonical : Layer → DeclaredType → Prop where
  | void : Canonical .base void
  | name {n : String} : IsTypeName n → Canonical .base (named n)
  | scalar {n : String} : IsScalar n → n ≠ "void" → Canonical .base (named n)
  | object {ps : List String} : (∀ p ∈ ps, IsIdent p.toList) → Canonical .base (object ps)
  /-- Where all arguments are spelled as single words, they are taken for names. -/
  | generic {n : String} {ts : List DeclaredType} : IsTypeName n → ts ≠ [] →
      (∀ t ∈ ts, Canonical .pointer t) →
      ((∀ t ∈ ts, IsIdent t.spelling.toList) → ∀ t ∈ ts, ∃ m, t = named m) →
      Canonical .base (generic n ts)
  | ofBase {t : DeclaredType} : Canonical .base t → Canonical .qualified t
  | qualifiedBase {t : DeclaredType} {qs : List String} : Canonical .base t → qs ≠ [] →
      (∀ q ∈ qs, q ∈ baseQualifiers) → Canonical .qualified (qualified t qs)
  | ofQualified {t : DeclaredType} : Canonical .qualified t → Canonical .pointer t
  | pointer {t : DeclaredType} : Canonical .pointer t → Canonical .pointer (pointer t)
  | qualifiedPointer {t : DeclaredType} {qs : List String} : Canonical .pointer t → qs ≠ [] →
      (∀ q ∈ qs, q ∈ pointerQualifiers) → Canonical .pointer (qualified (pointer t) qs)
  | ofPointer {t : DeclaredType} : Canonical .pointer t → Canonical .array t
  | array {t : DeclaredType} {l : String} : Canonical .array t →
      (∀ c ∈ l.toList, isIdentChar c = true) → Canonical .array (array t l)
  | ofArray {t : DeclaredType} : Canonical .array t → Canonical .declared t
  | block {r : DeclaredType} {ps : List DeclaredType} : Canonical .pointer r →
      (∀ p ∈ ps, Canonical .declared p) → ps ≠ [.void] → Canonical .declared (block none r ps)
  | qualifiedBlock {r : DeclaredType} {ps : List DeclaredType} {q : String} : Canonical .pointer r →
      (∀ p ∈ ps, Canonical .declared p) → ps ≠ [.void] →
      q ∈ Rule.nullabilitySpecifier.spellings →
      Canonical .declared (qualified (block none r ps) [q])

/-! ### Levels -/

mutual

/-- How many levels of nesting it takes to read the canonical spelling of a type. -/
def levels : DeclaredType → Nat
  | void | named _ | object _ => 0
  | generic _ ts => if (spellings ts).all (fun s => IsIdent s.toList) then 0 else levelsOfAll ts + 1
  | pointer t | specified _ t | qualified t _ | array t _ => t.levels
  | block _ r ps => max r.levels (levelsOfAll ps + 1)

def levelsOfAll : List DeclaredType → Nat
  | [] => 0
  | t :: ts => max t.levels (levelsOfAll ts)

end

/-- A type, if so many levels are enough to read it. -/
def upTo (d : Nat) (t : DeclaredType) : Option DeclaredType := if t.levels ≤ d then some t else none

/-! ### Words one blank apart -/

def wordNode (q : String) : Node := .token ((prefixRule? q).getD .typeQualifier) q.toList

theorem text_wordNode (q : String) : (wordNode q).text = q := String.ofList_toList

theorem words_intercalate {qs : List String} (hne : qs ≠ [])
    (h : ∀ q ∈ qs, (prefixRule? q).isSome = true) :
    Words (" ".intercalate qs).toList (qs.map wordNode) := by
  have hword : ∀ q ∈ qs, prefixRule? (.ofList q.toList) =
      some ((prefixRule? q).getD .typeQualifier) := by
    intro q hq
    obtain ⟨r, hr⟩ := Option.isSome_iff_exists.mp (h q hq)
    rw [String.ofList_toList, hr]
    rfl
  rw [String.toList_intercalate]
  induction qs with
  | nil => exact absurd rfl hne
  | cons q qs ih =>
    cases qs with
    | nil => simpa [wordNode] using Words.one (hword q (by simp))
    | cons q' qs =>
      have hrest := ih (by simp) (fun p hp => h p (List.mem_cons_of_mem _ hp))
        fun p hp => hword p (List.mem_cons_of_mem _ hp)
      have hcons := Words.cons (hword q (by simp)) IsGap.blank (by simp) hrest
      simpa [wordNode, List.intercalate_cons_cons] using hcons

theorem textsOf_wordNode {test : Node → Bool} {qs : List String} :
    textsOf test (qs.map wordNode) = qs.filter fun q => test (wordNode q) := by
  rw [textsOf, List.filter_map, List.map_map]
  have hid : Node.text ∘ wordNode = id := funext text_wordNode
  rw [hid, List.map_id]
  rfl

theorem foldr_addToWords {w : List Char} (hw : ∀ c ∈ w, Text.isBlank c = false)
    (p : List Char × List (List Char)) : w.foldr Text.addToWords p = (w ++ p.1, p.2) := by
  induction w with
  | nil => rfl
  | cons c w ih =>
    rw [List.foldr_cons, ih fun d hd => hw d (List.mem_cons_of_mem c hd), Text.addToWords,
      hw c List.mem_cons_self]
    rfl

theorem words_of_intercalate {ws : List String}
    (h : ∀ w ∈ ws, w.toList ≠ [] ∧ ∀ c ∈ w.toList, Text.isBlank c = false) :
    Text.words (" ".intercalate ws) = ws := by
  -- the first word is still growing when the others have been found
  have hfold : ∀ w ws, (∀ v ∈ w :: ws, v.toList ≠ [] ∧ ∀ c ∈ v.toList, Text.isBlank c = false) →
      (List.intercalate [' '] ((w :: ws).map String.toList)).foldr Text.addToWords ([], []) =
        (w.toList, ws.map String.toList) := by
    intro w ws
    induction ws generalizing w with
    | nil =>
      intro h
      rw [List.map_singleton, List.intercalate_singleton, foldr_addToWords (h w (by simp)).2]
      simp
    | cons v ws ih =>
      intro h
      have hrest := ih v fun u hu => h u (List.mem_cons_of_mem w hu)
      have hv := (h v (by simp)).1
      rw [List.map_cons, List.map_cons, List.intercalate_cons_cons, List.append_assoc,
        List.foldr_append, List.foldr_append, ← List.map_cons, hrest,
        foldr_addToWords (h w (by simp)).2]
      simp [Text.addToWords, Text.isBlank, hv]
  cases ws with
  | nil => rfl
  | cons w ws =>
    have hw := (h w (by simp)).1
    rw [Text.words, String.toList_intercalate, show " ".toList = [' '] from rfl, hfold w ws h]
    simp [hw, Function.comp_def]

end HeaderBridge.DeclaredType
