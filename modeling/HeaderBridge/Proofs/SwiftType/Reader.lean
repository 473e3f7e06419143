import HeaderBridge.Proofs.SwiftType.Legible

/-! # A reader for Swift types

What the text of a type stands for, read from left to right: a name with its
arguments, a chain or a composition of names, brackets or parentheses, and then the
postfixes. The types inside are read one level deeper.
-/

namespace HeaderBridge

/-- Reads something at the beginning of a text, and says what is left of the text behind it. -/
abbrev TextReader (α : Type) := List Char → Option (α × List Char)

namespace TextReader

variable {α : Type}

def behind? (p cs : List Char) : Option (List Char) :=
  if p <+: cs then some (cs.drop p.length) else none

/-- Read items that each follow the separator, as many as there are and at most as many as given. -/
def following (item : TextReader α) (separator : List Char) : Nat → List Char → List α × List Char
  | 0, cs => ([], cs)
  | n + 1, cs =>
    match (behind? separator cs).bind item with
    | none => ([], cs)
    | some (a, r) => ((following item separator n r).map (a :: ·) id)

def separated (item : TextReader α) (separator : List Char) : TextReader (List α) := fun cs =>
  (item cs).map fun y => (following item separator y.2.length y.2).map (y.1 :: ·) id

end TextReader

namespace SwiftType

open TextReader

variable (inner : TextReader SwiftType)

def readNominal : TextReader Nominal := fun cs =>
  let name := cs.takeWhile isNameChar
  let r := cs.dropWhile isNameChar
  if name = [] ∨ name = "Type".toList then none
  else
    match behind? ['<'] r with
    | none => some (.plain (.ofList name), r)
    | some r => do
      let (ts, r) ← separated inner [',', ' '] r
      let r ← behind? ['>'] r
      return (.generic (.ofList name) ts, r)

def componentOf? : List Nominal → Option Component
  | [] => none
  | [n] => some (.nominal n)
  | a :: b :: rest => some (.nested a b rest)

def readComponent : TextReader Component := fun cs => do
  let (ns, r) ← separated (readNominal inner) ['.'] cs
  let c ← componentOf? ns
  return (c, r)

def ofComponents : List Component → SwiftType
  | [.nominal n] => if n.name = "Void" then void else nominal n
  | [.nested a b rest] => nested a b rest
  | cs => composition cs

def readNamed : TextReader SwiftType := fun cs => do
  let (cs, r) ← separated (readComponent inner) [' ', '&', ' '] cs
  return (ofComponents cs, r)

def readBrackets : TextReader SwiftType := fun cs => do
  let (t, r) ← inner cs
  match behind? [']'] r with
  | some r => return (array t, r)
  | none => do
    let r ← behind? [':', ' '] r
    let (v, r) ← inner r
    let r ← behind? [']'] r
    return (dictionary t v, r)

def readAttributes : List BlockAttribute → List Char → BlockAttributes × List Char
  | [], cs => (.empty, cs)
  | a :: as, cs =>
    match behind? (a.text.toList ++ [' ']) cs with
    | none => readAttributes as cs
    | some r => (readAttributes as r).map (·.insert a) id

def readElements : TextReader (List SwiftType) := fun cs => do
  let (ts, r) := (separated inner [',', ' '] cs).getD ([], cs)
  let r ← behind? [')'] r
  return (ts, r)

def ofElements : List SwiftType → SwiftType
  | [t] => t
  | ts => tuple ts

def readParens : TextReader SwiftType := fun cs => do
  let y := readAttributes BlockAttribute.alphabetical cs
  let r ← behind? ['('] y.2
  let (ts, r) ← readElements inner r
  match behind? [' ', '-', '>', ' '] r with
  | none => return (ofElements ts, r)
  | some r => do
    let (result, r) ← inner r
    return (block result ts y.1, r)

def readHead : TextReader SwiftType := fun cs =>
  (readParens inner cs).or (((behind? ['['] cs).bind (readBrackets inner)).or (readNamed inner cs))

def readPostfixes (t : SwiftType) : List Char → SwiftType × List Char
  | '?' :: cs => readPostfixes (optional t) cs
  | '!' :: cs => readPostfixes (implicitlyUnwrapped t) cs
  | '.' :: 'T' :: 'y' :: 'p' :: 'e' :: cs => readPostfixes (metatype t) cs
  | cs => (t, cs)

def readWithin : Nat → TextReader SwiftType
  | 0 => fun _ => none
  | n + 1 => fun cs => (readHead (readWithin n) cs).map fun y => readPostfixes y.1 y.2

end SwiftType

/-! ### Reading lists -/

namespace TextReader

variable {α : Type} {item : TextReader α} {separator : List Char} {text : α → List Char}
  {Follows : List Char → Prop} {r : List Char}

@[simp] theorem behind?_append (p r : List Char) : behind? p (p ++ r) = some r := by
  rw [behind?, if_pos (List.prefix_append p r), List.drop_left]

theorem behind?_singleton (c : Char) (r : List Char) : behind? [c] (c :: r) = some r :=
  behind?_append [c] r

theorem behind?_of_head?_ne {c : Char} {p : List Char} (h : r.head? ≠ some c) :
    behind? (c :: p) r = none := by
  refine if_neg ?_
  rintro ⟨t, rfl⟩
  exact h rfl

theorem intercalate_cons_eq (separator l : List Char) (ls : List (List Char)) :
    separator.intercalate (l :: ls) = l ++ ls.flatMap (separator ++ ·) := by
  induction ls generalizing l with
  | nil => simp
  | cons k ls ih => rw [List.intercalate_cons_cons, ih, List.flatMap_cons, List.append_assoc,
      List.append_assoc]

theorem follows_flatMap (hsep : ∀ r, Follows (separator ++ r)) (as : List α)
    (text : α → List Char) (hr : Follows r) :
    Follows ((as.map text).flatMap (separator ++ ·) ++ r) := by
  cases as with
  | nil => exact hr
  | cons b as =>
    rw [List.map_cons, List.flatMap_cons, List.append_assoc, List.append_assoc]
    exact hsep _

theorem length_le_flatMap (hne : separator ≠ []) (as : List α) (text : α → List Char)
    (r : List Char) : as.length ≤ ((as.map text).flatMap (separator ++ ·) ++ r).length := by
  have hpos := List.length_pos_iff.mpr hne
  induction as with
  | nil => exact Nat.zero_le _
  | cons b as ih =>
    simp only [List.map_cons, List.flatMap_cons, List.length_append, List.length_cons] at ih ⊢
    omega

theorem following_flatMap (hsep : ∀ r, Follows (separator ++ r)) {as : List α}
    (hitem : ∀ a ∈ as, ∀ r, Follows r → item (text a ++ r) = some (a, r)) (hr : Follows r)
    (hstop : (behind? separator r).bind item = none) {n : Nat} (hn : as.length ≤ n) :
    following item separator n ((as.map text).flatMap (separator ++ ·) ++ r) = (as, r) := by
  induction as generalizing n with
  | nil =>
    cases n with
    | zero => rfl
    | succ n =>
      rw [List.map_nil, List.flatMap_nil, List.nil_append, following, hstop]
  | cons a as ih =>
    obtain ⟨n, rfl⟩ : ∃ m, n = m + 1 := Nat.exists_eq_succ_of_ne_zero (by
      rw [List.length_cons] at hn
      omega)
    have hrest := follows_flatMap hsep as text hr
    have hfirst := hitem a List.mem_cons_self _ hrest
    have hothers := ih (fun b hb => hitem b (List.mem_cons_of_mem _ hb)) (Nat.le_of_succ_le_succ hn)
    rw [List.map_cons, List.flatMap_cons, List.append_assoc, List.append_assoc, following,
      behind?_append, Option.bind_some, hfirst]
    simp only [hothers, Prod.map_apply, id]

/-- Items with the separator between them are read one by one, up to where the next one would
begin. -/
theorem separated_intercalate (Follows : List Char → Prop) (hsep : ∀ r, Follows (separator ++ r))
    (hne : separator ≠ []) {as : List α} (has : as ≠ [])
    (hitem : ∀ a ∈ as, ∀ r, Follows r → item (text a ++ r) = some (a, r)) (hr : Follows r)
    (hstop : (behind? separator r).bind item = none) :
    separated item separator (separator.intercalate (as.map text) ++ r) = some (as, r) := by
  cases as with
  | nil => exact absurd rfl has
  | cons a as =>
    have hrest := follows_flatMap hsep as text hr
    have hlength := length_le_flatMap hne as text r
    have hothers :=
      following_flatMap hsep (fun b hb => hitem b (List.mem_cons_of_mem _ hb)) hr hstop
      hlength
    rw [List.map_cons, intercalate_cons_eq, List.append_assoc, separated,
      hitem a List.mem_cons_self _ hrest, Option.map_some]
    simp only [hothers, Prod.map_apply, id]

end TextReader

end HeaderBridge
