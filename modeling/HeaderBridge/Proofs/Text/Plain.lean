import HeaderBridge.Proofs.Grammar.Pieces
import HeaderBridge.Text.Quoted

/-! # Plain texts

A text that prints has no line breaks, and neither does a quoted one. The brackets of
a text are read with the closing brackets that are still to come; a text that leaves
them as they were can be put anywhere. A text is tame if this holds of it and it has no
braces, and a line is orderly if this holds of it without its braces.
-/

namespace HeaderBridge

/-! ### Printable texts -/

namespace Text

def lineBreaks : List Char := ['\n', '\x0b', '\x0c', '\r', '\x85', '\u2028', '\u2029']

def prints (s : String) : Bool := s.toList.all isPrintable

theorem notMem_of_prints {s : String} (h : prints s = true) : ∀ c ∈ lineBreaks, c ∉ s.toList := by
  have hall : ∀ c ∈ lineBreaks, isPrintable c = false := by decide +kernel
  intro c hc hmem
  have hprintable := List.all_eq_true.mp h c hmem
  rw [hall c hc] at hprintable
  cases hprintable

@[simp] theorem prints_append (s t : String) : prints (s ++ t) = (prints s && prints t) := by
  rw [prints, String.toList_append, List.all_append, prints, prints]

theorem isPrintable_of_ascii {c : Char} (hlow : 0x20 ≤ c.toNat) (hhigh : c.toNat < 0x7F) :
    isPrintable c = true := by
  have hbounds : ∃ rest, printableBounds = 0x0 :: 0x20 :: 0x7F :: rest := ⟨_, rfl⟩
  obtain ⟨rest, hrest⟩ := hbounds
  rw [isPrintable, hrest, List.takeWhile_cons_of_pos (by simp),
    List.takeWhile_cons_of_pos (by simpa), List.takeWhile_cons_of_neg (by simpa using hhigh)]
  rfl

theorem exists_digitChar {base : Nat} (hbase : 0 < base) {c : Char} {fuel n : Nat} {ds : List Char}
    (h : c ∈ Nat.toDigitsCore base fuel n ds) : c ∈ ds ∨ ∃ d < base, c = Nat.digitChar d := by
  induction fuel generalizing n ds with
  | zero => exact .inl h
  | succ fuel ih =>
    have hcons : c ∈ Nat.digitChar (n % base) :: ds → c ∈ ds ∨ ∃ d < base, c = Nat.digitChar d := by
      intro hc
      rcases List.mem_cons.mp hc with hc | hc
      · exact .inr ⟨_, Nat.mod_lt n hbase, hc⟩
      · exact .inl hc
    rw [Nat.toDigitsCore] at h
    split at h
    · exact hcons h
    · exact (ih h).elim hcons .inr

theorem prints_hexadecimal (n : Nat) : prints (hexadecimal n) = true := by
  have hall : ∀ d < 16, isPrintable (Nat.digitChar d) = true := by decide +kernel
  refine List.all_eq_true.mpr fun c hc => ?_
  rw [hexadecimal, String.toList_ofList, Nat.toDigits] at hc
  obtain ⟨d, hd, rfl⟩ := (exists_digitChar (by decide) hc).resolve_left (by simp)
  exact hall d hd

theorem prints_quoteChar (c : Char) : prints (quoteChar c) = true := by
  unfold quoteChar
  split_ifs with _ _ _ _ _ _ hprintable
  · decide +kernel
  · decide +kernel
  · decide +kernel
  · decide +kernel
  · decide +kernel
  · decide +kernel
  · simpa [prints] using hprintable
  · rw [prints_append, prints_append, prints_hexadecimal]
    decide +kernel

theorem prints_quote (s : String) : prints (quote s) = true := by
  have hchars : prints (String.join (s.toList.map quoteChar)) = true := by
    refine List.all_eq_true.mpr fun c hc => ?_
    rw [String.toList_join, List.mem_flatMap] at hc
    obtain ⟨t, ht, hc⟩ := hc
    obtain ⟨d, -, rfl⟩ := List.mem_map.mp ht
    exact List.all_eq_true.mp (prints_quoteChar d) c hc
  rw [quote, prints_append, prints_append, hchars]
  decide +kernel

/-! ### Words in texts -/

theorem infix_append_cases {α : Type} {l u v : List α} (h : l <:+: u ++ v) :
    l <:+: u ∨ l <:+: v ∨ ∃ a b, l = a ++ b ∧ a ≠ [] ∧ b ≠ [] ∧ a <:+ u ∧ b <+: v := by
  obtain ⟨s, t, h⟩ := h
  rcases List.append_eq_append_iff.mp h with ⟨x, rfl, rfl⟩ | ⟨x, hx, rfl⟩
  · exact .inl ⟨s, x, rfl⟩
  rcases List.append_eq_append_iff.mp hx with ⟨a, rfl, rfl⟩ | ⟨a, rfl, rfl⟩
  · by_cases ha : a = []
    · subst ha
      exact .inr (.inl ⟨[], t, by simp⟩)
    by_cases hx : x = []
    · subst hx
      exact .inl ⟨s, [], by simp⟩
    exact .inr (.inr ⟨a, x, rfl, ha, hx, ⟨s, rfl⟩, ⟨t, rfl⟩⟩)
  · exact .inr (.inl ⟨a, t, rfl⟩)

theorem infix_append_cons {α : Type} {l u v : List α} {c : α} (hc : c ∉ l)
    (h : l <:+: u ++ c :: v) : l <:+: u ∨ l <:+: v := by
  rcases infix_append_cases h with h | h | ⟨a, b, rfl, -, hb, -, hbv⟩
  · exact .inl h
  · rcases List.infix_cons_iff.mp h with h | h
    · cases l with
      | nil => exact .inl List.nil_infix
      | cons d l =>
        obtain ⟨rfl, -⟩ := List.cons_prefix_cons.mp h
        exact absurd List.mem_cons_self hc
    · exact .inr h
  · obtain ⟨d, b, rfl⟩ := List.exists_cons_of_ne_nil hb
    obtain ⟨rfl, -⟩ := List.cons_prefix_cons.mp hbv
    exact absurd (List.mem_append_right a List.mem_cons_self) hc

/-! ### Brackets -/

def brackets : List (Char × Char) := [('(', ')'), ('[', ']'), ('{', '}')]

/-- The closing brackets that are expected after a character, given those before it. A closing
bracket has to be the next one that is expected, and not more than `limit` braces may be open. -/
def step (limit : Nat) (expected : List Char) (c : Char) : Option (List Char) :=
  match brackets.lookup c with
  | some d => if d = '}' ∧ limit ≤ expected.count '}' then none else some (d :: expected)
  | none =>
    if c ∉ brackets.map Prod.snd then some expected
    else if expected.head? = some c then some expected.tail
    else none

/-- The closing brackets that are expected after a text, unless it is not properly nested or more
than `limit` braces are open at once. -/
def nest (limit : Nat) (expected text : List Char) : Option (List Char) :=
  text.foldlM (step limit) expected

theorem nest_append (limit : Nat) (expected u v : List Char) :
    nest limit expected (u ++ v) = (nest limit expected u).bind (nest limit · v) :=
  List.foldlM_append

theorem nest_cons (limit : Nat) (expected : List Char) (c : Char) (u : List Char) :
    nest limit expected (c :: u) = (step limit expected c).bind (nest limit · u) :=
  List.foldlM_cons

def Balanced (u : List Char) : Prop := ∀ limit expected, nest limit expected u = some expected

def isLoose (c : Char) : Bool := c ∉ brackets.map Prod.fst && c ∉ brackets.map Prod.snd

theorem step_of_isLoose {c : Char} (h : isLoose c = true) (limit : Nat) (expected : List Char) :
    step limit expected c = some expected := by
  simp only [isLoose, Bool.and_eq_true, decide_eq_true_eq] at h
  have hnone : brackets.lookup c = none := by
    refine List.lookup_eq_none_iff.mpr fun p hp => ?_
    simp only [bne_iff_ne, ne_eq]
    rintro rfl
    exact h.1 (List.mem_map_of_mem hp)
  rw [step, hnone]
  simp only [h.2, not_false_eq_true, if_true]

/-- Where no braces may be opened, what else is expected makes no difference. -/
theorem step_append {c : Char} {expected expected' : List Char}
    (h : step 0 expected c = some expected') (limit : Nat) (rest : List Char) :
    step limit (expected ++ rest) c = some (expected' ++ rest) := by
  unfold step at h ⊢
  cases hc : brackets.lookup c with
  | some d =>
    simp only [hc, Nat.zero_le, and_true] at h ⊢
    split at h
    · cases h
    · next hd =>
      obtain rfl := Option.some.inj h
      simp only [hd, false_and, if_false, List.cons_append]
  | none =>
    simp only [hc] at h ⊢
    split at h
    · next hnot =>
      obtain rfl := Option.some.inj h
      simp only [hnot, not_false_eq_true, if_true]
    · next hclosing =>
      rw [if_neg hclosing]
      cases expected with
      | nil => cases h
      | cons d expected =>
        rw [Option.ite_none_right_eq_some, Option.some.injEq] at h
        obtain ⟨hd, rfl⟩ := h
        exact if_pos hd

namespace Balanced

variable {u v : List Char}

theorem nil : Balanced [] := fun _ _ => rfl

theorem append (hu : Balanced u) (hv : Balanced v) : Balanced (u ++ v) := by
  intro limit expected
  rw [nest_append, hu, Option.bind_some, hv]

theorem of_isLoose (h : ∀ c ∈ u, isLoose c = true) : Balanced u := by
  induction u with
  | nil => exact nil
  | cons c u ih =>
    rw [List.forall_mem_cons] at h
    intro limit expected
    rw [nest_cons, step_of_isLoose h.1, Option.bind_some, ih h.2]

theorem of_nest (h : nest 0 [] u = some []) : Balanced u := by
  have hrest : ∀ {u expected expected' : List Char}, nest 0 expected u = some expected' →
      ∀ limit rest, nest limit (expected ++ rest) u = some (expected' ++ rest) := by
    intro u
    induction u with
    | nil =>
      intro expected expected' h limit rest
      obtain rfl := Option.some.inj h
      rfl
    | cons c u ih =>
      intro expected expected' h limit rest
      rw [nest_cons, Option.bind_eq_some_iff] at h
      obtain ⟨between, hstep, h⟩ := h
      rw [nest_cons, step_append hstep, Option.bind_some, ih h]
  exact fun limit expected => hrest h limit expected

theorem round (hu : Balanced u) : Balanced ('(' :: (u ++ [')'])) := by
  intro limit expected
  rw [nest_cons, show step limit expected '(' = some (')' :: expected) from rfl, Option.bind_some,
    nest_append, hu, Option.bind_some]
  rfl

theorem square (hu : Balanced u) : Balanced ('[' :: (u ++ [']'])) := by
  intro limit expected
  rw [nest_cons, show step limit expected '[' = some (']' :: expected) from rfl, Option.bind_some,
    nest_append, hu, Option.bind_some]
  rfl

end Balanced

/-! ### Tame texts -/

/-- Whether a character prints and is no exclamation mark, unless these are allowed. -/
def shows (unwraps : Bool) (c : Char) : Bool := isPrintable c && (unwraps || c ≠ '!')

def isBrace (c : Char) : Bool := c = '{' || c = '}'

theorem isBrace_of_isLoose {c : Char} (h : isLoose c = true) : isBrace c = false := by
  have hall : ∀ c ∈ ['{', '}'], isLoose c = false := by decide
  rw [Bool.eq_false_iff]
  intro hbrace
  rw [hall c (by simpa [isBrace] using hbrace)] at h
  cases h

theorem shows_mono {c : Char} (h : shows false c = true) (unwraps : Bool) :
    shows unwraps c = true := by
  simp only [shows, Bool.and_eq_true, Bool.false_or] at h
  simp only [shows, h.1, h.2, Bool.or_true, Bool.and_true]

/-- Whether a text prints and has neither brackets nor exclamation marks. -/
def isPlain (s : String) : Bool := s.toList.all fun c => shows false c && isLoose c

/-- A text that prints and whose brackets close each other, without braces and, unless they are
allowed, without exclamation marks. -/
structure Tame (unwraps : Bool) (u : List Char) : Prop where
  shows : ∀ c ∈ u, shows unwraps c = true
  unbraced : ∀ c ∈ u, isBrace c = false
  balanced : Balanced u

def isTame (s : String) : Bool :=
  s.toList.all (fun c => shows false c && !isBrace c) && nest 0 [] s.toList = some []

theorem isPlain_iff {s : String} :
    isPlain s = true ↔ ∀ c ∈ s.toList, shows false c = true ∧ isLoose c = true := by
  simp only [isPlain, List.all_eq_true, Bool.and_eq_true]

theorem prints_of_isPlain {s : String} (h : isPlain s = true) : prints s = true := by
  refine List.all_eq_true.mpr fun c hc => ?_
  have hshows := (isPlain_iff.mp h c hc).1
  simp only [shows, Bool.and_eq_true] at hshows
  exact hshows.1

theorem isPlain_append (s t : String) : isPlain (s ++ t) = (isPlain s && isPlain t) := by
  rw [isPlain, String.toList_append, List.all_append, isPlain, isPlain]

theorem isPlain_of_isIdentChar {s : String} (h : ∀ c ∈ s.toList, Grammar.isIdentChar c = true) :
    isPlain s = true := by
  have hall : ∀ c ∈ '!' :: (brackets.map Prod.fst ++ brackets.map Prod.snd),
      Grammar.isIdentChar c = false := by decide
  refine isPlain_iff.mpr fun c hc => ?_
  have hrange := Grammar.toNat_of_isIdentChar (h c hc)
  have hnot : c ∉ '!' :: (brackets.map Prod.fst ++ brackets.map Prod.snd) := by
    intro hmem
    have hfalse := hall c hmem
    rw [h c hc] at hfalse
    cases hfalse
  rw [List.mem_cons, List.mem_append, not_or, not_or] at hnot
  constructor
  · simpa [shows, isPrintable_of_ascii (c := c) (by omega) (by omega)] using hnot.1
  · simpa [isLoose] using hnot.2

theorem forall_mem_intercalate {α : Type} {P : α → Prop} {separator : List α} {ls : List (List α)}
    (hseparator : ∀ x ∈ separator, P x) (h : ∀ l ∈ ls, ∀ x ∈ l, P x) :
    ∀ x ∈ separator.intercalate ls, P x := by
  induction ls with
  | nil => simp
  | cons l ls ih =>
    have hl := h l List.mem_cons_self
    have hls := ih fun k hk => h k (List.mem_cons_of_mem _ hk)
    cases ls with
    | nil => rwa [List.intercalate_singleton]
    | cons k ls =>
      rw [List.intercalate_cons_cons]
      intro x hx
      rcases List.mem_append.mp hx with hx | hx
      · exact (List.mem_append.mp hx).elim (hl x) (hseparator x)
      · exact hls x hx

namespace Tame

variable {unwraps : Bool} {u v : List Char}

theorem of_isPlain {s : String} (h : isPlain s = true) : Tame unwraps s.toList := by
  rw [isPlain_iff] at h
  exact ⟨fun c hc => shows_mono (h c hc).1 unwraps, fun c hc => isBrace_of_isLoose (h c hc).2,
    .of_isLoose fun c hc => (h c hc).2⟩

theorem of_isTame {s : String} (h : isTame s = true) : Tame unwraps s.toList := by
  simp only [isTame, Bool.and_eq_true, List.all_eq_true, decide_eq_true_eq,
    Bool.not_eq_true'] at h
  exact ⟨fun c hc => shows_mono (h.1 c hc).1 unwraps, fun c hc => (h.1 c hc).2, .of_nest h.2⟩

theorem append (hu : Tame unwraps u) (hv : Tame unwraps v) : Tame unwraps (u ++ v) :=
  ⟨List.forall_mem_append.mpr ⟨hu.shows, hv.shows⟩,
    List.forall_mem_append.mpr ⟨hu.unbraced, hv.unbraced⟩, hu.balanced.append hv.balanced⟩

theorem concat {s t : String} (hs : Tame unwraps s.toList) (ht : Tame unwraps t.toList) :
    Tame unwraps (s ++ t).toList := by
  rw [String.toList_append]
  exact hs.append ht

theorem singleton {c : Char} (hshows : Text.shows unwraps c = true) (hloose : isLoose c = true) :
    Tame unwraps [c] :=
  ⟨List.forall_mem_singleton.mpr hshows, List.forall_mem_singleton.mpr (isBrace_of_isLoose hloose),
    .of_isLoose (List.forall_mem_singleton.mpr hloose)⟩

theorem bracketed {c d : Char} (hall : ∀ x ∈ [c, d], Text.shows false x = true ∧ isBrace x = false)
    (hbalanced : Balanced (c :: (u ++ [d]))) (hu : Tame unwraps u) :
      Tame unwraps (c :: (u ++ [d])) := by
  have hmem : ∀ x ∈ c :: (u ++ [d]), x ∈ u ∨ x ∈ [c, d] := by
    intro x hx
    rw [List.mem_cons, List.mem_append, List.mem_singleton] at hx
    rcases hx with rfl | hx | rfl
    · exact .inr (by simp)
    · exact .inl hx
    · exact .inr (by simp)
  refine ⟨fun x hx => ?_, fun x hx => ?_, hbalanced⟩
  · exact (hmem x hx).elim (hu.shows x) fun h => shows_mono (hall x h).1 unwraps
  · exact (hmem x hx).elim (hu.unbraced x) fun h => (hall x h).2

theorem round (hu : Tame unwraps u) : Tame unwraps ('(' :: (u ++ [')'])) :=
  bracketed (by decide +kernel) hu.balanced.round hu

theorem square (hu : Tame unwraps u) : Tame unwraps ('[' :: (u ++ [']'])) :=
  bracketed (by decide +kernel) hu.balanced.square hu

end Tame

/-! ### Orderly lines -/

/-- A text that prints and, without its braces, closes its brackets; unless they are allowed, it
has no exclamation marks. -/
structure Orderly (unwraps : Bool) (u : List Char) : Prop where
  shows : ∀ c ∈ u, shows unwraps c = true
  balanced : Balanced (u.filter (!isBrace ·))

def isOrderly (s : String) : Bool :=
  s.toList.all (shows false) && nest 0 [] (s.toList.filter (!isBrace ·)) = some []

namespace Orderly

variable {unwraps : Bool} {u : List Char}

theorem of_tame (h : Tame unwraps u) : Orderly unwraps u := by
  refine ⟨h.shows, ?_⟩
  rw [List.filter_eq_self.mpr fun c hc => by rw [h.unbraced c hc]; rfl]
  exact h.balanced

theorem of_isOrderly {s : String} (h : isOrderly s = true) : Orderly unwraps s.toList := by
  simp only [isOrderly, Bool.and_eq_true, List.all_eq_true, decide_eq_true_eq] at h
  exact ⟨fun c hc => shows_mono (h.1 c hc) unwraps, .of_nest h.2⟩

theorem concat {s t : String} (hs : Orderly unwraps s.toList) (ht : Orderly unwraps t.toList) :
    Orderly unwraps (s ++ t).toList := by
  rw [String.toList_append]
  refine ⟨List.forall_mem_append.mpr ⟨hs.shows, ht.shows⟩, ?_⟩
  rw [List.filter_append]
  exact hs.balanced.append ht.balanced

theorem prints {s : String} (h : Orderly unwraps s.toList) : prints s = true := by
  refine List.all_eq_true.mpr fun c hc => ?_
  have hshows := h.shows c hc
  simp only [Text.shows, Bool.and_eq_true] at hshows
  exact hshows.1

theorem unmarked (h : Orderly false u) : '!' ∉ u := by
  intro hmem
  have hshows := h.shows _ hmem
  simp [Text.shows] at hshows

end Orderly

end Text

end HeaderBridge
