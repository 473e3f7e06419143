import HeaderBridge.Files.Discovery
import Mathlib.Data.List.SplitBy
import Mathlib.Data.List.TakeWhile

/-! # The order of files is total

A name falls into pieces: runs of digits that are as long as can be, and single
characters. Names are compared piece by piece, runs by the numbers that they
write. To compare pieces is to compare keys, so the order of names is transitive,
and with the paths behind it the order of files is total: what a search finds
does not depend on the way in which the files were come across.
-/

namespace HeaderBridge.FileOrder

open Std

/-! ### Runs of digits -/

def number (digits : List Char) : Nat := Nat.ofDigitChars 10 digits 0

theorem isDigit_iff {c : Char} : c.isDigit = true ↔ 48 ≤ c.toNat ∧ c.toNat ≤ 57 := by
  simp only [Char.isDigit, Bool.and_eq_true, decide_eq_true_eq, ge_iff_le, UInt32.le_iff_toNat_le]
  rfl

theorem not_isDigit {c : Char} (h : c.isDigit = false) : c.toNat < 48 ∨ 57 < c.toNat := by
  have hnot : ¬ (48 ≤ c.toNat ∧ c.toNat ≤ 57) :=
    fun hc => Bool.eq_false_iff.mp h (isDigit_iff.mpr hc)
  omega

theorem ofDigitChars_lt {as bs : List Char} (hlen : as.length = bs.length)
    (has : ∀ c ∈ as, c.isDigit = true) {i j : Nat} (hij : i < j) :
    Nat.ofDigitChars 10 as i < Nat.ofDigitChars 10 bs j := by
  induction as generalizing bs i j with
  | nil =>
    obtain rfl := List.length_eq_zero_iff.mp hlen.symm
    exact hij
  | cons a as ih =>
    obtain ⟨b, bs, rfl⟩ := List.exists_cons_of_length_eq_add_one hlen.symm
    have ha := isDigit_iff.mp (has a List.mem_cons_self)
    have hzero : '0'.toNat = 48 := rfl
    rw [Nat.ofDigitChars_cons, Nat.ofDigitChars_cons]
    exact ih (Nat.succ.inj hlen) (fun c hc => has c (List.mem_cons_of_mem _ hc)) (by omega)

theorem le_ofDigitChars (digits : List Char) (i : Nat) : i ≤ Nat.ofDigitChars 10 digits i := by
  induction digits generalizing i with
  | nil => exact Nat.le_refl _
  | cons d ds ih =>
    rw [Nat.ofDigitChars_cons]
    exact Nat.le_trans (by omega) (ih _)

/-- Digits of one length are compared as the numbers that they write. -/
theorem compareLex_digits {as bs : List Char} (hlen : as.length = bs.length)
    (has : ∀ c ∈ as, c.isDigit = true) (hbs : ∀ c ∈ bs, c.isDigit = true) (i : Nat) :
    List.compareLex compareChars as bs =
      compare (Nat.ofDigitChars 10 as i) (Nat.ofDigitChars 10 bs i) := by
  induction as generalizing bs i with
  | nil =>
    obtain rfl := List.length_eq_zero_iff.mp hlen.symm
    exact (Nat.compare_eq_eq.mpr rfl).symm
  | cons a as ih =>
    obtain ⟨b, bs, rfl⟩ := List.exists_cons_of_length_eq_add_one hlen.symm
    have hlen' := Nat.succ.inj hlen
    have ha := isDigit_iff.mp (has a List.mem_cons_self)
    have hb := isDigit_iff.mp (hbs b List.mem_cons_self)
    have has' := fun c hc => has c (List.mem_cons_of_mem a hc)
    have hbs' := fun c hc => hbs c (List.mem_cons_of_mem b hc)
    have hzero : '0'.toNat = 48 := rfl
    rw [List.compareLex_cons_cons, Nat.ofDigitChars_cons, Nat.ofDigitChars_cons, compareChars]
    rcases Nat.lt_trichotomy a.toNat b.toNat with hlt | heq | hgt
    · rw [Nat.compare_eq_lt.mpr hlt, Nat.compare_eq_lt.mpr (ofDigitChars_lt hlen' has' (by omega))]
      rfl
    · rw [heq, ← ih hlen' has' hbs', Nat.compare_eq_eq.mpr rfl]
      rfl
    · rw [Nat.compare_eq_gt.mpr hgt,
        Nat.compare_eq_gt.mpr (ofDigitChars_lt hlen'.symm hbs' (by omega))]
      rfl

/-- Of two runs that start with no zero the longer one writes the larger number. -/
theorem number_lt_of_length_lt {as bs : List Char} (has : ∀ c ∈ as, c.isDigit = true)
    (hbs : ∀ c ∈ bs, c.isDigit = true) (hlead : ∀ c ∈ bs.head?, c ≠ '0')
    (hlen : as.length < bs.length) : number as < number bs := by
  obtain ⟨b, bs, rfl⟩ := List.exists_cons_of_length_pos (Nat.zero_lt_of_lt hlen)
  -- as many digits as the shorter run has stand behind a number that is not zero
  have hpos : 0 < Nat.ofDigitChars 10 ((b :: bs).take ((b :: bs).length - as.length)) 0 := by
    obtain ⟨k, hk⟩ : ∃ k, (b :: bs).length - as.length = k + 1 :=
      ⟨_, (Nat.succ_pred (by omega)).symm⟩
    have hb := isDigit_iff.mp (hbs b List.mem_cons_self)
    have hne : b.toNat ≠ 48 := fun heq => hlead b (by simp) (Char.toNat_inj.mp heq)
    have hzero : '0'.toNat = 48 := rfl
    rw [hk, List.take_succ_cons, Nat.ofDigitChars_cons]
    exact Nat.lt_of_lt_of_le (by omega) (le_ofDigitChars _ _)
  have hsplit := List.take_append_drop ((b :: bs).length - as.length) (b :: bs)
  rw [number, number, ← hsplit, Nat.ofDigitChars_append]
  refine ofDigitChars_lt ?_ has hpos
  rw [List.length_drop]
  omega

theorem number_significant (digits : List Char) : number (significant digits) = number digits := by
  have hzeros : number (digits.dropWhile (· = '0')) = number digits := by
    induction digits with
    | nil => rfl
    | cons d ds ih =>
      by_cases hd : d = '0'
      · rw [List.dropWhile_cons_of_pos (by simpa using hd), ih, number, number,
          Nat.ofDigitChars_cons, hd]
        rfl
      · rw [List.dropWhile_cons_of_neg (by simpa using hd)]
  rw [← hzeros]
  unfold significant
  split
  · next hnil => rw [hnil]; rfl
  · rfl

theorem isDigit_significant {digits : List Char} (h : ∀ c ∈ digits, c.isDigit = true) :
    ∀ c ∈ significant digits, c.isDigit = true := by
  unfold significant
  split
  · decide
  · exact fun c hc => h c ((List.dropWhile_sublist _).subset hc)

theorem head?_significant {digits : List Char} (h : 1 < (significant digits).length) :
    ∀ c ∈ (significant digits).head?, c ≠ '0' := by
  unfold significant at h ⊢
  split at h
  · simp at h
  · next hne =>
    intro c hc
    have hhead := List.head?_dropWhile_not (· = '0') digits
    rw [Option.mem_def.mp hc] at hhead
    simpa using hhead

theorem length_significant_pos (digits : List Char) : 0 < (significant digits).length := by
  unfold significant
  split
  · decide
  · next hne => exact List.length_pos_iff.mpr hne

/-- Runs are compared by the numbers that they write, however long they are. -/
theorem compareRuns_eq {as bs : List Char} (has : ∀ c ∈ as, c.isDigit = true)
    (hbs : ∀ c ∈ bs, c.isDigit = true) : compareRuns as bs = compare (number as) (number bs) := by
  have has' := isDigit_significant has
  have hbs' := isDigit_significant hbs
  have hpos := length_significant_pos as
  have hpos' := length_significant_pos bs
  rw [← number_significant as, ← number_significant bs]
  simp only [compareRuns]
  rcases Nat.lt_trichotomy (significant as).length (significant bs).length with hlt | heq | hgt
  · have hnum := number_lt_of_length_lt has' hbs' (head?_significant (by omega)) hlt
    rw [Nat.compare_eq_lt.mpr hlt, Nat.compare_eq_lt.mpr hnum]
    rfl
  · simp only [heq, ReflCmp.compare_self]
    exact compareLex_digits heq has' hbs' 0
  · have hnum := number_lt_of_length_lt hbs' has' (head?_significant (by omega)) hgt
    rw [Nat.compare_eq_gt.mpr hgt, Nat.compare_eq_gt.mpr hnum]
    rfl

/-! ### Pieces of names -/

/-- The pieces of a name: runs of digits that are as long as can be, and single characters. -/
def pieces (name : List Char) : List (List Char) := name.splitBy fun a b => a.isDigit && b.isDigit

/-- Compares pieces of names: two runs by the numbers that they write, and all else by the code
points of the first characters. -/
def comparePieces : List Char → List Char → Ordering
  | a :: as, b :: bs =>
    if a.isDigit && b.isDigit then compare (number (a :: as)) (number (b :: bs))
    else compareChars a b
  | as, bs => compare as.length bs.length

theorem pieces_digit {c : Char} (hc : c.isDigit = true) (cs : List Char) : pieces (c :: cs) =
    (c :: cs.takeWhile Char.isDigit) :: pieces (cs.dropWhile Char.isDigit) := by
  have hrun : ∀ d ∈ c :: cs.takeWhile Char.isDigit, d.isDigit = true := by
    intro d hd
    rcases List.mem_cons.mp hd with rfl | hd
    · exact hc
    · exact List.mem_takeWhile_imp hd
  have hends : ∀ x ∈ (c :: cs.takeWhile Char.isDigit).getLast?,
      ∀ y ∈ (cs.dropWhile Char.isDigit).head?, (x.isDigit && y.isDigit) = false := by
    intro x _ y hy
    have hy' := List.head?_dropWhile_not Char.isDigit cs
    rw [Option.mem_def.mp hy] at hy'
    have hy'' : y.isDigit = false := by simpa using hy'
    rw [hy'', Bool.and_false]
  have hsplit : c :: cs = (c :: cs.takeWhile Char.isDigit) ++ cs.dropWhile Char.isDigit := by
    rw [List.cons_append, List.takeWhile_append_dropWhile]
  rw [hsplit, pieces, List.splitBy_append hends, List.splitBy_of_isChain (List.cons_ne_nil _ _)]
  · rfl
  · refine (List.pairwise_iff_forall_sublist.mpr fun {x y} hxy => ?_).isChain
    have hx := hrun x (hxy.subset List.mem_cons_self)
    have hy := hrun y (hxy.subset (List.mem_cons_of_mem _ List.mem_cons_self))
    simp [hx, hy]

theorem pieces_other {c : Char} (hc : c.isDigit = false) (cs : List Char) :
    pieces (c :: cs) = [c] :: pieces cs := by
  have hends : ∀ x ∈ [c].getLast?, ∀ y ∈ cs.head?, (x.isDigit && y.isDigit) = false := by
    intro x hx y _
    obtain rfl : c = x := by simpa using hx
    rw [hc, Bool.false_and]
  have hsplit : c :: cs = [c] ++ cs := rfl
  rw [hsplit, pieces, List.splitBy_append hends]
  rfl

/-- Names are compared piece by piece. -/
theorem compareNames_eq (as bs : List Char) :
    compareNames as bs = List.compareLex comparePieces (pieces as) (pieces bs) := by
  have hcons : ∀ c cs, ∃ p ps, pieces (c :: cs) = (c :: p) :: ps := by
    intro c cs
    cases hc : c.isDigit with
    | true => exact ⟨_, _, pieces_digit hc cs⟩
    | false => exact ⟨_, _, pieces_other hc cs⟩
  have hrun : ∀ {c : Char} (cs : List Char), c.isDigit = true →
      ∀ d ∈ c :: cs.takeWhile Char.isDigit, d.isDigit = true := by
    intro c cs hc d hd
    rcases List.mem_cons.mp hd with rfl | hd
    · exact hc
    · exact List.mem_takeWhile_imp hd
  fun_induction compareNames as bs with
  | case1 => rfl
  | case2 b bs =>
    obtain ⟨p, ps, hp⟩ := hcons b bs
    rw [hp]
    rfl
  | case3 a as =>
    obtain ⟨p, ps, hp⟩ := hcons a as
    rw [hp]
    rfl
  | case4 a as b bs hdigits heq ih =>
    obtain ⟨ha, hb⟩ := Bool.and_eq_true_iff.mp hdigits
    rw [compareRuns_eq (hrun as ha) (hrun bs hb)] at heq
    rw [pieces_digit ha, pieces_digit hb, List.compareLex_cons_cons, comparePieces, if_pos hdigits,
      heq, ih]
    rfl
  | case5 a as b bs hdigits hne =>
    obtain ⟨ha, hb⟩ := Bool.and_eq_true_iff.mp hdigits
    rw [compareRuns_eq (hrun as ha) (hrun bs hb)] at hne ⊢
    rw [pieces_digit ha, pieces_digit hb, List.compareLex_cons_cons, comparePieces, if_pos hdigits]
    generalize compare (number _) (number _) = o at hne ⊢
    cases o with
    | eq => exact absurd rfl hne
    | lt => rfl
    | gt => rfl
  | case6 as b bs hdigits ih =>
    have hb : b.isDigit = false := by simpa using hdigits
    rw [pieces_other hb, pieces_other hb, List.compareLex_cons_cons, comparePieces, if_neg hdigits,
      ih, compareChars, Nat.compare_eq_eq.mpr rfl]
    rfl
  | case7 a as b bs hdigits hne =>
    obtain ⟨p, ps, hp⟩ := hcons a as
    obtain ⟨q, qs, hq⟩ := hcons b bs
    have hchars : compareChars a b ≠ .eq :=
      fun heq => hne (Char.toNat_inj.mp (Nat.compare_eq_eq.mp heq))
    rw [hp, hq, List.compareLex_cons_cons, comparePieces, if_neg hdigits]
    generalize compareChars a b = o at hchars ⊢
    cases o with
    | eq => exact absurd rfl hchars
    | lt => rfl
    | gt => rfl

/-! ### Keys of pieces -/

/-- What decides the place of a piece among others: a code point, and the number of a run. All
runs have their place between the same characters. -/
def key : List Char → Nat × Nat
  | [] => (0, 0)
  | c :: cs => if c.isDigit then (48, number (c :: cs)) else (c.toNat, 0)

def compareKeys : Nat × Nat → Nat × Nat → Ordering :=
  compareLex (compareOn Prod.fst) (compareOn Prod.snd)

instance : TransCmp compareKeys := inferInstanceAs (TransCmp (compareLex _ _))

theorem comparePieces_eq {p q : List Char} (hp : p ≠ []) (hq : q ≠ []) :
    comparePieces p q = compareKeys (key p) (key q) := by
  obtain ⟨a, as, rfl⟩ := List.exists_cons_of_ne_nil hp
  obtain ⟨b, bs, rfl⟩ := List.exists_cons_of_ne_nil hq
  simp only [comparePieces, key, compareKeys, compareLex, compareOn, compareChars]
  cases ha : a.isDigit with
  | true =>
    cases hb : b.isDigit with
    | true => simp
    | false =>
      -- no other character stands among the digits
      have ha' := isDigit_iff.mp ha
      have hb' := not_isDigit hb
      rcases Nat.lt_or_ge a.toNat b.toNat with hlt | hge
      · simp [Nat.compare_eq_lt.mpr hlt, Nat.compare_eq_lt.mpr (show 48 < b.toNat by omega)]
      · simp [Nat.compare_eq_gt.mpr (show b.toNat < a.toNat by omega),
          Nat.compare_eq_gt.mpr (show b.toNat < 48 by omega)]
  | false =>
    cases hb : b.isDigit with
    | true =>
      have ha' := not_isDigit ha
      have hb' := isDigit_iff.mp hb
      rcases Nat.lt_or_ge a.toNat b.toNat with hlt | hge
      · simp [Nat.compare_eq_lt.mpr hlt, Nat.compare_eq_lt.mpr (show a.toNat < 48 by omega)]
      · simp [Nat.compare_eq_gt.mpr (show b.toNat < a.toNat by omega),
          Nat.compare_eq_gt.mpr (show 48 < a.toNat by omega)]
    | false => simp

theorem compareLex_congr {α β : Type} {cmp : α → α → Ordering} {cmp' : β → β → Ordering} {f : α → β}
    {as bs : List α} (h : ∀ a ∈ as, ∀ b ∈ bs, cmp a b = cmp' (f a) (f b)) :
    List.compareLex cmp as bs = List.compareLex cmp' (as.map f) (bs.map f) := by
  induction as generalizing bs with
  | nil => cases bs <;> rfl
  | cons a as ih =>
    cases bs with
    | nil => rfl
    | cons b bs =>
      rw [List.map_cons, List.map_cons, List.compareLex_cons_cons, List.compareLex_cons_cons,
        h a List.mem_cons_self b List.mem_cons_self,
        ih fun x hx y hy => h x (List.mem_cons_of_mem _ hx) y (List.mem_cons_of_mem _ hy)]

/-- Names are compared as the keys of their pieces. -/
theorem compareNames_eq_keys (as bs : List Char) : compareNames as bs =
    List.compareLex compareKeys ((pieces as).map key) ((pieces bs).map key) := by
  rw [compareNames_eq]
  exact compareLex_congr fun p hp q hq =>
    comparePieces_eq (List.ne_nil_of_mem_splitBy hp) (List.ne_nil_of_mem_splitBy hq)

/-! ### Files -/

theorem transCmp_on {α β : Type} (cmp : β → β → Ordering) [TransCmp cmp] (f : α → β) :
    TransCmp fun a b => cmp (f a) (f b) where
  eq_swap := OrientedCmp.eq_swap
  isLE_trans := TransCmp.isLE_trans

instance : TransCmp compareNames := by
  have hkeys : compareNames =
      fun as bs => List.compareLex compareKeys ((pieces as).map key) ((pieces bs).map key) :=
    funext fun as => funext (compareNames_eq_keys as)
  rw [hkeys]
  exact transCmp_on (List.compareLex compareKeys) fun as => (pieces as).map key

instance : TransCmp compareChars := transCmp_on (compare (α := Nat)) Char.toNat

instance : LawfulEqCmp compareChars where
  compare_self := Nat.compare_eq_eq.mpr rfl
  eq_of_compare h := Char.toNat_inj.mp (Nat.compare_eq_eq.mp h)

instance : TransCmp compareComponents := by
  have := transCmp_on (compare (α := Nat)) rank
  have := transCmp_on (List.compareLex compareChars) label
  exact inferInstanceAs (TransCmp (compareLex _ _))

instance : LawfulEqCmp compareComponents where
  compare_self := ReflCmp.compare_self
  eq_of_compare {a b} h := by
    obtain ⟨hrank, hlabel⟩ := Ordering.then_eq_eq.mp h
    have hrank := Nat.compare_eq_eq.mp hrank
    have hlabel := LawfulEqCmp.eq_of_compare hlabel
    cases a <;> cases b <;> simp_all [rank, label, String.toList_inj]

instance : TransCmp comparePaths := transCmp_on (List.compareLex compareComponents) Path.components

instance : TransCmp compareFiles := by
  have := transCmp_on compareNames fun path => ((Path.fileName? path).getD "").toList
  exact inferInstanceAs (TransCmp (compareLex _ _))

theorem comparePaths_eq_eq {a b : String} :
    comparePaths a b = .eq ↔ Path.components a = Path.components b := by
  unfold comparePaths
  exact LawfulEqCmp.compare_eq_iff_eq

theorem compareFiles_eq_eq {a b : String} :
    compareFiles a b = .eq ↔ Path.components a = Path.components b := by
  constructor
  · exact fun h => comparePaths_eq_eq.mp (Ordering.then_eq_eq.mp h).2
  · intro h
    have hname : Path.fileName? a = Path.fileName? b := by rw [Path.fileName?, Path.fileName?, h]
    refine Ordering.then_eq_eq.mpr ⟨?_, comparePaths_eq_eq.mpr h⟩
    simp only [hname]
    exact ReflCmp.compare_self

theorem sort_perm (files : List String) : (sort files).Perm files := List.mergeSort_perm files _

theorem pairwise_sort (files : List String) :
    (sort files).Pairwise fun a b => (compareFiles a b).isLE := by
  refine List.pairwise_mergeSort (fun a b c => TransCmp.isLE_trans) (fun a b => ?_) files
  have hswap : compareFiles b a = (compareFiles a b).swap := OrientedCmp.eq_swap
  rw [hswap]
  cases compareFiles a b <;> rfl

/-- The order in which files were found does not matter. -/
theorem sort_eq_of_perm {files files' : List String} (h : files.Perm files')
    (hpaths : ∀ a ∈ files, ∀ b ∈ files, Path.components a = Path.components b → a = b) :
    sort files = sort files' := by
  refine List.Perm.eq_of_pairwise (fun a b ha hb hab hba => ?_) (pairwise_sort files)
    (pairwise_sort files') ((sort_perm files).trans (h.trans (sort_perm files').symm))
  refine hpaths a ((sort_perm files).mem_iff.mp ha) b
    (h.mem_iff.mpr ((sort_perm files').mem_iff.mp hb)) ?_
  exact compareFiles_eq_eq.mp (OrientedCmp.isLE_antisymm hab hba)

/-- The order of files is total, names in it are compared piece by piece, and the files that a
search keeps come out in this order, the same however they were come across. -/
theorem compareFiles_total :
    (∀ a, compareFiles a a = .eq) ∧
    (∀ a b, compareFiles b a = (compareFiles a b).swap) ∧
    (∀ a b, compareFiles a b = .eq ↔ Path.components a = Path.components b) ∧
    (∀ a b c, (compareFiles a b).isLE → (compareFiles b c).isLE → (compareFiles a c).isLE) ∧
    (∀ as bs, compareNames as bs = List.compareLex comparePieces (pieces as) (pieces bs)) ∧
    (∀ (s : Search) (path : String) (files : List String), ∃ found,
      s.select path (some files) = .ok found ∧
      found.Perm (files.filter fun f => Search.isSource f && s.keeps f) ∧
      found.Pairwise fun a b => (compareFiles a b).isLE) ∧
    ∀ (s : Search) (path : String) (files files' : List String), files.Perm files' →
      (∀ a ∈ files, ∀ b ∈ files, Path.components a = Path.components b → a = b) →
      s.select path (some files) = s.select path (some files') := by
  refine ⟨fun a => ReflCmp.compare_self, fun a b => OrientedCmp.eq_swap,
    fun a b => compareFiles_eq_eq, fun a b c => TransCmp.isLE_trans, compareNames_eq,
    fun s path files => ⟨_, rfl, sort_perm _, pairwise_sort _⟩, ?_⟩
  intro s path files files' hperm hpaths
  have hkept : ∀ {a}, a ∈ files.filter (fun f => Search.isSource f && s.keeps f) → a ∈ files :=
    fun ha => (List.mem_filter.mp ha).1
  rw [Search.select, Search.select, sort_eq_of_perm (hperm.filter _)]
  exact fun a ha b hb => hpaths a (hkept ha) b (hkept hb)

/-- Two files that were found in one order and in the other. -/
theorem compareFiles_total_views :
    ["a/View10.h", "a/View2.h"].Perm ["a/View2.h", "a/View10.h"] ∧
    Path.components "a/View10.h" ≠ Path.components "a/View2.h" ∧
    Search.select {} "a" (some ["a/View10.h", "a/View2.h"]) =
      Search.select {} "a" (some ["a/View2.h", "a/View10.h"]) := by
  have hperm : ["a/View10.h", "a/View2.h"].Perm ["a/View2.h", "a/View10.h"] := .swap _ _ _
  have hne : Path.components "a/View10.h" ≠ Path.components "a/View2.h" := by decide
  refine ⟨hperm, hne, compareFiles_total.2.2.2.2.2.2 {} "a" _ _ hperm ?_⟩
  intro x hx y hy heq
  rcases List.mem_pair.mp hx with rfl | rfl <;> rcases List.mem_pair.mp hy with rfl | rfl
  · rfl
  · exact absurd heq hne
  · exact absurd heq.symm hne
  · rfl

end HeaderBridge.FileOrder
