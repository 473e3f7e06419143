import HeaderBridge.DeclaredType.Spelling
import HeaderBridge.Proofs.DeclaredType.Regular

/-! # Types with their words gathered

A spelling has one place for the specifiers of all layers, in front, and one place
behind each star. The gathered type has its words in these places: specifiers of
inner layers apply to the type as a whole, and qualifiers around a pointer come
behind those that it has. Names of blocks are gone.

A faithful type says the same after this. What is not faithful is a word that has
no place, such as one behind the brackets of an array, a nullability that another
one overrules, a keyword in the place of a name, and a list of arguments that
looks like one of names.
-/

namespace HeaderBridge.DeclaredType

open Grammar

/-! ### Gathering -/

/-- The specifiers of all layers that are spelled in front, from the outside in. -/
def frontSpecifiers : DeclaredType → List String
  | specified ss t => ss ++ t.frontSpecifiers
  | qualified t _ | pointer t | array t _ => t.frontSpecifiers
  | block _ r _ => r.frontSpecifiers
  | void | named _ | object _ | generic _ _ => []

def join : DeclaredType → List String → DeclaredType
  | qualified (pointer t) rs, qs => qualified (pointer t) (rs ++ qs)
  | t, qs => t.qualify qs

mutual

/-- The type without the specifiers that are spelled in front, with the words inside gathered. -/
def bare : DeclaredType → DeclaredType
  | void => void
  | named n => named n
  | object ps => object ps
  | generic n ts => generic n (gatherAll ts)
  | pointer t => pointer t.bare
  | specified _ t => t.bare
  | qualified t qs => t.bare.join qs
  | block _ r ps => block none r.bare (gatherAll ps)
  | array t l => array t.bare l

def gatherAll : List DeclaredType → List DeclaredType
  | [] => []
  | t :: ts => t.bare.specify t.frontSpecifiers :: gatherAll ts

end

/-- The type that the canonical spelling denotes, if it denotes any. -/
def gather (t : DeclaredType) : DeclaredType := t.bare.specify t.frontSpecifiers

theorem gatherAll_eq_map (ts : List DeclaredType) : gatherAll ts = ts.map gather := by
  induction ts with
  | nil => rfl
  | cons t ts ih => rw [gatherAll, ih, List.map_cons, gather]

/-! ### Faithful types -/

/-- Whether a word means something else than a type of that name. -/
def isKeyword (n : String) : Bool :=
  (prefixRule? n).isSome || n ∈ Rule.tagKeyword.spellings || n = "id" || n = "void"

def isNamed : DeclaredType → Bool
  | named _ => true
  | _ => false

/-- Whether qualifiers around a type may stand behind its own: brackets have no room for any, a
caret for one, and the first nullability must stay what it is. -/
def admits (t : DeclaredType) (qs : List String) : Bool :=
  match t.unqualified with
  | array _ _ => false
  | block _ _ _ => (t.outerQualifiers ++ qs).length ≤ 1
  | _ => (t.outerQualifiers ++ qs).findSome? Nullability.ofSpelling? =
      (qs ++ t.outerQualifiers).findSome? Nullability.ofSpelling?

mutual

/-- Whether the gathered type says what the type says, and its spelling can be read. -/
def isFaithful : DeclaredType → Bool
  | void | object _ => true
  | named n => !isKeyword n
  | generic n ts =>
    if (spellings ts).all fun s => IsIdent s.toList then ts.all isNamed && n ≠ "id"
    else areFaithful ts
  | pointer t | specified _ t => t.isFaithful
  | qualified t qs => t.isFaithful && t.admits qs
  | block _ r ps => r.isFaithful && areFaithful ps
  | array t l => t.isFaithful && !opensComment l.toList

def areFaithful : List DeclaredType → Bool
  | [] => true
  | t :: ts => t.isFaithful && areFaithful ts

end

theorem areFaithful_iff {ts : List DeclaredType} :
    areFaithful ts = true ↔ ∀ t ∈ ts, t.isFaithful = true := by
  induction ts with
  | nil => simp [areFaithful]
  | cons t ts ih => simp [areFaithful, ih]

theorem gatherAll_of_isNamed {ts : List DeclaredType} (h : ts.all isNamed = true) :
    gatherAll ts = ts := by
  rw [gatherAll_eq_map, List.map_congr_left (g := id) fun t ht => ?_, List.map_id]
  have ht := List.all_eq_true.mp h t ht
  cases t with
  | named n => rfl
  | _ => cases ht

theorem arguments_of_isFaithful {n : String} {ts : List DeclaredType}
    (h : (generic n ts).isFaithful = true) : gatherAll ts = ts ∨ areFaithful ts = true := by
  rw [isFaithful] at h
  split at h
  · rw [Bool.and_eq_true] at h
    exact .inl (gatherAll_of_isNamed h.1)
  · exact .inr h

/-! ### The layers of gathered types -/

/-- Induction over the layers of words around a type. -/
@[elab_as_elim] theorem layer_induction {motive : DeclaredType → Prop} (void : motive void)
    (named : ∀ n, motive (named n)) (object : ∀ ps, motive (object ps))
    (generic : ∀ n ts, motive (generic n ts)) (pointer : ∀ t, motive (pointer t))
    (specified : ∀ ss t, motive t → motive (specified ss t))
    (qualified : ∀ t qs, motive t → motive (qualified t qs))
    (block : ∀ n r ps, motive (block n r ps)) (array : ∀ t l, motive (array t l))
    (t : DeclaredType) :
    motive t := by
  induction t using unqualified.induct with
  | case1 ss t ih => exact specified ss t ih
  | case2 t qs ih => exact qualified t qs ih
  | case3 t hspecified hqualified =>
    cases t with
    | specified ss t => exact absurd rfl (hspecified ss t)
    | qualified t qs => exact absurd rfl (hqualified t qs)
    | void => exact void
    | named n => exact named n
    | object ps => exact object ps
    | generic n ts => exact generic n ts
    | pointer t => exact pointer t
    | block n r ps => exact block n r ps
    | array t l => exact array t l

theorem unqualified_ne (t : DeclaredType) : (∀ ss u, t.unqualified ≠ specified ss u) ∧
    ∀ u qs, t.unqualified ≠ qualified u qs := by
  induction t using layer_induction with
  | specified ss t ih => exact ih
  | qualified t qs ih => exact ih
  | _ => exact ⟨by simp [unqualified], by simp [unqualified]⟩

theorem join_cases (t : DeclaredType) (qs : List String) :
    t.join qs = t.qualify qs ∨
      ∃ p rs, t = qualified (pointer p) rs ∧ t.join qs = qualified (pointer p) (rs ++ qs) := by
  unfold join
  split
  · exact .inr ⟨_, _, rfl, rfl⟩
  · exact .inl rfl

theorem unqualified_join (t : DeclaredType) (qs : List String) :
    (t.join qs).unqualified = t.unqualified := by
  rcases join_cases t qs with h | ⟨p, rs, rfl, h⟩ <;> rw [h]
  · cases qs <;> rfl
  · rfl

theorem outerSpecifiers_join (t : DeclaredType) (qs : List String) :
    (t.join qs).outerSpecifiers = t.outerSpecifiers := by
  rcases join_cases t qs with h | ⟨p, rs, rfl, h⟩ <;> rw [h]
  · cases qs <;> rfl
  · rfl

theorem baseName_join (t : DeclaredType) (qs : List String) :
    (t.join qs).baseName = t.baseName := by
  rcases join_cases t qs with h | ⟨p, rs, rfl, h⟩ <;> rw [h]
  · cases qs <;> rfl
  · rfl

theorem outerQualifiers_join (t : DeclaredType) (qs : List String) :
    (t.join qs).outerQualifiers = qs ++ t.outerQualifiers ∨
      (∃ p, t.unqualified = pointer p) ∧ (t.join qs).outerQualifiers = t.outerQualifiers ++ qs := by
  rcases join_cases t qs with h | ⟨p, rs, rfl, h⟩
  · exact .inl (by rw [h]; cases qs <;> rfl)
  · exact .inr ⟨⟨p, rfl⟩, by rw [h]; simp [outerQualifiers]⟩

theorem unqualified_bare (t : DeclaredType) : t.bare.unqualified = t.unqualified.bare := by
  induction t using layer_induction with
  | specified ss t ih => exact ih
  | qualified t qs ih => rw [bare, unqualified_join, ih, unqualified]
  | _ => rfl

theorem outerSpecifiers_bare (t : DeclaredType) : t.bare.outerSpecifiers = [] := by
  induction t using layer_induction with
  | specified ss t ih => exact ih
  | qualified t qs ih => rw [bare, outerSpecifiers_join, ih]
  | _ => rfl

theorem outerSpecifiers_gather (t : DeclaredType) :
    t.gather.outerSpecifiers = t.frontSpecifiers := by
  have hbare := outerSpecifiers_bare t
  rw [gather]
  cases hss : t.frontSpecifiers with
  | nil => exact hbare
  | cons s ss =>
    rw [specify, outerSpecifiers, hbare, List.append_nil]
    simp

theorem isConst_bare (t : DeclaredType) : t.bare.isConst = t.isConst := by
  induction t using layer_induction with
  | specified ss t ih => exact ih
  | qualified t qs ih =>
    rw [isConst, isConst] at ih ⊢
    rw [bare, outerQualifiers, List.contains_append, ← ih]
    rcases outerQualifiers_join t.bare qs with h | ⟨-, h⟩ <;> rw [h, List.contains_append]
    rw [Bool.or_comm]
  | _ => rfl

theorem nullability_bare {t : DeclaredType} (h : t.isFaithful = true) :
    t.bare.nullability = t.nullability := by
  induction t using layer_induction with
  | specified ss t ih => exact ih h
  | qualified t qs ih =>
    rw [isFaithful, Bool.and_eq_true] at h
    have ih := ih h.1
    rw [nullability, nullability] at ih ⊢
    rw [bare, outerQualifiers, List.findSome?_append, ← ih]
    rcases outerQualifiers_join t.bare qs with hjoin | ⟨⟨p, hp⟩, hjoin⟩ <;>
      rw [hjoin, List.findSome?_append]
    -- behind a star, the first nullability must stay what it is
    have hadmits := h.2
    rw [unqualified_bare] at hp
    rw [admits] at hadmits
    split at hadmits
    · cases hadmits
    · next hblock =>
      rw [hblock] at hp
      cases hp
    · rwa [decide_eq_true_eq, List.findSome?_append, List.findSome?_append, ← ih] at hadmits
  | _ => rfl

theorem baseName_bare (t : DeclaredType) : t.bare.baseName = t.baseName := by
  fun_induction baseName t with
  | case5 t ih => exact ih
  | case6 ss t ih => exact ih
  | case7 t qs ih => rw [bare, baseName_join, ih]
  | case8 t l ih => exact ih
  | _ => rfl

/-! ### Words around gathered types -/

theorem frontSpecifiers_qualify (t : DeclaredType) (qs : List String) :
    (t.qualify qs).frontSpecifiers = t.frontSpecifiers := by
  cases qs <;> rfl

theorem frontSpecifiers_wrap (a : Adornment) (t : DeclaredType) :
    (a.wrap t).frontSpecifiers = a.specifiers ++ t.frontSpecifiers := by
  rw [Adornment.wrap, ← frontSpecifiers_qualify t a.qualifiers]
  cases a.specifiers <;> rfl

theorem join_nil (t : DeclaredType) : t.join [] = t := by
  rcases join_cases t [] with h | ⟨p, rs, rfl, h⟩ <;> rw [h]
  · rfl
  · rw [List.append_nil]

theorem join_eq_void {t : DeclaredType} {qs : List String} (h : t.join qs = void) :
    qs = [] ∧ t = void := by
  rcases join_cases t qs with hjoin | ⟨p, rs, rfl, hjoin⟩ <;> rw [hjoin] at h
  · cases qs with
    | nil => exact ⟨rfl, h⟩
    | cons q qs => cases h
  · cases h

theorem bare_qualify (t : DeclaredType) (qs : List String) :
    (t.qualify qs).bare = t.bare.join qs := by
  cases qs with
  | nil => exact (join_nil t.bare).symm
  | cons q qs => rfl

theorem bare_wrap (a : Adornment) (t : DeclaredType) :
    (a.wrap t).bare = t.bare.join a.qualifiers := by
  rw [Adornment.wrap, ← bare_qualify]
  cases a.specifiers <;> rfl

theorem isFaithful_qualify {t : DeclaredType} {qs : List String}
    (h : (t.qualify qs).isFaithful = true) :
    t.isFaithful = true ∧ (qs = [] ∨ t.admits qs = true) := by
  cases qs with
  | nil => exact ⟨h, .inl rfl⟩
  | cons q qs =>
    have h : (t.isFaithful && t.admits (q :: qs)) = true := h
    rw [Bool.and_eq_true] at h
    exact ⟨h.1, .inr h.2⟩

theorem isFaithful_wrap {a : Adornment} {t : DeclaredType} (h : (a.wrap t).isFaithful = true) :
    (t.qualify a.qualifiers).isFaithful = true := by
  rw [← h, Adornment.wrap]
  cases a.specifiers <;> rfl

end HeaderBridge.DeclaredType
