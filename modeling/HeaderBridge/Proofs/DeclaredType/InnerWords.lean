import HeaderBridge.Proofs.DeclaredType.Gathered

/-! # The words inside a type

The specifiers and the qualifiers of a type, of all its layers and of the types
inside it.
-/

namespace HeaderBridge.DeclaredType

mutual

def qualifierWords : DeclaredType → List String
  | void | named _ | object _ => []
  | generic _ ts => qualifierWordsAll ts
  | pointer t | specified _ t | array t _ => t.qualifierWords
  | qualified t qs => qs ++ t.qualifierWords
  | block _ r ps => r.qualifierWords ++ qualifierWordsAll ps

def qualifierWordsAll : List DeclaredType → List String
  | [] => []
  | t :: ts => t.qualifierWords ++ qualifierWordsAll ts

end

mutual

def specifierWords : DeclaredType → List String
  | void | named _ | object _ => []
  | generic _ ts => specifierWordsAll ts
  | pointer t | qualified t _ | array t _ => t.specifierWords
  | specified ss t => ss ++ t.specifierWords
  | block _ r ps => r.specifierWords ++ specifierWordsAll ps

def specifierWordsAll : List DeclaredType → List String
  | [] => []
  | t :: ts => t.specifierWords ++ specifierWordsAll ts

end

theorem outerQualifiers_subset (t : DeclaredType) : t.outerQualifiers ⊆ t.qualifierWords := by
  induction t using layer_induction with
  | specified ss t ih => exact ih
  | qualified t qs ih =>
    rw [outerQualifiers, qualifierWords]
    exact List.append_subset.mpr
      ⟨List.subset_append_left _ _, List.subset_append_of_subset_right _ ih⟩
  | _ => exact List.nil_subset _

theorem nullability_ne_unspecified {t : DeclaredType}
    (h : ∀ w ∈ t.qualifierWords, Nullability.ofSpelling? w ≠ some .unspecified) :
    t.nullability ≠ some .unspecified := by
  intro hnullability
  obtain ⟨w, hw, hspelling⟩ := List.exists_of_findSome?_eq_some hnullability
  exact h w (outerQualifiers_subset t hw) hspelling

def words (t : DeclaredType) : List String := t.specifierWords ++ t.qualifierWords

def wordsAll (ts : List DeclaredType) : List String := specifierWordsAll ts ++ qualifierWordsAll ts

theorem specifierWordsAll_eq (ts : List DeclaredType) :
    specifierWordsAll ts = ts.flatMap specifierWords := by
  induction ts with
  | nil => rfl
  | cons t ts ih => rw [specifierWordsAll, ih, List.flatMap_cons]

theorem qualifierWordsAll_eq (ts : List DeclaredType) :
    qualifierWordsAll ts = ts.flatMap qualifierWords := by
  induction ts with
  | nil => rfl
  | cons t ts ih => rw [qualifierWordsAll, ih, List.flatMap_cons]

end HeaderBridge.DeclaredType
