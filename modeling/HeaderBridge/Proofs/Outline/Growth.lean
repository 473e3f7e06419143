import HeaderBridge.Outline.Draft
import HeaderBridge.Proofs.Outline.Layout

/-! # How outlines grow

While a node is the innermost open one, a new node becomes the last of its
children. Adding a leaf and opening a node are of this form.
-/

namespace HeaderBridge.Outline

section Results

variable {ε α β : Type} {x : Except ε α} {f : α → Except ε β} {b : β}

@[simp] theorem ok_bind (a : α) : (Except.ok a >>= f) = f a := rfl

@[simp] theorem error_bind (err : ε) : (Except.error err >>= f) = .error err := rfl

@[simp] theorem pure_eq_ok : (pure b : Except ε β) = .ok b := rfl

@[simp] theorem throw_eq_error (err : ε) : (throw err : Except ε β) = .error err := rfl

theorem bind_eq_ok_iff : (x >>= f) = .ok b ↔ ∃ a, x = .ok a ∧ f a = .ok b := by
  cases x <;> simp

end Results

variable {o : Outline} {top i : Nat} {e : Entry}

theorem get?_eq_none_iff : o.get? i = none ↔ o.size ≤ i := by
  simp [get?, size]

theorem exists_get? (h : i < o.size) : ∃ e, o.get? i = some e := by
  simp only [size] at h
  exact ⟨o.entries[i], by simp [get?, h]⟩

theorem get_eq_ok (h : o.get? i = some e) : o.get i = .ok e := by
  simp [get, h]

@[simp] theorem size_modify (f : Entry → Entry) : (o.modify i f).size = o.size := by
  simp [modify, size]

theorem get?_modify (f : Entry → Entry) (j : Nat) :
    (o.modify i f).get? j = if i = j then (o.get? j).map f else o.get? j := by
  simp [modify, get?, Array.getElem?_modify]

@[simp] theorem size_alloc : (o.alloc e).2.size = o.size + 1 := by
  simp [alloc, size]

theorem get?_alloc (j : Nat) : (o.alloc e).2.get? j = if j = o.size then some e else o.get? j := by
  by_cases h : j = o.entries.size <;> simp [alloc, get?, size, Array.getElem?_push, h]

/-! ### A new last child -/

/-- The outline with a new node as the last child of another. -/
def hang (o : Outline) (top : Nat) (e : Entry) : Outline :=
  ((o.alloc e).2.modify o.size fun e => { e with parent := some top }).modify top fun e =>
    { e with children := e.children ++ [o.size] }

@[simp] theorem size_hang : (o.hang top e).size = o.size + 1 := by
  simp [hang]

theorem get?_hang_size (h : top < o.size) :
    (o.hang top e).get? o.size = some { e with parent := some top } := by
  have hne : top ≠ o.size := by omega
  simp [hang, get?_modify, get?_alloc, hne]

theorem get?_hang_top (h : top < o.size) (e : Entry) : (o.hang top e).get? top =
    (o.get? top).map fun t => { t with children := t.children ++ [o.size] } := by
  have hne : o.size ≠ top := by omega
  have hne' : top ≠ o.size := by omega
  simp [hang, get?_modify, get?_alloc, hne, hne']

theorem get?_hang_of_ne (hi : i < o.size) (hne : i ≠ top) : (o.hang top e).get? i = o.get? i := by
  have h₁ : top ≠ i := Ne.symm hne
  have h₂ : o.size ≠ i := by omega
  have h₃ : i ≠ o.size := by omega
  simp [hang, get?_modify, get?_alloc, h₁, h₂, h₃]

theorem append_alloc (h : top < o.size) (he : e.parent = none) :
    (o.alloc e).2.append top o.size = .ok (o.hang top e) := by
  have hroot : o.size ≠ root := by simp only [root]; omega
  have hget : (o.alloc e).2.get o.size = .ok e := get_eq_ok (by simp [get?_alloc])
  obtain ⟨t, ht⟩ : ∃ t, ((o.alloc e).2.modify o.size fun e => { e with parent := some top }).get?
      top = some t := exists_get? (by simp only [size_modify, size_alloc]; omega)
  simp only [append, hroot, if_false, hget, he, get_eq_ok ht, hang, ok_bind, pure_eq_ok]

theorem add_eq_hang (h : top < o.size) (he : e.parent = none) :
    o.add top e = .ok (o.size, o.hang top e) := by
  have ha := append_alloc h he
  simp only [alloc] at ha
  simp only [add, alloc, ha, ok_bind, pure_eq_ok]

/-! ### Drafts -/

theorem Tag.tag_of_fresh? {tag : Tag} {kind : Kind} (h : tag.fresh? = some kind) :
    kind.tag = tag := by
  cases tag <;> simp only [Tag.fresh?, Option.some.injEq, reduceCtorEq] at h <;> subst h <;> rfl

namespace Draft

variable {d : Draft} {rest : List Nat}

theorem openNew_eq (ho : d.opened = top :: rest) (h : top < d.outline.size) (he : e.parent = none) :
    d.openNew e = .ok (d.outline.size,
      ⟨d.outline.hang top e, d.outline.size :: d.opened⟩) := by
  have hroot : d.outline.size ≠ root := by simp only [root]; omega
  have hget : (d.outline.alloc e).2.get d.outline.size = .ok e := get_eq_ok (by simp [get?_alloc])
  have ha := append_alloc h he
  simp only [alloc] at hget ha
  simp [openNew, openExisting, isAttached, ho, alloc, hroot, hget, he, ha]

theorem addLeaf_eq (ho : d.opened = top :: rest) (h : top < d.outline.size) (he : e.parent = none) :
    d.addLeaf e = .ok (some d.outline.size, { d with outline := d.outline.hang top e }) := by
  simp [addLeaf, ho, add_eq_hang h he]

theorem currentWith?_eq {t : Entry} (ho : d.opened = top :: rest)
    (ht : d.outline.get? top = some t) (tag : Tag) :
    d.currentWith? tag = .ok (if t.kind.tag = tag then some top else none) := by
  simp [currentWith?, ho, get_eq_ok ht]

end Draft

end HeaderBridge.Outline
