import HeaderBridge.Proofs.DeclaredType.TypeNames

/-! # How deep reading goes

The number of levels is the only reason for which a complete type name cannot be
read. From some number of levels on, at most the number of characters of the
text, reading gives one type, and with fewer levels it gives none.
-/

namespace HeaderBridge.DeclaredType

open Grammar

/-! ### Answers that depend on levels -/

/-- There is one answer from some number of levels on, at most the given one, and none below. -/
def SettlesBy {α : Type} (k : Nat) (f : Nat → Option α) : Prop :=
  ∃ t, ∃ d ≤ k, ∀ n, f n = if d ≤ n then some t else none

namespace SettlesBy

variable {α β ι : Type} {k : Nat} {f : Nat → Option α}

theorem const (k : Nat) (t : α) : SettlesBy k fun _ => some t :=
  ⟨t, 0, Nat.zero_le k, by simp⟩

theorem bind {g : α → Nat → Option β} (hf : SettlesBy k f) (hg : ∀ t, SettlesBy k (g t)) :
    SettlesBy k fun n => (f n).bind fun t => g t n := by
  obtain ⟨t, d, hd, hf⟩ := hf
  obtain ⟨u, e, he, hg⟩ := hg t
  refine ⟨u, max d e, Nat.max_le.mpr ⟨hd, he⟩, fun n => ?_⟩
  by_cases hdn : d ≤ n
  · simp [hf, hg, hdn, Nat.max_le]
  · simp [hf, hdn, Nat.max_le]

theorem mapM {f : Nat → ι → Option α} {xs : List ι} (h : ∀ x ∈ xs, SettlesBy k (f · x)) :
    SettlesBy k fun n => xs.mapM (f n) := by
  induction xs with
  | nil => exact const k []
  | cons x xs ih =>
    simp only [List.mapM_cons]
    exact (h x List.mem_cons_self).bind fun t =>
      (ih fun y hy => h y (List.mem_cons_of_mem x hy)).bind fun ts => const k (t :: ts)

theorem foldlM {f : Nat → α → ι → Option α} {xs : List ι}
    (h : ∀ x ∈ xs, ∀ t, SettlesBy k fun n => f n t x) (t : α) :
    SettlesBy k fun n => xs.foldlM (f n) t := by
  induction xs generalizing t with
  | nil => exact const k t
  | cons x xs ih =>
    simp only [List.foldlM_cons]
    exact (h x List.mem_cons_self t).bind fun u =>
      ih (fun y hy => h y (List.mem_cons_of_mem x hy)) u

theorem succ {g : Nat → Option α} (hf : SettlesBy k f) (hzero : g 0 = none)
    (hsucc : ∀ n, g (n + 1) = f n) : SettlesBy (k + 1) g := by
  obtain ⟨t, d, hd, hf⟩ := hf
  refine ⟨t, d + 1, by omega, fun n => ?_⟩
  cases n with
  | zero => simp [hzero]
  | succ n => simp [hsucc, hf]

end SettlesBy

/-! ### Readers -/

/-- The types inside a text shorter than the given length can be read with that many levels. -/
structure InnerSettles (k : Nat) : Prop where
  argument : ∀ a : Node, a.Read → a.rule = .typeArgument → a.text.length < k →
    SettlesBy k fun n => (Inner.ofLevels n).argument a
  parameter : ∀ p : Node, p.Read → p.rule = .parameterDeclaration → p.text.length < k →
    SettlesBy k fun n => (Inner.ofLevels n).parameter p

section Readers

variable {k : Nat} (h : InnerSettles k) {m : Node} (hm : m.Read)
include h hm

theorem arguments_settle (hr : m.rule = .genericsSpecifier) (hk : m.text.length ≤ k) :
    SettlesBy k fun n => (m.childrenOf .typeArgument).mapM (Inner.ofLevels n).argument := by
  have hkind : m.rule.kind = .branch := by rw [hr]; rfl
  refine .mapM fun a ha => ?_
  obtain ⟨hmem, hrule⟩ := Node.mem_childrenOf.mp ha
  have hlt := hm.length_child_lt hkind (by rw [hr]; rfl) hmem
  exact h.argument a (hm.part hmem).1 hrule (by omega)

theorem readGeneric_settles (hr : m.rule = .genericTypeSpecifier) (hk : m.text.length ≤ k) :
    SettlesBy k fun n => readGeneric (.ofLevels n) m := by
  have hkind : m.rule.kind = .branch := by rw [hr]; rfl
  obtain ⟨i, hi⟩ := hm.exists_child? hkind .identifier (by rw [hr]; rfl)
  simp only [readGeneric, Node.childText?, hi, Option.map_some, Option.bind_eq_bind,
    Option.bind_some, Option.pure_def]
  cases hprotocols : m.child? .protocolList with
  | some list => exact .const k _
  | none =>
    obtain ⟨list, hlist⟩ : ∃ list, m.child? .genericsSpecifier = some list := by
      obtain ⟨x, hx, hrule⟩ := hm.exists_child hkind [.protocolList, .genericsSpecifier]
        (by rw [hr]; rfl)
      simp only [List.mem_cons, List.not_mem_nil, or_false] at hrule
      rcases hrule with hrule | hrule
      · obtain ⟨y, hy⟩ := Node.exists_child? hx hrule
        simp [hprotocols] at hy
      · exact Node.exists_child? hx hrule
    obtain ⟨hread, hrule, hlen⟩ := hm.of_child? hlist
    simp only [hlist, Option.bind_some]
    exact (arguments_settle h hread hrule (by omega)).bind fun ts => .const k _

theorem readSpecifier_settles (hr : m.rule = .typeSpecifier) (hk : m.text.length ≤ k) :
    SettlesBy k fun n => readSpecifier (.ofLevels n) m := by
  have hkind : m.rule.kind = .branch := by rw [hr]; rfl
  obtain ⟨x, hx, -⟩ := hm.exists_child hkind
    [.primitiveType, .taggedTypeSpecifier, .genericTypeSpecifier, .identifier] (by rw [hr]; rfl)
  obtain ⟨part, parts, hparts⟩ := List.exists_cons_of_ne_nil (List.ne_nil_of_mem hx)
  have hpart : part ∈ m.children := by simp [hparts]
  obtain ⟨hread, hrule⟩ := hm.child hkind hpart
  have hlen := hm.length_child hkind hpart
  have hrule : part.rule = .primitiveType ∨ part.rule = .taggedTypeSpecifier ∨
      part.rule = .genericTypeSpecifier ∨ part.rule = .identifier := by
    rw [hr] at hrule
    simpa using (show part.rule ∈ [.primitiveType, .taggedTypeSpecifier, .genericTypeSpecifier,
      .identifier] from hrule)
  simp only [readSpecifier, hparts, List.head?_cons, Option.bind_eq_bind, Option.bind_some]
  rcases hrule with hrule | hrule | hrule | hrule <;> simp only [hrule]
  · exact .const k _
  · obtain ⟨i, hi⟩ := hread.exists_child? (by rw [hrule]; rfl) .identifier (by rw [hrule]; rfl)
    simp only [Node.childText?, hi, Option.map_some]
    exact .const k _
  · exact readGeneric_settles h hread hrule (by omega)
  · exact .const k _

theorem readBase_settles (hkind : m.rule.kind = .branch)
    (hs : m.rule.body.surely [.typeSpecifier] = true) (hk : m.text.length ≤ k) :
    SettlesBy k fun n => readBase (.ofLevels n) m := by
  obtain ⟨s, hs⟩ := hm.exists_child? hkind .typeSpecifier hs
  obtain ⟨hread, hrule, hlen⟩ := hm.of_child? hs
  simp only [readBase, hs, Option.bind_eq_bind, Option.bind_some]
  exact (readSpecifier_settles h hread hrule (by omega)).bind fun t => .const k _

theorem addBlock_settles {list : Node} (hlist : m.child? .blockParameters = some list)
    (hk : m.text.length ≤ k) (t : DeclaredType) :
    SettlesBy k fun n => addBlock (.ofLevels n) t m := by
  obtain ⟨hread, hrule, hlen⟩ := hm.of_child? hlist
  have hkind' : list.rule.kind = .branch := by rw [hrule]; rfl
  simp only [addBlock, hlist, Option.bind_eq_bind, Option.bind_some]
  refine .bind (.mapM fun p hp => ?_) fun ts => .const k _
  obtain ⟨hmem, hp⟩ := Node.mem_childrenOf.mp hp
  have hlt := hread.length_child_lt hkind' (by rw [hrule]; rfl) hmem
  exact h.parameter p (hread.part hmem).1 hp (by omega)

theorem addAbstract_settles (hr : m.rule = .abstractDeclarator) (hk : m.text.length ≤ k)
    (t : DeclaredType) : SettlesBy k fun n => addAbstract (.ofLevels n) t m := by
  have hkind : m.rule.kind = .branch := by rw [hr]; rfl
  refine .foldlM (fun part hpart t => ?_) t
  obtain ⟨hread, -⟩ := hm.part hpart
  have hlen := hm.length_child hkind hpart
  by_cases hrule : part.rule = .abstractBlockDeclarator
  · have hkind' : part.rule.kind = .branch := by rw [hrule]; rfl
    obtain ⟨list, hlist⟩ := hread.exists_child? hkind' .blockParameters (by rw [hrule]; rfl)
    simp only [addAbstractPart, hrule]
    exact addBlock_settles h hread hlist (by omega) t
  · unfold addAbstractPart
    split
    · exact .const k _
    · exact absurd ‹_› hrule
    · exact .const k _
    · exact .const k _

theorem addDeclarator_settles (hr : m.rule = .declarator) (hk : m.text.length ≤ k)
    (t : DeclaredType) : SettlesBy k fun n => addDeclarator (.ofLevels n) t m := by
  have hkind : m.rule.kind = .branch := by rw [hr]; rfl
  obtain ⟨direct, hdirect⟩ := hm.exists_child? hkind .directDeclarator (by rw [hr]; rfl)
  obtain ⟨hread, hrule, hlen⟩ := hm.of_child? hdirect
  simp only [addDeclarator, hdirect, Option.bind_eq_bind, Option.bind_some]
  cases hlist : direct.child? .blockParameters with
  | some list => exact addBlock_settles h hread hlist (by omega) _
  | none => exact .const k _

theorem readTypeName_settles (hr : m.rule = .typeName) (hk : m.text.length ≤ k) :
    SettlesBy k fun n => readTypeName (.ofLevels n) m := by
  have hkind : m.rule.kind = .branch := by rw [hr]; rfl
  obtain ⟨list, hlist⟩ := hm.exists_child? hkind .specifierQualifierList (by rw [hr]; rfl)
  obtain ⟨hread, hrule, hlen⟩ := hm.of_child? hlist
  simp only [readTypeName, hlist, Option.bind_eq_bind, Option.bind_some]
  refine .bind (readBase_settles h hread (by rw [hrule]; rfl) (by rw [hrule]; rfl) (by omega))
    fun t => ?_
  cases hd : m.child? .abstractDeclarator with
  | none => exact .const k _
  | some d =>
    obtain ⟨hread, hrule, hlen⟩ := hm.of_child? hd
    exact (addAbstract_settles h hread hrule (by omega) t).bind fun u => .const k _

theorem readParameter_settles (hr : m.rule = .parameterDeclaration) (hk : m.text.length ≤ k) :
    SettlesBy k fun n => readParameter (.ofLevels n) m := by
  have hkind : m.rule.kind = .branch := by rw [hr]; rfl
  obtain ⟨list, hlist⟩ := hm.exists_child? hkind .specifierQualifierList (by rw [hr]; rfl)
  obtain ⟨hread, hrule, hlen⟩ := hm.of_child? hlist
  simp only [readParameter, hlist, Option.bind_eq_bind, Option.bind_some]
  refine .bind (readBase_settles h hread (by rw [hrule]; rfl) (by rw [hrule]; rfl) (by omega))
    fun t => ?_
  cases hd : m.child? .declarator with
  | some d =>
    obtain ⟨hread, hrule, hlen⟩ := hm.of_child? hd
    exact (addDeclarator_settles h hread hrule (by omega) t).bind fun u => .const k _
  | none =>
    cases ha : m.child? .abstractDeclarator with
    | none => exact .const k _
    | some d =>
      obtain ⟨hread, hrule, hlen⟩ := hm.of_child? ha
      exact (addAbstract_settles h hread hrule (by omega) t).bind fun u => .const k _

end Readers

theorem length_text_of_parseTypeName? {s : String} {m : Node} (h : parseTypeName? s = some m) :
    m.text.length ≤ s.length := by
  obtain ⟨c, hread, -⟩ := parseTypeName?_eq_some h
  have htext := congrArg List.length (Rule.reading_text (.inl rfl) hread)
  have hle := (skipGap_suffix s.toList).length_le
  rw [Node.text_unplaced, List.length_append, String.length_toList] at htext
  rw [String.length_toList] at hle
  omega

theorem innerSettles (k : Nat) : InnerSettles k := by
  induction k with
  | zero => exact ⟨fun a _ _ h => absurd h (by omega), fun p _ _ h => absurd h (by omega)⟩
  | succ k ih =>
    refine ⟨fun a ha hr hk => ?_, fun p hp hr hk => ?_⟩
    · obtain ⟨-, -, m, -, -, hparse, -⟩ := parseTypeName?_argument ha hr
      have hlen := length_text_of_parseTypeName? hparse
      obtain ⟨hread, hrule⟩ := read_of_parseTypeName? hparse
      have hm := readTypeName_settles ih hread hrule (by omega)
      refine hm.succ rfl fun n => ?_
      simp only [Inner.ofLevels, hparse, Option.bind_some]
    · exact (readParameter_settles ih hp hr (by omega)).succ rfl fun n => rfl

/-! ### Spellings -/

theorem length_le_utf8ByteSize (s : String) : s.length ≤ s.utf8ByteSize := by
  have hlist : ∀ cs : List Char, cs.length ≤ (String.ofList cs).utf8ByteSize := by
    intro cs
    induction cs with
    | nil => simp
    | cons c cs ih =>
      have hpos := c.utf8Size_pos
      rw [String.ofList_cons, String.utf8ByteSize_append, String.utf8ByteSize_singleton,
        List.length_cons]
      omega
  have h := hlist s.toList
  rwa [String.length_toList, String.ofList_toList] at h

theorem readWithin_settles {s : String} {m : Node} (h : parseTypeName? s = some m) :
    SettlesBy s.utf8ByteSize fun d => readWithin d s := by
  obtain ⟨hread, hrule⟩ := read_of_parseTypeName? h
  have hlen := length_text_of_parseTypeName? h
  have hbytes := length_le_utf8ByteSize s
  simp only [readWithin, h, Option.bind_some]
  exact readTypeName_settles (innerSettles _) hread hrule (by omega)

/-- The type arguments that are met on the way when a text is read: in its own parse tree, and in
those of the texts of arguments that are met. -/
inductive Meets : String → Node → Prop where
  | within {s : String} {m a : Node} : parseTypeName? s = some m → a.Within m →
      a.rule = .typeArgument → Meets s a
  | inside {s : String} {a b : Node} : Meets s a → Meets a.text b → Meets s b

theorem Meets.read {s : String} {a : Node} (h : Meets s a) : a.Read ∧ a.rule = .typeArgument := by
  induction h with
  | within hparse hwithin hr => exact ⟨(read_of_parseTypeName? hparse).1.within hwithin, hr⟩
  | inside _ _ _ ih => exact ih

/-- The number of levels is the only reason for which reading gives up. A complete type name is
read from some number of levels on, at most the bytes of its text, always as the same type, and
with fewer levels not at all. Every type argument that is met is a complete type name with the
same parts. What is no complete type name is never read. -/
theorem readWithin_fails_only_for_depth (s : String) :
    ((parseTypeName? s).isSome → ∃ t, ∃ d₀ ≤ s.utf8ByteSize,
      ∀ d, readWithin d s = if d₀ ≤ d then some t else none) ∧
    (∀ a, Meets s a → ∃ base declarator n, a.skeleton = .branch .typeArgument (base ++ declarator) ∧
      parseTypeName? a.text = some n ∧ n.skeleton = .typeName base declarator) ∧
    (parseTypeName? s = none → ∀ d, readWithin d s = none) := by
  refine ⟨fun h => ?_, fun a ha => ?_, fun h d => ?_⟩
  · obtain ⟨m, hm⟩ := Option.isSome_iff_exists.mp h
    exact readWithin_settles hm
  · obtain ⟨base, declarator, n, ha, -, hn⟩ := parseTypeName?_argument ha.read.1 ha.read.2
    exact ⟨base, declarator, n, ha, hn⟩
  · rw [readWithin, h, Option.bind_none]

/-- Arguments with a comment behind them, and a text that breaks off. -/
theorem readWithin_nested_arguments :
    ((parseTypeName? "A<B<int *> // b\n, C>").isSome ∧
      ∃ t, ∃ d₀ ≤ "A<B<int *> // b\n, C>".utf8ByteSize,
        ∀ d, readWithin d "A<B<int *> // b\n, C>" = if d₀ ≤ d then some t else none) ∧
    (∃ a, Meets "A<B<int *> // b\n, C>" a ∧
      ∃ base declarator n, a.skeleton = .branch .typeArgument (base ++ declarator) ∧
        parseTypeName? a.text = some n ∧ n.skeleton = .typeName base declarator) ∧
    (parseTypeName? "A<B" = none ∧ ∀ d, readWithin d "A<B" = none) := by
  have hwhole : (parseTypeName? "A<B<int *> // b\n, C>").isSome := by decide +kernel
  have hpath : ((parseTypeName? "A<B<int *> // b\n, C>").bind fun m =>
      (m.child? .specifierQualifierList).bind fun l => (l.child? .typeSpecifier).bind fun t =>
      (t.child? .genericTypeSpecifier).bind fun g => (g.child? .genericsSpecifier).bind fun x =>
      x.child? .typeArgument).isSome := by decide +kernel
  have hbroken : parseTypeName? "A<B" = none :=
    Option.isNone_iff_eq_none.mp (by decide +kernel)
  obtain ⟨a, ha⟩ := Option.isSome_iff_exists.mp hpath
  simp only [Option.bind_eq_some_iff] at ha
  obtain ⟨m, hm, l, hl, t, ht, g, hg, x, hx, ha⟩ := ha
  have hmeets : Meets "A<B<int *> // b\n, C>" a := by
    refine .within hm ?_ (Node.child?_eq_some ha).2
    exact .child (Node.child?_eq_some hl).1 (.child (Node.child?_eq_some ht).1
      (.child (Node.child?_eq_some hg).1 (.child (Node.child?_eq_some hx).1
        (.child (Node.child?_eq_some ha).1 .self))))
  exact ⟨⟨hwhole, (readWithin_fails_only_for_depth _).1 hwhole⟩,
    ⟨a, hmeets, (readWithin_fails_only_for_depth _).2.1 a hmeets⟩,
    hbroken, (readWithin_fails_only_for_depth _).2.2 hbroken⟩

end HeaderBridge.DeclaredType
