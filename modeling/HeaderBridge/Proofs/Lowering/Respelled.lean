import HeaderBridge.Proofs.DeclaredType.Faithful
import HeaderBridge.Proofs.Lowering.Gathered

/-! # The meaning of canonical spellings

The canonical spelling of a type that was read may be read again. For a faithful
type, it then means the same, up to two conditions that the spelling does not see:
the levels of nesting, and the layer that an ownership belongs to.
-/

namespace HeaderBridge.Lowering

open DeclaredType

/-- The canonical spelling keeps the meaning of a faithful type, in all places where it may be
declared, if and only if it is not nested too deep to be read again and no ownership of an inner
layer comes before that of the outermost one. -/
theorem lower_read_spelling_iff {s : String} {t : DeclaredType} (h : DeclaredType.read s = some t)
    (hf : t.isFaithful = true) :
    (∃ u, DeclaredType.read t.spelling = some u ∧ ∀ ctx, lower ctx u = lower ctx t) ↔
      t.levels ≤ defaultMaxDepth ∧ ownershipOf t.frontSpecifiers =
        ownershipOf t.outerSpecifiers := by
  have hwritten := written_of_readWithin h
  have hlevels := (gathers_of_written hwritten hf).1.levels_gather
  rw [DeclaredType.read, readWithin_spelling_gather hwritten hf, upTo, hlevels,
    ← lower_gather_iff hf]
  constructor
  · rintro ⟨u, hu, hlower⟩
    rw [Option.ite_none_right_eq_some, Option.some.injEq] at hu
    obtain ⟨hle, rfl⟩ := hu
    exact ⟨hle, hlower⟩
  · rintro ⟨hle, hlower⟩
    exact ⟨t.gather, if_pos hle, hlower⟩

/-- The word in front of a block moves behind its caret, and the name of its parameter is gone. -/
theorem lower_read_spelling_block : ∃ t,
    DeclaredType.read ("__weak nullable NSMapTable<__kindof A *, id<B>> * const * " ++
      "(^)(int n [ 4 ], void (^done)(nullable id))") = some t ∧ t.isFaithful = true ∧
    t.spelling = "__weak NSMapTable<__kindof A *, id<B>> * const * " ++
      "(^nullable)(int[4], void (^)(id nullable))" ∧
    ∃ u, DeclaredType.read t.spelling = some u ∧ ∀ ctx, lower ctx u = lower ctx t := by
  have hread : DeclaredType.read ("__weak nullable NSMapTable<__kindof A *, id<B>> * const * " ++
      "(^)(int n [ 4 ], void (^done)(nullable id))") =
        some (specified ["__weak"] (qualified (block none
          (pointer (qualified (pointer (generic "NSMapTable"
            [specified ["__kindof"] (pointer (named "A")), object ["B"]])) ["const"]))
          [array (named "int") "4", block (some "done") void [qualified (object []) ["nullable"]]])
          ["nullable"])) := by decide +kernel
  exact ⟨_, hread, by decide +kernel, by decide +kernel,
    (lower_read_spelling_iff hread (by decide +kernel)).mpr ⟨by decide +kernel, by decide +kernel⟩⟩

/-- The words around an array are spelled behind its brackets, where they cannot be read. -/
theorem read_spelling_qualified_array : ∃ t, DeclaredType.read "nullable NSString *[4]" = some t ∧
    t.spelling = "NSString *[4] nullable" ∧ DeclaredType.read t.spelling = none := by
  refine ⟨qualified (array (pointer (named "NSString")) "4") ["nullable"], ?_, ?_, ?_⟩ <;>
    decide +kernel

end HeaderBridge.Lowering
