import HeaderBridge.Proofs.Declaration.Texts

/-! # Fully audited headers

If a whole header is taken to be audited and none of its words leaves a
nullability open, every declaration that is read from it is proper without implicit
unwrapping. No reference in its source is implicitly unwrapped.
-/

namespace HeaderBridge

open Grammar Grammar.Expr Outline Text

theorem Declaration.mem_source {ds : List TypeDeclaration} {c : Char} (h : c ∈ (source ds).toList) :
    c = '\n' ∨ ∃ l ∈ sourceLines ds, c ∈ l.toList := by
  rw [source, String.toList_join, List.mem_flatMap] at h
  obtain ⟨line, hline, hc⟩ := h
  obtain ⟨l, hl, rfl⟩ := List.mem_map.mp hline
  rw [String.toList_append, List.mem_append] at hc
  exact hc.elim (fun hc => .inr ⟨l, hl, hc⟩) fun hc => .inl (List.mem_singleton.mp hc)

namespace Header

/-- A fully audited header declares nothing that is implicitly unwrapped: unless a word of the
header leaves a nullability open, its source has no exclamation marks. -/
theorem convert_never_unwraps {text : String} {tree : Node} (h : parse text = .ok tree)
    (hopen : ∀ w ∈ ["null_unspecified", "_Null_unspecified", "__null_unspecified",
      "null_resettable"], ¬ w.toList <:+: text.toList) (emit : Bool) :
    ∃ swift, convert { assumeNonnull := true, emitAttributes := emit } text = .ok swift ∧
      '!' ∉ swift.toList := by
  refine ⟨_, convert_of_parse h _, fun hmark => ?_⟩
  obtain ⟨l, hl, hmark⟩ := (Declaration.mem_source hmark).resolve_left (by decide)
  have hsettled : Settled false text.toList := .inr hopen
  exact (Declaration.orderly_sourceLines (proper_of_parse h hsettled _ rfl) l hl).unmarked hmark

def exclaimingHeader : String :=
  "@interface A /* ! */ \x7b int *a[!]; \x7d\n- (id)f:(NSError **)e;\n@end"

/-- Neither the exclamation marks in a comment and in the length of an array nor a pointer
without a nullability of its own leave a trace. -/
theorem convert_never_unwraps_pointers : ∃ swift,
    convert { assumeNonnull := true } exclaimingHeader = .ok swift ∧ '!' ∉ swift.toList := by
  have hok : (parse exclaimingHeader).isOk = true := by decide +kernel
  obtain ⟨tree, h⟩ := exists_parse hok
  exact convert_never_unwraps h (by decide +kernel) false

end Header

end HeaderBridge
