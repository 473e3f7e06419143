import HeaderBridge.Command.Session
import Mathlib.Data.List.Basic

/-! # Colours do not change a text

Wherever words are found on a line one behind the other, the spans that are
collected share no position, and once they are sorted each of them starts where
the one before it has stopped, or later. So a line is cut into pieces that make up
the line, and a text with colours is the text without them.
-/

namespace HeaderBridge.Highlight

/-! ### Places on a line -/

/-- Places on a line of the given length, as words are found: none is empty, and each stops before
the next one starts. -/
structure InOrder (length : Nat) (places : List (Nat × Nat)) : Prop where
  apart : places.Pairwise fun a b => a.2 ≤ b.1
  bounds : ∀ p ∈ places, p.1 < p.2 ∧ p.2 ≤ length

/-- On every line the words are found one behind the other. -/
def Finder.Sound (f : Finder) : Prop :=
  ∀ line, InOrder line.length (f.keywords line) ∧ InOrder line.length (f.typeNames line)

section Occurrences

variable {found : Option Char → List Char → Option Nat}
  (h : ∀ before cs n, found before cs = some n → n ≤ cs.length)

include h

/-- What is found lies behind what is skipped, and each place behind the one before it. -/
theorem occurrences_inOrder (before : Option Char) (position skip : Nat) (cs : List Char) :
    (occurrences found before position skip cs).Pairwise (fun a b => a.2 ≤ b.1) ∧
      ∀ p ∈ occurrences found before position skip cs,
        position + skip ≤ p.1 ∧ p.1 < p.2 ∧ p.2 ≤ position + cs.length := by
  induction cs generalizing before position skip with
  | nil => simp [occurrences]
  | cons c cs ih =>
    cases skip with
    | succ skip =>
      obtain ⟨hapart, hbounds⟩ := ih (some c) (position + 1) skip
      refine ⟨hapart, fun p hp => ?_⟩
      have hp := hbounds p hp
      rw [List.length_cons]
      omega
    | zero =>
      obtain ⟨hapart, hbounds⟩ := ih (some c) (position + 1) 0
      have hnone :
          (occurrences found (some c) (position + 1) 0 cs).Pairwise (fun a b => a.2 ≤ b.1) ∧
          ∀ p ∈ occurrences found (some c) (position + 1) 0 cs,
            position + 0 ≤ p.1 ∧ p.1 < p.2 ∧ p.2 ≤ position + (c :: cs).length := by
        refine ⟨hapart, fun p hp => ?_⟩
        have hp := hbounds p hp
        rw [List.length_cons]
        omega
      rw [occurrences]
      cases hfound : found before (c :: cs) with
      | none => exact hnone
      | some n =>
        cases n with
        | zero => exact hnone
        | succ n =>
          have hn := h _ _ _ hfound
          obtain ⟨hapart, hbounds⟩ := ih (some c) (position + 1) n
          rw [List.length_cons] at hn
          refine ⟨List.pairwise_cons.mpr ⟨fun p hp => ?_, hapart⟩, fun p hp => ?_⟩
          · have hp := hbounds p hp
            simp only
            omega
          · rw [List.length_cons]
            rcases List.mem_cons.mp hp with rfl | hp
            · simp only
              omega
            · have hp := hbounds p hp
              omega

theorem inOrder_occurrences (line : List Char) :
    InOrder line.length (occurrences found none 0 0 line) := by
  obtain ⟨hapart, hbounds⟩ := occurrences_inOrder h none 0 0 line
  refine ⟨hapart, fun p hp => ?_⟩
  have hp := hbounds p hp
  omega

end Occurrences

theorem length_word_le (cs : List Char) : (word cs).length ≤ cs.length :=
  (List.takeWhile_sublist _).length_le

theorem keywordAt_le (before : Option Char) (cs : List Char) (n : Nat)
    (h : keywordAt before cs = some n) : n ≤ cs.length := by
  unfold keywordAt at h
  split at h
  · next cs =>
    have hle := length_word_le cs
    split at h
    · cases h
    · obtain rfl := Option.some.inj h
      rw [List.length_cons]
      omega
  · split at h
    · obtain rfl := Option.some.inj h
      exact length_word_le _
    · cases h

theorem typeNameAt_le (before : Option Char) (cs : List Char) (n : Nat)
    (h : typeNameAt before cs = some n) : n ≤ cs.length := by
  cases cs with
  | nil => cases h
  | cons c cs =>
    have hle := length_word_le cs
    simp only [typeNameAt] at h
    split at h
    · obtain rfl := Option.some.inj h
      rw [List.length_cons]
      omega
    · cases h

theorem sound_standard : Finder.standard.Sound := fun line =>
  ⟨inOrder_occurrences keywordAt_le line, inOrder_occurrences typeNameAt_le line⟩

/-! ### Collecting spans -/

/-- Spans on a line of the given length: none is empty, and no two share a position. -/
structure Separate (length : Nat) (spans : List Span) : Prop where
  apart : spans.Pairwise fun a b => a.overlaps b = false
  bounds : ∀ s ∈ spans, s.start < s.stop ∧ s.stop ≤ length

theorem overlaps_comm (a b : Span) : a.overlaps b = b.overlaps a := by
  simp only [Span.overlaps, Bool.and_comm]

theorem Separate.addSpan {length : Nat} {spans : List Span} {s : Span} (h : Separate length spans)
    (hs : s.start < s.stop ∧ s.stop ≤ length) : Separate length (addSpan spans s) := by
  unfold Highlight.addSpan
  split
  · exact h
  · next hany =>
    have hnone : ∀ t ∈ spans, s.overlaps t = false := by simpa using hany
    constructor
    · refine List.pairwise_append.mpr ⟨h.apart, List.pairwise_singleton _ _, fun a ha b hb => ?_⟩
      obtain rfl := List.mem_singleton.mp hb
      rw [overlaps_comm]
      exact hnone a ha
    · intro t ht
      rcases List.mem_append.mp ht with ht | ht
      · exact h.bounds t ht
      · obtain rfl := List.mem_singleton.mp ht
        exact hs

theorem Separate.foldl {length : Nat} {spans ts : List Span} (h : Separate length spans)
    (hts : ∀ t ∈ ts, t.start < t.stop ∧ t.stop ≤ length) :
    Separate length (ts.foldl Highlight.addSpan spans) := by
  induction ts generalizing spans with
  | nil => exact h
  | cons t ts ih =>
    exact ih (h.addSpan (hts t List.mem_cons_self)) fun u hu => hts u (List.mem_cons_of_mem _ hu)

theorem separate_collect {f : Finder} (hf : f.Sound) (line : List Char) :
    Separate line.length (f.collect line) := by
  obtain ⟨hwords, htypes⟩ := hf line
  refine Separate.foldl ⟨?_, ?_⟩ ?_
  · refine List.pairwise_map.mpr (hwords.apart.imp fun {a b} hab => ?_)
    simp only [Span.overlaps, Bool.and_eq_false_iff, decide_eq_false_iff_not]
    omega
  · intro s hs
    obtain ⟨p, hp, rfl⟩ := List.mem_map.mp hs
    exact hwords.bounds p hp
  · intro s hs
    obtain ⟨p, hp, rfl⟩ := List.mem_map.mp hs
    exact htypes.bounds p hp

/-! ### Cutting a line -/

/-- From a position on, each span starts where the one before it has stopped or later, and stops
on the line. -/
def Fits (length position : Nat) : List Span → Prop
  | [] => position ≤ length
  | s :: ss => position ≤ s.start ∧ s.start ≤ s.stop ∧ s.stop ≤ length ∧ Fits length s.stop ss

theorem fits_of_apart {length : Nat} {spans : List Span}
    (hapart : spans.Pairwise fun a b => a.stop ≤ b.start)
    (hbounds : ∀ s ∈ spans, s.start < s.stop ∧ s.stop ≤ length) {position : Nat}
    (hposition : position ≤ length) (hstart : ∀ s ∈ spans, position ≤ s.start) :
    Fits length position spans := by
  induction spans generalizing position with
  | nil => exact hposition
  | cons s ss ih =>
    obtain ⟨hs, hss⟩ := List.pairwise_cons.mp hapart
    obtain ⟨hlt, hle⟩ := hbounds s List.mem_cons_self
    exact ⟨hstart s List.mem_cons_self, Nat.le_of_lt hlt, hle,
      ih hss (fun t ht => hbounds t (List.mem_cons_of_mem _ ht)) hle hs⟩

theorem fits_spans {f : Finder} (hf : f.Sound) (line : List Char) :
    Fits line.length 0 (f.spans line) := by
  have hseparate := separate_collect hf line
  have hperm := List.mergeSort_perm (f.collect line) fun a b => decide (a.start ≤ b.start)
  have hbounds : ∀ s ∈ f.spans line, s.start < s.stop ∧ s.stop ≤ line.length :=
    fun s hs => hseparate.bounds s (hperm.mem_iff.mp hs)
  have hsorted : (f.spans line).Pairwise fun a b => decide (a.start ≤ b.start) = true :=
    List.pairwise_mergeSort (fun a b c => by simp only [decide_eq_true_eq]; omega)
      (fun a b => by simp only [Bool.or_eq_true, decide_eq_true_eq]; omega) _
  have hapart : (f.spans line).Pairwise fun a b => a.overlaps b = false :=
    hseparate.apart.perm hperm.symm fun {a b} hab => by rw [overlaps_comm]; exact hab
  refine fits_of_apart ?_ hbounds (Nat.zero_le _) fun _ _ => Nat.zero_le _
  refine (hsorted.and hapart).imp_of_mem fun {a b} _ hb hab => ?_
  have hb := hbounds b hb
  simp only [Span.overlaps, decide_eq_true_eq, Bool.and_eq_false_iff,
    decide_eq_false_iff_not] at hab
  omega

theorem toList_renderAll (ss : List Segment) :
    (Segment.renderAll false ss).toList = ss.flatMap (·.text.toList) := by
  rw [Segment.renderAll, String.toList_join, List.flatMap_map]
  simp only [Segment.render_false]

theorem slice_append_drop {line : List Char} {start stop : Nat} (h : start ≤ stop) :
    slice line start stop ++ line.drop stop = line.drop start := by
  have hdrop : line.drop stop = (line.drop start).drop (stop - start) := by
    rw [List.drop_drop, Nat.add_sub_cancel' h]
  rw [slice, hdrop, List.take_append_drop]

theorem flatMap_cut {line : List Char} {position : Nat} {spans : List Span}
    (h : Fits line.length position spans) :
    (cut line position spans).flatMap (·.text.toList) = line.drop position := by
  induction spans generalizing position with
  | nil => simp [cut]
  | cons s ss ih =>
    obtain ⟨hstart, hstop, -, hrest⟩ := h
    simp only [cut, List.flatMap_cons, String.toList_ofList, ih hrest]
    rw [slice_append_drop hstop, slice_append_drop hstart]

theorem renderAll_source {f : Finder} (hf : f.Sound) (text : String) :
    Segment.renderAll false (f.source text) = text := by
  have hline : ∀ line, (f.lineSegments line).flatMap (·.text.toList) = line := by
    intro line
    unfold Finder.lineSegments
    split
    · simp
    · exact flatMap_cut (fits_spans hf line)
  refine String.toList_inj.mp ?_
  rw [toList_renderAll, Finder.source, List.flatMap_assoc]
  simp only [hline]
  rw [List.flatMap_id', flatten_linesWithEnds]

/-- A text that is shown with colours is the same text without them. Wherever the words of a line
are found one behind the other, the spans that are collected share no position, and the sorted
spans fit on the line one behind the other. -/
theorem colours_keep_text :
    (∀ (d : Session.Display) (swift : String),
      Segment.renderAll false ({ d with colours := true }.source swift) =
        Segment.renderAll false ({ d with colours := false }.source swift)) ∧
    Finder.standard.Sound ∧
    ∀ f : Finder, f.Sound →
      (∀ text, Segment.renderAll false (f.source text) = text) ∧
      ∀ line : List Char,
        (f.collect line).Pairwise (fun a b => a.stop ≤ b.start ∨ b.stop ≤ a.start) ∧
        Fits line.length 0 (f.spans line) := by
  refine ⟨fun d swift => ?_, sound_standard, fun f hf =>
    ⟨renderAll_source hf, fun line => ⟨?_, fits_spans hf line⟩⟩⟩
  · have hplain : Segment.renderAll false [{ text := swift }] = swift := by
      simp [Segment.renderAll]
    exact (renderAll_source sound_standard swift).trans hplain.symm
  · refine (separate_collect hf line).apart.imp fun {a b} hab => ?_
    simp only [Span.overlaps, Bool.and_eq_false_iff, decide_eq_false_iff_not] at hab
    omega

/-- A line on which a type name stands inside an attribute. -/
theorem colours_keep_text_attribute :
    Finder.standard.Sound ∧
    Segment.renderAll false (Finder.standard.source "@UIMain class View: UIView\n") =
      "@UIMain class View: UIView\n" ∧
    Fits 27 0 (Finder.standard.spans "@UIMain class View: UIView\n".toList) := by
  obtain ⟨hsource, hline⟩ := colours_keep_text.2.2 Finder.standard sound_standard
  exact ⟨sound_standard, hsource _, (hline "@UIMain class View: UIView\n".toList).2⟩

end HeaderBridge.Highlight
