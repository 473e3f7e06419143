import HeaderBridge.Declaration.OfOutline
import HeaderBridge.Proofs.Outline.Sketch
import Mathlib.Data.List.Forall2

/-! # Looking things up in an outline

What is found below a node of an outline depends only on the tree that the node
holds.
-/

namespace HeaderBridge.Outline

open Grammar

def Kind.type? : Kind → Option DeclaredType
  | typeName t => some t
  | _ => none

@[simp] theorem Kind.type?_typeName (t : DeclaredType) : (typeName t).type? = some t := rfl

namespace Sketch

def partsWith (s : Sketch) (tag : Tag) : List Sketch := s.parts.filter (·.kind.tag = tag)

def part? (s : Sketch) (tag : Tag) : Option Sketch := (s.partsWith tag).head?

def textsWith (s : Sketch) (tag : Tag) : List String :=
  (s.partsWith tag).filterMap fun part => part.kind.text?

def carriedType? (s : Sketch) : Option DeclaredType := s.kind.type?

def carriedModifier? (s : Sketch) : Option Modifier :=
  match s.kind with
  | .modifier m => some m
  | _ => none

variable {o : Outline} {s : Sketch} {ss : List Sketch} {id : Nat} {ids : List Nat}

theorem standAt_iff : StandAt o ss ids ↔ List.Forall₂ (fun id s => StandsAt o s id) ids ss := by
  induction ss generalizing ids with
  | nil => simp [StandAt]
  | cons s ss ih =>
    constructor
    · rintro ⟨id, rest, rfl, hs, hrest⟩
      exact .cons hs (ih.mp hrest)
    · intro h
      cases h with
      | cons hs hrest => exact ⟨_, _, rfl, hs, ih.mpr hrest⟩

theorem standAt_append {ts : List Sketch} : StandAt o (ss ++ ts) ids ↔
    ∃ is js, ids = is ++ js ∧ StandAt o ss is ∧ StandAt o ts js := by
  induction ss generalizing ids with
  | nil => simp [StandAt]
  | cons s ss ih =>
    constructor
    · rintro ⟨id, rest, rfl, hs, hrest⟩
      obtain ⟨is, js, rfl, his, hjs⟩ := ih.mp hrest
      exact ⟨id :: is, js, rfl, ⟨id, is, rfl, hs, his⟩, hjs⟩
    · rintro ⟨_, js, rfl, ⟨id, is, rfl, hs, his⟩, hjs⟩
      exact ⟨id, is ++ js, rfl, hs, ih.mpr ⟨is, js, rfl, his, hjs⟩⟩

/-- A fold over the nodes of an outline follows the parse nodes that their trees come
from, if it does so for the trees of each parse node. -/
theorem foldl_eq {σ τ : Type} {f : σ → Nat → σ} {g : τ → Node → τ} {q : σ → τ}
    {sk : Node → List Sketch} {ns : List Node}
    (h : ∀ n ∈ ns, ∀ x ids, StandAt o (sk n) ids → q (ids.foldl f x) = g (q x) n)
    (hids : StandAt o (ns.flatMap sk) ids) (x : σ) : q (ids.foldl f x) = ns.foldl g (q x) := by
  induction ns generalizing ids x with
  | nil =>
    obtain rfl : ids = [] := hids
    rfl
  | cons n ns ih =>
    rw [List.flatMap_cons, standAt_append] at hids
    obtain ⟨is, js, rfl, his, hjs⟩ := hids
    rw [List.foldl_append, List.foldl_cons, ← h n List.mem_cons_self x is his]
    exact ih (fun m hm => h m (List.mem_cons_of_mem _ hm)) hjs _

theorem foldl_fixed {σ : Type} {f : σ → Nat → σ} {ss : List Sketch} (h : StandAt o ss ids)
    (hf : ∀ s ∈ ss, ∀ x id, StandsAt o s id → f x id = x) (x : σ) : ids.foldl f x = x := by
  induction ss generalizing ids with
  | nil =>
    obtain rfl : ids = [] := h
    rfl
  | cons s ss ih =>
    obtain ⟨i, rest, rfl, hi, hrest⟩ := h
    rw [List.foldl_cons, hf s List.mem_cons_self x i hi]
    exact ih hrest fun q hq => hf q (List.mem_cons_of_mem _ hq)

theorem StandsAt.kindOf? (h : StandsAt o s id) : o.kindOf? id = some s.kind := by
  obtain ⟨kind, span, parts⟩ := s
  obtain ⟨e, he, rfl, -⟩ := h
  rw [Outline.kindOf?, he]
  rfl

theorem StandsAt.childrenOf (h : StandsAt o s id) :
    List.Forall₂ (fun id s => StandsAt o s id) (o.childrenOf id) s.parts := by
  obtain ⟨kind, span, parts⟩ := s
  obtain ⟨e, he, -, -, hparts⟩ := h
  rw [Outline.childrenOf, he]
  exact standAt_iff.mp hparts

theorem StandsAt.childrenWith (h : StandsAt o s id) (tag : Tag) :
    List.Forall₂ (fun id s => StandsAt o s id) (o.childrenWith id tag) (s.partsWith tag) := by
  refine List.rel_filter (fun i part hpart => ?_) h.childrenOf
  simp [hasTag, hpart.kindOf?]

theorem childWith?_eq_head? (o : Outline) (id : Nat) (tag : Tag) :
    o.childWith? id tag = (o.childrenWith id tag).head? := by
  rw [Outline.childWith?, Outline.childrenWith, List.head?_filter]

theorem StandsAt.childWith? (h : StandsAt o s id) (tag : Tag) :
    (o.childWith? id tag = none ∧ s.part? tag = none) ∨
      ∃ i part, o.childWith? id tag = some i ∧ s.part? tag = some part ∧ StandsAt o part i := by
  rw [childWith?_eq_head?, part?]
  have hwith := h.childrenWith tag
  generalize o.childrenWith id tag = ids at hwith
  generalize s.partsWith tag = ss at hwith
  cases hwith with
  | nil => exact .inl ⟨rfl, rfl⟩
  | cons hpart _ => exact .inr ⟨_, _, rfl, rfl, hpart⟩

theorem filterMap_eq {α : Type} {f : Nat → Option α} {g : Sketch → Option α}
    (h : List.Forall₂ (fun id s => StandsAt o s id) ids ss)
    (hfg : ∀ id s, StandsAt o s id → f id = g s) : ids.filterMap f = ss.filterMap g := by
  induction h with
  | nil => rfl
  | cons hs _ ih => rw [List.filterMap_cons, List.filterMap_cons, hfg _ _ hs, ih]

theorem StandsAt.textOf? (h : StandsAt o s id) : o.textOf? id = s.kind.text? := by
  rw [Outline.textOf?, h.kindOf?]
  rfl

theorem textsWith_eq {tag : Tag} (h : StandsAt o s id) :
    (o.childrenWith id tag).filterMap o.textOf? = s.textsWith tag :=
  filterMap_eq (h.childrenWith tag) fun _ _ hpart => hpart.textOf?

theorem StandsAt.typeIn? (h : StandsAt o s id) :
    o.typeIn? id = (s.part? .typeName).bind carriedType? := by
  unfold Outline.typeIn?
  rcases h.childWith? .typeName with ⟨hnone, hpart⟩ | ⟨i, part, hsome, hpart, hi⟩
  · rw [hnone, hpart]
    rfl
  · rw [hsome, hpart, Option.bind_some, hi.kindOf?, Option.bind_some, carriedType?]
    cases part.kind <;> rfl

theorem StandsAt.identifierIn? (h : StandsAt o s id) :
    o.identifierIn? id = (s.part? .identifier).bind fun part => part.kind.text? := by
  unfold Outline.identifierIn?
  rcases h.childWith? .identifier with ⟨hnone, hpart⟩ | ⟨i, part, hsome, hpart, hi⟩
  · rw [hnone, hpart]
    rfl
  · rw [hsome, hpart, Option.bind_some, hi.textOf?]
    rfl

theorem StandsAt.nullabilityIn? (h : StandsAt o s id) :
    o.nullabilityIn? id = (s.textsWith .nullability).findSome? Nullability.ofSpelling? := by
  rw [Outline.nullabilityIn?, textsWith_eq h]

theorem StandsAt.modifiersIn (h : StandsAt o s id) :
    o.modifiersIn id = ((s.part? .modifierList).map fun list =>
      (list.partsWith .modifier).filterMap carriedModifier?).getD [] := by
  unfold Outline.modifiersIn
  rcases h.childWith? .modifierList with ⟨hnone, hpart⟩ | ⟨i, list, hsome, hpart, hi⟩
  · rw [hnone, hpart]
    rfl
  · rw [hsome, hpart, Option.map_some, Option.getD_some]
    refine filterMap_eq (hi.childrenWith .modifier) fun j part hj => ?_
    rw [hj.kindOf?, carriedModifier?]
    cases part.kind <;> rfl

end Sketch

theorem standAt_root (ss : List Sketch) :
    Sketch.StandAt (Outline.empty.plantAll root ss) ss
    ((Outline.empty.plantAll root ss).childrenOf root) := by
  have htop : root < Outline.empty.size := by decide
  obtain ⟨-, -, ids, hids, -, hstand⟩ := planted_plantAll htop ss
  rw [childrenOf, hids]
  exact hstand _ fun _ _ _ => rfl

end HeaderBridge.Outline
