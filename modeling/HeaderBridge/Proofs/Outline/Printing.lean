import HeaderBridge.Proofs.Outline.Forest
import HeaderBridge.Proofs.Outline.Wording
import HeaderBridge.Proofs.Text.Plain

/-! # Outlines as text

The printed outline of a header has one line for each node, in pre-order. Each line
is indented by the depth of its node, and what it shows of the node does not run on
into another line.
-/

namespace HeaderBridge

namespace Outline

open Grammar Declaration

/-! ### Lines -/

/-- The line of a node shows its tag and then what it carries, which prints if the node is
worded. -/
theorem Kind.exists_describe (k : Kind) : ∃ detail, k.describe = k.tag.name ++ detail ∧
    (k.Worded → Text.prints detail = true) := by
  have hquote (s : String) : Text.prints (" " ++ Text.quote s) = true := by
    rw [Text.prints_append, Text.prints_quote]
    decide
  have hident (s : String) (h : IsIdent s.toList) : Text.prints s = true :=
    Text.prints_of_isPlain (Text.isPlain_of_isIdentChar h.chars)
  cases k with
  | classInterface slot | categoryInterface slot | protocolDeclaration slot =>
    cases slot with
    | valid name => exact ⟨" " ++ Text.quote name, String.append_assoc, fun _ => hquote name⟩
    | invalid reason =>
      refine ⟨" <" ++ reason ++ ">", ?_, fun h => ?_⟩
      · rw [← String.append_assoc, ← String.append_assoc]
        rfl
      · obtain ⟨name, heq, -⟩ := h
        cases heq
  | method isClassMethod =>
    exact ⟨if isClassMethod then " +" else " -", rfl, fun _ => by cases isClassMethod <;> decide⟩
  | modifier m =>
    cases m with
    | keyword w =>
      refine ⟨" " ++ w, String.append_assoc, fun h => ?_⟩
      rw [Text.prints_append, hident w h]
      decide
    | getter n =>
      refine ⟨" getter=" ++ n, String.append_assoc, fun h => ?_⟩
      rw [Text.prints_append, hident n h]
      decide
    | setter n =>
      refine ⟨" setter=" ++ n ++ ":", ?_, fun h => ?_⟩
      · rw [← String.append_assoc, ← String.append_assoc]
        rfl
      · rw [Text.prints_append, Text.prints_append, hident n h]
        decide
  | keyword w => exact ⟨" " ++ w.spelling, String.append_assoc, fun _ => by cases w <;> decide⟩
  | typeName t => exact ⟨" " ++ Text.quote t.spelling, String.append_assoc, fun _ => hquote _⟩
  | protocolName s | superclassName s | categoryName s | identifier s | nullability s =>
    exact ⟨" " ++ Text.quote s, String.append_assoc, fun _ => hquote s⟩
  | _ => exact ⟨"", String.append_empty.symm, fun _ => rfl⟩

theorem Kind.head?_describe (k : Kind) : k.describe.toList.head? ≠ some ' ' := by
  have hall : ∀ t ∈ Tag.all, t.name.toList.head?.any (· ≠ ' ') = true := by decide
  obtain ⟨detail, hdetail, -⟩ := k.exists_describe
  have hname := hall _ (Tag.mem_all k.tag)
  rw [hdetail, String.toList_append, List.head?_append]
  cases hhead : k.tag.name.toList.head? with
  | none => simp [hhead] at hname
  | some c => simpa [hhead] using hname

theorem Kind.prints_describe {k : Kind} (h : k.Worded) : Text.prints k.describe = true := by
  have hall : ∀ t ∈ Tag.all, Text.prints t.name = true := by decide
  obtain ⟨detail, hdetail, hprints⟩ := k.exists_describe
  rw [hdetail, Text.prints_append, hall _ (Tag.mem_all k.tag), hprints h]
  rfl

def lineAt (o : Outline) (i : Nat) : String :=
  String.ofList (List.replicate (2 * o.depth i) ' ') ++ ((o.kindOf? i).map Kind.describe).getD ""

theorem lines_cons {o : Outline} {i level : Nat} (h : Climbs o i level) (n : Nat)
    (rest : List (Nat × Nat)) : o.lines (n + 1) ((i, level) :: rest) =
      o.lineAt i :: o.lines n ((o.childrenOf i).map (·, level + 1) ++ rest) := by
  rw [lines, lineAt, h.depth_eq]
  cases o.kindOf? i <;> rfl

/-! ### Pre-order -/

/-- The trees at the given nodes have the nodes of a list in pre-order: each node comes before the
nodes below it, and what is below it before the next tree. -/
inductive Enumerates (o : Outline) : List Nat → List Nat → Prop where
  | nil : Enumerates o [] []
  | cons {i : Nat} {is js ks : List Nat} : Enumerates o (o.childrenOf i) js → Enumerates o is ks →
      Enumerates o (i :: is) (i :: (js ++ ks))

namespace Layout

variable {o : Outline} {p a c : Nat} {is : List Nat}

theorem enumerates (h : Layout o p a is c) : Enumerates o is (List.range' a (c - a)) := by
  induction h with
  | nil p a =>
    rw [Nat.sub_self]
    exact .nil
  | cons _ hb hc ih ih' =>
    rw [range'_eq hb.le hc.le]
    exact .cons ih ih'

/-- The lines of the trees of a layout, one for each number in turn. The level that is handed down
is the depth of the nodes. -/
theorem lines_append (h : Layout o p a is c) : ∀ {level : Nat}, Climbs o p level → ∀ n rest,
    o.lines (n + (c - a)) (is.map (·, level + 1) ++ rest) =
      (List.range' a (c - a)).map o.lineAt ++ o.lines n rest := by
  induction h with
  | nil => simp
  | @cons p a b c is hp hb hc ih ih' =>
    intro level hlevel n rest
    have hclimbs : Climbs o a (level + 1) := .up hp hlevel
    have hsteps : n + (c - a) = n + (c - b) + (b - (a + 1)) + 1 := by
      have := hb.le
      have := hc.le
      omega
    rw [hsteps, List.map_cons, List.cons_append, lines_cons hclimbs, ih hclimbs, ih' hlevel,
      range'_eq hb.le hc.le, List.map_cons, List.map_append, List.cons_append, List.append_assoc]

end Layout

section Arranged

variable {o : Outline} (ha : Arranged o)
include ha

theorem Arranged.exists_layout {i : Nat} (hi : i < o.size) :
    ∃ c, c ≤ o.size ∧ Layout o i (i + 1) (o.childrenOf i) c := by
  rcases Nat.eq_zero_or_pos i with rfl | hpos
  · exact ⟨o.size, Nat.le_refl _, ha.layout⟩
  · exact ha.layout.sub i hpos hi

theorem Arranged.size_pos : 0 < o.size := ha.layout.le

theorem Arranged.enumerates_descendants (i : Nat) :
    Enumerates o (o.childrenOf i) (o.descendants i) ∧ (i :: o.descendants i).Nodup := by
  rcases Nat.lt_or_ge i o.size with hi | hi
  · obtain ⟨c, hc, hlayout⟩ := ha.exists_layout hi
    rw [hlayout.descendants_eq hc]
    refine ⟨hlayout.enumerates, List.nodup_cons.mpr ⟨fun hmem => ?_, List.nodup_range'⟩⟩
    have hle := (List.mem_range'_1.mp hmem).1
    omega
  · have hnone : o.unfold o.size [] = [] := by
      cases o.size <;> rfl
    rw [descendants, childrenOf_of_size_le hi, hnone]
    exact ⟨.nil, by simp⟩

theorem Arranged.cons_descendants_root : root :: o.descendants root = List.range o.size := by
  obtain ⟨n, hn⟩ : ∃ n, o.size = n + 1 := Nat.exists_eq_succ_of_ne_zero (Nat.ne_of_gt ha.size_pos)
  rw [ha.layout.descendants_eq (Nat.le_refl _), hn, List.range_eq_range', List.range'_succ]
  rfl

/-- A printed outline has the lines of its nodes in pre-order. -/
theorem Arranged.pretty_eq (hroot : o.parentOf root = none) :
    o.pretty = String.join ((root :: o.descendants root).map fun i => o.lineAt i ++ "\n") := by
  have hclimbs : Climbs o root 0 := .top hroot
  have hlines := ha.layout.lines_append hclimbs 0 []
  have hsize : o.size = 0 + (o.size - 1) + 1 := by
    have := ha.size_pos
    omega
  rw [pretty, ha.layout.descendants_eq (Nat.le_refl _)]
  conv_lhs => rw [hsize]
  rw [lines_cons hclimbs, hlines, lines, List.append_nil, List.map_cons, List.map_cons,
    List.map_map]
  rfl

end Arranged

/-- Three ways to read the outline of a header agree: the nodes below a node are listed in
pre-order, each once, and the printed outline has a line for every node in that order, indented by
two blanks for each link on the way up, which shows the node and does not run on into another
line. -/
theorem readings_agree {text : String} {tree : Node} (h : Header.parse text = .ok tree)
    (maxDepth : Nat) : ∃ o, Header.outlineWithin maxDepth text = .ok o ∧
      (∀ i, Enumerates o (o.childrenOf i) (o.descendants i) ∧ (i :: o.descendants i).Nodup) ∧
      (∀ i, i ∈ root :: o.descendants root ↔ i < o.size) ∧
      ∃ line : Nat → String,
        o.pretty = String.join ((root :: o.descendants root).map fun i => line i ++ "\n") ∧
        ∀ i < o.size, ∃ k, o.kindOf? i = some k ∧
          line i = String.ofList (List.replicate (2 * o.depth i) ' ') ++ k.describe ∧
          k.describe.toList.head? ≠ some ' ' ∧ ∀ c ∈ Text.lineBreaks, c ∉ k.describe.toList := by
  obtain ⟨o, houtline, ho⟩ := exists_outlineWithin h maxDepth
  have ha := arranged_of_parse h ho
  have hworded := worded_of_parse (TypeReader.respelled_writes maxDepth) h ho
  have hroot : o.parentOf root = none := by
    rw [ofTreeWith_eq _ h] at ho
    obtain rfl := Except.ok.inj ho
    obtain ⟨ids, hids⟩ := get?_root_plantAll (tree.children.flatMap
      (sketches (.respelled maxDepth) { tag := .header }))
    rw [parentOf, hids]
    rfl
  refine ⟨o, houtline, ha.enumerates_descendants, fun i => ?_, o.lineAt, ha.pretty_eq hroot, ?_⟩
  · rw [ha.cons_descendants_root, List.mem_range]
  · intro i hi
    obtain ⟨k, hk⟩ : ∃ k, o.kindOf? i = some k :=
      ⟨_, by rw [kindOf?, get?, Array.getElem?_eq_getElem hi, Option.map_some]⟩
    refine ⟨k, hk, ?_, k.head?_describe,
      Text.notMem_of_prints (Kind.prints_describe (hworded i k hk))⟩
    rw [lineAt, hk, Option.map_some, Option.getD_some]

/-- A property whose array length is written on two lines. -/
def brokenHeader : String := "@interface A\n@property (getter=on) int a[1\n+2];\n@end"

/-- The line break in the length is not one of the printed outline. -/
theorem readings_agree_brokenHeader : ∃ tree o, Header.parse brokenHeader = .ok tree ∧
    Header.outlineWithin 32 brokenHeader = .ok o ∧
    Enumerates o (o.childrenOf root) (o.descendants root) ∧
    o.pretty = "GlobalContext\n  ClassInterface \"A\"\n    PropertyDefinition\n" ++
      "      Identifier \"a\"\n      TypeName \"int[1\\n+2]\"\n" ++
      "      PropertyModifierList\n        PropertyModifier getter=on\n" := by
  have hpretty : (Header.outlineWithin 32 brokenHeader).toOption.map pretty =
      some ("GlobalContext\n  ClassInterface \"A\"\n    PropertyDefinition\n" ++
        "      Identifier \"a\"\n      TypeName \"int[1\\n+2]\"\n" ++
        "      PropertyModifierList\n        PropertyModifier getter=on\n") := by decide +kernel
  cases h : Header.parse brokenHeader with
  | error e =>
    rw [Header.outlineWithin, h] at hpretty
    cases hpretty
  | ok tree =>
    obtain ⟨o, ho, hbelow, -⟩ := readings_agree h 32
    rw [ho] at hpretty
    exact ⟨tree, o, rfl, ho, (hbelow root).1, Option.some.inj hpretty⟩

end Outline

end HeaderBridge
