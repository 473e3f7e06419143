import HeaderBridge.Proofs.SwiftType.Levels

/-! # Legible types

A type is legible if its text says all there is to it: no nullability is left open,
no argument is left out, and every name is made of characters that nothing else in
the text is made of.
-/

namespace HeaderBridge

/-! ### Legible types -/

namespace SwiftType

/-- The characters of names: all but those that the rest of a text is written with. -/
def isNameChar (c : Char) : Bool := c ∉ " ,.:<>[]()?!&@-".toList

/-- The names that are told apart from the rest of a text. `Void` and `Type` read as parts of it. -/
def isName (n : String) : Bool :=
  n ≠ "" && n.toList.all isNameChar && n ≠ "Void" && n ≠ "Type"

end SwiftType

open SwiftType in
mutual

def Nominal.isLegible : Nominal → Bool
  | .plain n => isName n
  | .generic n ts => isName n && !ts.isEmpty && !isErased n ts.length && SwiftType.allLegible ts

def Nominal.allLegible : List Nominal → Bool
  | [] => true
  | n :: ns => n.isLegible && Nominal.allLegible ns

def Component.isLegible : Component → Bool
  | .nominal t => t.isLegible
  | .nested a b rest => a.isLegible && b.isLegible && Nominal.allLegible rest

def Component.allLegible : List Component → Bool
  | [] => true
  | c :: cs => c.isLegible && Component.allLegible cs

/-- Whether a type can be told from its text: nullability is not left open, nothing is left out,
tuples and compositions have two parts at least, and all names are told apart. -/
def SwiftType.isLegible : SwiftType → Bool
  | .nominal t => t.isLegible
  | .nested a b rest => a.isLegible && b.isLegible && Nominal.allLegible rest
  | .optional t | .implicitlyUnwrapped t | .metatype t => t.isLegible
  | .unspecified _ => false
  | .void => true
  | .tuple ts => 2 ≤ ts.length && SwiftType.allLegible ts
  | .block r ps _ => r.isLegible && SwiftType.allLegible ps
  | .composition cs => 2 ≤ cs.length && Component.allLegible cs

def SwiftType.allLegible : List SwiftType → Bool
  | [] => true
  | t :: ts => t.isLegible && SwiftType.allLegible ts

end

theorem SwiftType.allLegible_iff {ts : List SwiftType} :
    allLegible ts = true ↔ ∀ t ∈ ts, t.isLegible = true := by
  induction ts with
  | nil => simp [allLegible]
  | cons t ts ih => simp [allLegible, ih]

theorem Nominal.allLegible_iff {ns : List Nominal} :
    allLegible ns = true ↔ ∀ n ∈ ns, n.isLegible = true := by
  induction ns with
  | nil => simp [allLegible]
  | cons n ns ih => simp [allLegible, ih]

theorem Component.allLegible_iff {cs : List Component} :
    allLegible cs = true ↔ ∀ c ∈ cs, c.isLegible = true := by
  induction cs with
  | nil => simp [allLegible]
  | cons c cs ih => simp [allLegible, ih]

end HeaderBridge
