import HeaderBridge.Text.CaseFolding
import HeaderBridge.Text.Digit
import HeaderBridge.Text.Word

/-! # Sets of characters

A set of characters is kept as the runs of code points that belong to it, in
ascending order and with gaps in between. A run may pass over code points that
are no characters.
-/

namespace HeaderBridge

/-- A run of code points; both ends belong to it. -/
structure Run where
  first : Nat
  last : Nat
  deriving DecidableEq

namespace Run

def single (n : Nat) : Run := ⟨n, n⟩

def contains (r : Run) (n : Nat) : Bool := r.first ≤ n && n ≤ r.last

/-- Some runs with one more that does not start before any of them, the last run
first. A run that touches the last one makes it longer. -/
def add (r : Run) : List Run → List Run
  | [] => [r]
  | s :: rs => if r.first ≤ s.last + 1 then ⟨s.first, max s.last r.last⟩ :: rs else r :: s :: rs

end Run

structure CharSet where
  runs : List Run
  deriving DecidableEq

namespace CharSet

def maxCode : Nat := 0x10FFFF

def ofRuns (runs : List Run) : CharSet :=
  ⟨((runs.mergeSort fun r s => r.first ≤ s.first).foldl (fun rs r => r.add rs) []).reverse⟩

def hasCode (s : CharSet) (n : Nat) : Bool := s.runs.any (·.contains n)

def contains (s : CharSet) (c : Char) : Bool := s.hasCode c.toNat

def empty : CharSet := ⟨[]⟩

def interval (low high : Char) : CharSet := ⟨[⟨low.toNat, high.toNat⟩]⟩

def single (c : Char) : CharSet := interval c c

def digit : CharSet := ofRuns (Text.zeros.map fun z => ⟨z, z + 9⟩)

/-- Characters with the property White_Space. -/
def blank : CharSet :=
  ⟨[⟨0x09, 0x0D⟩, .single 0x20, .single 0x85, .single 0xA0, .single 0x1680, ⟨0x2000, 0x200A⟩,
    ⟨0x2028, 0x2029⟩, .single 0x202F, .single 0x205F, .single 0x3000]⟩

/-- The runs that start and stop, in turn, at some bounds. -/
def between : List Nat → List Run
  | first :: stop :: bounds => ⟨first, stop - 1⟩ :: between bounds
  | _ => []

/-- Characters of words, in all scripts. -/
def word : CharSet := ⟨between Text.wordBounds⟩

/-! ### Operations -/

def union (a b : CharSet) : CharSet := ofRuns (a.runs ++ b.runs)

/-- What some runs leave out from a code point on. -/
def gaps (start : Nat) : List Run → List Run
  | [] => if start ≤ maxCode then [⟨start, maxCode⟩] else []
  | r :: rs => (if start < r.first then [⟨start, r.first - 1⟩] else []) ++ gaps (r.last + 1) rs

def complement (s : CharSet) : CharSet := ⟨gaps 0 s.runs⟩

def intersection (a b : CharSet) : CharSet := (a.complement.union b.complement).complement

def difference (a b : CharSet) : CharSet := a.intersection b.complement

def symmetricDifference (a b : CharSet) : CharSet :=
  (a.union b).difference (a.intersection b)

def withFoldings (s : CharSet) : CharSet :=
  ofRuns (s.runs ++ (Text.foldings.filter fun (c, _) => s.hasCode c).map fun (_, f) => .single f)

/-- The set with the characters whose foldings it has. -/
def withFolded (s : CharSet) : CharSet :=
  ofRuns (s.runs ++ (Text.foldings.filter fun (_, f) => s.hasCode f).map fun (c, _) => .single c)

def ignoringCase (s : CharSet) : CharSet := s.withFoldings.withFolded

end CharSet

end HeaderBridge
