import HeaderBridge.Pattern.CharSet
import HeaderBridge.Text.Utf8

/-! # The size of patterns

A pattern stands for an automaton that reads the bytes of a text. The memory that
its states take is known from the parts of the pattern, and a pattern that needs
too much of it is refused.
-/

namespace HeaderBridge.Footprint

/-- The most bytes that a pattern may take. -/
def limit : Nat := 10 * 1024 * 1024

def state : Nat := 32

def reference : Nat := 4

def transition : Nat := 8

/-- The length of what two lists start with in common. -/
def commonLength {α : Type} [DecidableEq α] : List α → List α → Nat
  | a :: as, b :: bs => if a = b then commonLength as bs + 1 else 0
  | _, _ => 0

/-- The number of different beginnings of some sequences in ascending order; the
empty one does not count. -/
def beginnings {α : Type} [DecidableEq α] (previous : List α) : List (List α) → Nat
  | [] => 0
  | s :: ss => s.length - commonLength previous s + beginnings s ss

/-- The bytes for a set of characters. ASCII characters are told apart in one
state, others by a tree of their encodings. -/
def ofSet (s : CharSet) : Nat :=
  match s.runs with
  | [] => state
  | [r] => if r.first = r.last then state * (Text.utf8 r.first).length else ofRuns [r]
  | runs => ofRuns runs
where
  /-- The bytes for several characters. -/
  ofRuns (runs : List Run) : Nat :=
    if runs.all (·.last < 0x80) then 2 * state + transition * runs.length
    else
      let encodings := runs.flatMap fun r => Text.byteRuns 64 r.first r.last
      (2 + beginnings [] encodings) * state + reference * encodings.length

def ofChoice (parts : List Nat) : Nat :=
  parts.foldl (· + ·) 0 + 2 * state + reference * parts.length

def ofRepetition (part least : Nat) : Option Nat → Nat
  | none => max least 1 * part + state + 2 * reference
  | some most => least * part + (most - least) * (part + state + 2 * reference) + state

end HeaderBridge.Footprint
