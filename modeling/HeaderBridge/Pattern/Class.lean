import HeaderBridge.Pattern.CharSet

/-! # Reading character classes

A class in square brackets lists characters, runs of characters, named sets and
other classes, and may combine such lists by set operations. All operations bind
alike, and from the left.

A reader takes characters and gives what it read together with the characters
after it, or nothing if the text is ill-formed.
-/

namespace HeaderBridge.Pattern

/-! ### Escapes -/

def escapedSet? : Char → Option CharSet
  | 'd' => some .digit
  | 'D' => some CharSet.digit.complement
  | 's' => some .blank
  | 'S' => some CharSet.blank.complement
  | 'w' => some .word
  | 'W' => some CharSet.word.complement
  | _ => none

/-- The character that an escaped character stands for: a control character for
some letters, and itself for an ASCII character that is no letter or digit. -/
def escapedChar? : Char → Option Char
  | 'a' => some '\x07'
  | 'f' => some '\x0c'
  | 't' => some '\t'
  | 'n' => some '\n'
  | 'r' => some '\r'
  | 'v' => some '\x0b'
  | c => if c.toNat < 128 && !c.isAlphanum && c ≠ '<' && c ≠ '>' then some c else none

/-! ### Lists -/

/-- A set of characters as it is written, with how deep its parts are nested. -/
structure ClassPart where
  set : CharSet
  depth : Nat := 0

structure ClassList where
  sets : List CharSet := []
  depth : Nat := 0

namespace ClassList

def add (l : ClassList) (p : ClassPart) : ClassList := ⟨p.set :: l.sets, max l.depth p.depth⟩

def part (l : ClassList) : ClassPart where
  set := .ofRuns (l.sets.flatMap CharSet.runs)
  depth := if l.sets.length < 2 then l.depth else l.depth + 1

end ClassList

inductive ClassOperator where
  | intersection
  | difference
  | symmetricDifference

def ClassOperator.apply : ClassOperator → CharSet → CharSet → CharSet
  | intersection => .intersection
  | difference => .difference
  | symmetricDifference => .symmetricDifference

structure OpenClass where
  negated : Bool
  /-- What stands before the last operator. -/
  left : Option (ClassPart × ClassOperator) := none
  /-- What stands after the last operator. -/
  list : ClassList := {}

namespace OpenClass

def add (k : OpenClass) (p : ClassPart) : OpenClass := { k with list := k.list.add p }

/-- All that has been read of the class. -/
def whole (k : OpenClass) : ClassPart :=
  match k.left with
  | none => k.list.part
  | some (p, op) =>
    let q := k.list.part
    ⟨op.apply p.set q.set, max p.depth q.depth + 1⟩

def operate (k : OpenClass) (op : ClassOperator) : OpenClass :=
  { k with left := some (k.whole, op), list := {} }

/-- The class after the bracket that closes it. -/
def close (k : OpenClass) : ClassPart :=
  let p := k.whole
  ⟨if k.negated then p.set.complement else p.set, p.depth + 1⟩

/-- What may only stand at the start of a class: a caret that negates it, then
hyphens or a closing bracket that stand for themselves. -/
def start (cs : List Char) : OpenClass × List Char :=
  let (negated, cs) := match cs with
    | '^' :: cs => (true, cs)
    | cs => (false, cs)
  let hyphens := cs.takeWhile (· = '-')
  let k : OpenClass := hyphens.foldl (fun k c => k.add ⟨.single c, 0⟩) { negated }
  match hyphens, cs.drop hyphens.length with
  | [], ']' :: cs => (k.add ⟨.single ']', 0⟩, cs)
  | _, cs => (k, cs)

end OpenClass

/-! ### Items -/

def namedRuns? : String → Option (List (Char × Char))
  | "alnum" => some [('0', '9'), ('A', 'Z'), ('a', 'z')]
  | "alpha" => some [('A', 'Z'), ('a', 'z')]
  | "ascii" => some [('\x00', '\x7f')]
  | "blank" => some [('\t', '\t'), (' ', ' ')]
  | "cntrl" => some [('\x00', '\x1f'), ('\x7f', '\x7f')]
  | "digit" => some [('0', '9')]
  | "graph" => some [('!', '~')]
  | "lower" => some [('a', 'z')]
  | "print" => some [(' ', '~')]
  | "punct" => some [('!', '/'), (':', '@'), ('[', '\x60'), ('\x7b', '~')]
  | "space" => some [('\t', '\r'), (' ', ' ')]
  | "upper" => some [('A', 'Z')]
  | "word" => some [('0', '9'), ('A', 'Z'), ('_', '_'), ('a', 'z')]
  | "xdigit" => some [('0', '9'), ('A', 'F'), ('a', 'f')]
  | _ => none

/-- The set with all case variants, if case is ignored. -/
def caseIn (ignoreCase : Bool) (s : CharSet) : CharSet := if ignoreCase then s.ignoringCase else s

def namedSet (ignoreCase : Bool) : List Char → Option (CharSet × List Char)
  | ':' :: cs => do
    let (negated, cs) := match cs with
      | '^' :: cs => (true, cs)
      | cs => (false, cs)
    let name := cs.takeWhile (· ≠ ':')
    let runs ← namedRuns? (.ofList name)
    match cs.drop name.length with
    | ':' :: ']' :: rest =>
      let s := caseIn ignoreCase (.ofRuns (runs.map fun (a, b) => ⟨a.toNat, b.toNat⟩))
      return (if negated then s.complement else s, rest)
    | _ => none
  | _ => none

def classItem : List Char → Option ((Char ⊕ CharSet) × List Char)
  | [] => none
  | '\\' :: c :: cs =>
    match escapedSet? c with
    | some s => some (.inr s, cs)
    | none => (escapedChar? c).map fun d => (.inl d, cs)
  | ['\\'] => none
  | c :: cs => some (.inl c, cs)

def itemSet : Char ⊕ CharSet → CharSet
  | .inl c => .single c
  | .inr s => s

/-- An item or a run of characters. A hyphen makes no run before a closing
bracket or another hyphen. -/
def classRun (cs : List Char) : Option (CharSet × List Char) := do
  let (first, cs) ← classItem cs
  match cs with
  | '-' :: d :: rest =>
    if d = ']' || d = '-' then return (itemSet first, cs)
    else
      match first, ← classItem (d :: rest) with
      | .inl low, (.inl high, rest) =>
        if low ≤ high then return (.interval low high, rest) else none
      | _, _ => none
  | cs => return (itemSet first, cs)

/-! ### Classes -/

def classRest (ignoreCase : Bool) : Nat → OpenClass → List Char → Option (ClassPart × List Char)
  | 0, _, _ => none
  | fuel + 1, k, cs =>
    match cs with
    | [] => none
    | ']' :: cs => some (k.close, cs)
    | '&' :: '&' :: cs => classRest ignoreCase fuel (k.operate .intersection) cs
    | '-' :: '-' :: cs => classRest ignoreCase fuel (k.operate .difference) cs
    | '~' :: '~' :: cs => classRest ignoreCase fuel (k.operate .symmetricDifference) cs
    | '[' :: cs =>
      match namedSet ignoreCase cs with
      | some (s, rest) => classRest ignoreCase fuel (k.add ⟨s, 0⟩) rest
      | none => do
        let (inner, rest) := OpenClass.start cs
        let (p, rest) ← classRest ignoreCase fuel inner rest
        classRest ignoreCase fuel (k.add p) rest
    | cs => do
      let (s, rest) ← classRun cs
      classRest ignoreCase fuel (k.add ⟨caseIn ignoreCase s, 0⟩) rest

/-- A class after the bracket that opens it. -/
def readClass (ignoreCase : Bool) (cs : List Char) : Option (ClassPart × List Char) :=
  let (k, rest) := OpenClass.start cs
  classRest ignoreCase (cs.length + 1) k rest

end HeaderBridge.Pattern
