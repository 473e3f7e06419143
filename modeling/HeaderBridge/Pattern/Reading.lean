import HeaderBridge.Pattern.Basic
import HeaderBridge.Pattern.Class
import HeaderBridge.Pattern.Footprint
import HeaderBridge.Text.Blank

/-! # Reading patterns

Patterns are written as regular expressions. They are read token by token while a
stack holds the groups that are open. A pattern that is nested too deep, or that
would take too much memory, is refused like one that is ill-formed.
-/

namespace HeaderBridge.Pattern

def maxDepth : Nat := 250

/-- How characters are compared, and what the dot stands for. -/
structure Modes where
  ignoreCase : Bool := false
  dotMatchesNewline : Bool := false

inductive Token where
  | one (part : ClassPart)
  | textStart
  | textEnd
  | bar
  /-- The group changes the modes for what is inside it. -/
  | openGroup (change : Modes → Modes)
  | closeGroup
  /-- The modes change up to the end of the group. -/
  | switch (change : Modes → Modes)
  | repeated (least : Nat) (most : Option Nat)

/-! ### Groups and repetitions -/

/-- A change of modes, up to the colon or the parenthesis that ends it. -/
def readFlags (on : Bool) (change : Modes → Modes) : List Char → Option (Token × List Char)
  | ')' :: cs => some (.switch change, cs)
  | ':' :: cs => some (.openGroup change, cs)
  | '-' :: cs => if on then readFlags false change cs else none
  | 'i' :: cs => readFlags on (fun m => { change m with ignoreCase := on }) cs
  | 's' :: cs => readFlags on (fun m => { change m with dotMatchesNewline := on }) cs
  | 'U' :: cs => readFlags on change cs
  | _ => none

def isGroupName (name : List Char) : Bool :=
  name.head?.any (fun c => c.isAlpha || c = '_')
    && name.all fun c => c.isAlphanum || c ∈ ['_', '.', '[', ']']

def readName (cs : List Char) : Option (Token × List Char) :=
  let name := cs.takeWhile (· ≠ '>')
  match cs.drop name.length with
  | '>' :: rest => if isGroupName name then some (.openGroup id, rest) else none
  | _ => none

def readGroup : List Char → Option (Token × List Char)
  | '?' :: 'P' :: '<' :: cs => readName cs
  | '?' :: '<' :: cs => readName cs
  | '?' :: ')' :: _ => none
  | '?' :: cs => readFlags true id cs
  | cs => some (.openGroup id, cs)

def readCount (cs : List Char) : Option Nat × List Char :=
  let cs := Text.dropBlanks cs
  let digits := cs.takeWhile Char.isDigit
  let value := digits.foldl (fun n c => 10 * n + (c.toNat - '0'.toNat)) 0
  let rest := Text.dropBlanks (cs.drop digits.length)
  (if digits.isEmpty || value ≥ UInt32.size then none else some value, rest)

/-- A repetition with counts after the brace that opens it. -/
def readCounts (cs : List Char) : Option (Token × List Char) := do
  let (least, rest) := readCount cs
  let least ← least
  match rest with
  | '\x7d' :: rest => return (.repeated least (some least), rest)
  | ',' :: '\x7d' :: rest => return (.repeated least none, rest)
  | ',' :: rest =>
    let (most, rest) := readCount rest
    let most ← most
    match rest with
    | '\x7d' :: rest => if least ≤ most then some (.repeated least (some most), rest) else none
    | _ => none
  | _ => none

/-- Passes over the mark of a reluctant repetition, which finds a match in the
same texts. -/
def skipReluctant : List Char → List Char
  | '?' :: cs => cs
  | cs => cs

def setToken (m : Modes) (s : CharSet) : Token := .one ⟨caseIn m.ignoreCase s, 0⟩

def dotSet (m : Modes) : CharSet :=
  if m.dotMatchesNewline then CharSet.empty.complement else (CharSet.single '\n').complement

def readToken (m : Modes) : List Char → Option (Token × List Char)
  | [] => none
  | '.' :: cs => some (.one ⟨dotSet m, 0⟩, cs)
  | '^' :: cs => some (.textStart, cs)
  | '$' :: cs => some (.textEnd, cs)
  | '|' :: cs => some (.bar, cs)
  | '*' :: cs => some (.repeated 0 none, skipReluctant cs)
  | '+' :: cs => some (.repeated 1 none, skipReluctant cs)
  | '?' :: cs => some (.repeated 0 (some 1), skipReluctant cs)
  | '\x7b' :: cs => (readCounts cs).map fun (t, rest) => (t, skipReluctant rest)
  | '(' :: cs => readGroup cs
  | ')' :: cs => some (.closeGroup, cs)
  | '[' :: cs => (readClass m.ignoreCase cs).map fun (p, rest) => (.one p, rest)
  | ['\\'] => none
  | '\\' :: 'A' :: cs => some (.textStart, cs)
  | '\\' :: 'z' :: cs => some (.textEnd, cs)
  | '\\' :: c :: cs =>
    match escapedSet? c with
    | some s => some (setToken m s, cs)
    | none => (escapedChar? c).map fun d => (setToken m (.single d), cs)
  | c :: cs => some (setToken m (.single c), cs)

/-! ### Structure -/

/-- A part of a pattern, with how deep its own parts are nested and the memory
that it takes. -/
structure Part where
  pattern : Pattern
  depth : Nat := 0
  bytes : Nat := 0
  /-- Whether a repetition may follow. -/
  repeats : Bool := true

namespace Part

def empty : Part := { pattern := .empty, bytes := Footprint.state }

def maxDepthOf (ps : List Part) : Nat := ps.foldl (fun d p => max d p.depth) 0

def sequence : List Part → Part
  | [] => empty
  | [p] => p
  | p :: ps =>
    { pattern := (p :: ps).reverse.foldl (fun q p => q.seq p.pattern) .empty
      depth := maxDepthOf (p :: ps) + 1
      bytes := (p :: ps).foldl (fun n p => n + p.bytes) 0 }

def choice : List Part → Part
  | [] => empty
  | [p] => p
  | p :: ps =>
    { pattern := ps.foldl (fun q p => p.pattern.alt q) p.pattern
      depth := maxDepthOf (p :: ps) + 1
      bytes := Footprint.ofChoice ((p :: ps).map Part.bytes) }

/-- A repetition of a part, if it does not take too much memory. -/
def repeat? (p : Part) (least : Nat) (most : Option Nat) : Option Part :=
  let bytes := Footprint.ofRepetition p.bytes least most
  if p.repeats && bytes ≤ Footprint.limit then
    some { pattern := p.pattern.repeated least most, depth := p.depth + 1, bytes }
  else none

end Part

structure Group where
  modes : Modes
  /-- The alternatives before the last bar, the last first. -/
  earlier : List Part := []
  /-- What stands after the last bar, the last first. -/
  parts : List Part := []

namespace Group

def add (g : Group) (p : Part) : Group := { g with parts := p :: g.parts }

def whole (g : Group) : Part := .choice (.sequence g.parts :: g.earlier)

end Group

/-- The open groups after one more token, with the innermost first. -/
def take (t : Token) (g : Group) (outer : List Group) : Option (Group × List Group) :=
  match t with
  | .one p =>
    some (g.add { pattern := .one p.set, depth := p.depth, bytes := Footprint.ofSet p.set }, outer)
  | .textStart => some (g.add { Part.empty with pattern := .textStart }, outer)
  | .textEnd => some (g.add { Part.empty with pattern := .textEnd }, outer)
  | .bar => some ({ g with earlier := .sequence g.parts :: g.earlier, parts := [] }, outer)
  | .openGroup change => some ({ modes := change g.modes }, g :: outer)
  | .closeGroup =>
    match outer with
    | [] => none
    | h :: outer =>
      let p := g.whole
      some (h.add { p with depth := p.depth + 1, repeats := true }, outer)
  | .switch change =>
    some ({ g with modes := change g.modes }.add { Part.empty with repeats := false }, outer)
  | .repeated least most =>
    match g.parts with
    | [] => none
    | p :: parts => do
      return ({ g with parts := (← p.repeat? least most) :: parts }, outer)

/-- The open groups after the rest of a text; each token takes at least one
character. -/
def readRest : Nat → List Char → Group → List Group → Option (Group × List Group)
  | _, [], g, outer => some (g, outer)
  | 0, _, _, _ => none
  | fuel + 1, cs, g, outer => do
    let (t, rest) ← readToken g.modes cs
    let (g, outer) ← take t g outer
    readRest fuel rest g outer

def read? (s : String) : Option Pattern := do
  match ← readRest s.toList.length s.toList { modes := {} } [] with
  | (g, []) =>
    let p := g.whole
    if p.depth ≤ maxDepth && p.bytes ≤ Footprint.limit then some p.pattern else none
  | _ => none

end HeaderBridge.Pattern
