/-! # Positions in a document

A cursor holds the characters that are still to be read and counts those that
have been. Indentation is a matter of columns, so a cursor knows its own.
-/

namespace HeaderBridge.Yaml

/-! ### Characters -/

/-- The characters that a document may hold. -/
def isAllowed (c : Char) : Bool :=
  let n := c.toNat
  n = 0x09 || n = 0x0A || n = 0x0D || (0x20 ≤ n && n ≤ 0x7E) || n = 0x85
    || (0xA0 ≤ n && n ≤ 0xFFFD) || 0x10000 ≤ n

/-- The common forms of line ends as a line feed. -/
def unifyLineEnds : List Char → List Char
  | '\r' :: '\n' :: cs => '\n' :: unifyLineEnds cs
  | '\r' :: cs => '\n' :: unifyLineEnds cs
  | '\u0085' :: cs => '\n' :: unifyLineEnds cs
  | c :: cs => c :: unifyLineEnds cs
  | [] => []

def isSpace (c : Char) : Bool := c = ' ' || c = '\t'

def isBreak (c : Char) : Bool := c = '\n' || c = '\u2028' || c = '\u2029'

def isGap (c : Char) : Bool := isSpace c || isBreak c

def gapFollows (cs : List Char) : Bool := cs.head?.all isGap

def lineEnds (cs : List Char) : Bool := cs.head?.all isBreak

def isNameChar (c : Char) : Bool := c.isAlphanum || c = '_' || c = '-'

/-- The characters that open, close or part flow collections. -/
def isFlowMark (c : Char) : Bool := c ∈ [',', '[', ']', '\x7b', '\x7d']

/-! ### Cursors -/

structure Cursor where
  rest : List Char
  index : Nat := 0
  line : Nat := 0
  column : Nat := 0

namespace Cursor

def next (p : Cursor) : Cursor :=
  match p.rest with
  | [] => p
  | c :: cs =>
    if isBreak c then ⟨cs, p.index + 1, p.line + 1, 0⟩
    else ⟨cs, p.index + 1, p.line, p.column + 1⟩

def skip (p : Cursor) : Nat → Cursor
  | 0 => p
  | n + 1 => p.next.skip n

def span (p : Cursor) (test : Char → Bool) : List Char × Cursor :=
  let cs := p.rest.takeWhile test
  (cs, p.skip cs.length)

def skipWhile (p : Cursor) (test : Char → Bool) : Cursor := (p.span test).2

/-- Whether a line starts here with one of the markers of a document. -/
def isMarker (p : Cursor) : Bool :=
  p.column = 0 && (p.rest.take 3 = ['-', '-', '-'] || p.rest.take 3 = ['.', '.', '.'])
    && gapFollows (p.rest.drop 3)

/-- The position behind blanks and a comment, of which nothing else may stand on
the rest of the line, and behind the line end. -/
def skipLine? (p : Cursor) : Option Cursor :=
  let p := p.skipWhile isSpace
  let p := if p.rest.head? = some '#' then p.skipWhile (!isBreak ·) else p
  if lineEnds p.rest then some p.next else none

end Cursor

end HeaderBridge.Yaml
