import HeaderBridge.Pattern.CharSet

/-! # Patterns

A pattern is a regular expression that is searched for anywhere in a text. While
a text is read, each character set in the pattern carries a mark that says
whether a match may have just read a character there. One more character moves
all marks at once, so a search takes time in proportion to the text and to the
pattern.
-/

namespace HeaderBridge

inductive Pattern where
  | empty
  | one (set : CharSet)
  | textStart
  | textEnd
  | seq (first second : Pattern)
  | alt (first second : Pattern)
  | star (body : Pattern)
  deriving DecidableEq

/-- Regular expressions with marks. -/
inductive MarkedPattern where
  | empty
  | one (set : CharSet) (mark : Bool)
  | textStart
  | textEnd
  | seq (first second : MarkedPattern)
  | alt (first second : MarkedPattern)
  | star (body : MarkedPattern)

namespace Pattern

def copies (p : Pattern) : Nat → Pattern
  | 0 => empty
  | n + 1 => seq p (copies p n)

def upTo (p : Pattern) : Nat → Pattern
  | 0 => empty
  | n + 1 => alt empty (seq p (upTo p n))

def repeated (p : Pattern) (least : Nat) : Option Nat → Pattern
  | none => seq (copies p least) (star p)
  | some most => seq (copies p least) (upTo p (most - least))

def unmarked : Pattern → MarkedPattern
  | empty => .empty
  | one set => .one set false
  | textStart => .textStart
  | textEnd => .textEnd
  | seq p q => .seq p.unmarked q.unmarked
  | alt p q => .alt p.unmarked q.unmarked
  | star p => .star p.unmarked

end Pattern

/-- Which ends of the text a position is at. -/
structure Border where
  atStart : Bool
  atEnd : Bool

namespace MarkedPattern

def matchesEmpty (b : Border) : MarkedPattern → Bool
  | empty => true
  | one _ _ => false
  | textStart => b.atStart
  | textEnd => b.atEnd
  | seq p q => p.matchesEmpty b && q.matchesEmpty b
  | alt p q => p.matchesEmpty b || q.matchesEmpty b
  | star _ => true

def ends (b : Border) : MarkedPattern → Bool
  | empty => false
  | one _ mark => mark
  | textStart => false
  | textEnd => false
  | seq p q => (p.ends b && q.matchesEmpty b) || q.ends b
  | alt p q => p.ends b || q.ends b
  | star p => p.ends b

/-- A pattern after one more character, with what `matchesEmpty` and `ends` say
before it. -/
structure Shift where
  after : MarkedPattern
  matchesEmpty : Bool
  ends : Bool

/-- Move all marks over a character. A match may start here if `start` says so. -/
def shift (b : Border) (c : Char) (start : Bool) : MarkedPattern → Shift
  | empty => ⟨empty, true, false⟩
  | one set mark => ⟨one set (start && set.contains c), false, mark⟩
  | textStart => ⟨textStart, b.atStart, false⟩
  | textEnd => ⟨textEnd, b.atEnd, false⟩
  | seq p q =>
    let p := p.shift b c start
    let q := q.shift b c ((start && p.matchesEmpty) || p.ends)
    ⟨seq p.after q.after, p.matchesEmpty && q.matchesEmpty, (p.ends && q.matchesEmpty) || q.ends⟩
  | alt p q =>
    let p := p.shift b c start
    let q := q.shift b c start
    ⟨alt p.after q.after, p.matchesEmpty || q.matchesEmpty, p.ends || q.ends⟩
  | star p =>
    let p := p.shift b c (start || p.ends b)
    ⟨star p.after, true, p.ends⟩

/-- Whether a match ends in a text or before it; others may start anywhere in it. -/
def occursIn (p : MarkedPattern) (atStart : Bool) : List Char → Bool
  | [] => p.matchesEmpty ⟨atStart, true⟩ || p.ends ⟨atStart, true⟩
  | c :: cs =>
    let s := p.shift ⟨atStart, false⟩ c true
    s.matchesEmpty || s.ends || s.after.occursIn false cs

end MarkedPattern

def Pattern.occursIn (p : Pattern) (s : String) : Bool := p.unmarked.occursIn true s.toList

end HeaderBridge
