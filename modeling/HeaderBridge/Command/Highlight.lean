import HeaderBridge.Command.Style
import HeaderBridge.Text.Blank
import HeaderBridge.Text.Word

/-! # Highlighting Swift source

On a line of Swift source the keywords and attributes stand in one colour and the
names of types in another; a comment line is of one colour as a whole. Positions
count the characters of a line.
-/

namespace HeaderBridge.Highlight

open Text (isWordChar)

/-- Where on a line a colour starts and stops. -/
structure Span where
  start : Nat
  stop : Nat
  colour : Colour
  deriving DecidableEq

def Span.overlaps (a b : Span) : Bool := a.start < b.stop && b.start < a.stop

def keywords : List String :=
  ["class", "extension", "protocol", "func", "init", "var", "let", "static", "weak", "unowned",
    "private", "fileprivate", "public", "open", "optional"]

def word (cs : List Char) : List Char := cs.takeWhile isWordChar

/-- The length of the keyword or attribute that starts here, after the given
character. -/
def keywordAt (before : Option Char) : List Char → Option Nat
  | '@' :: cs => if (word cs).isEmpty then none else some ((word cs).length + 1)
  | cs =>
    if !before.any isWordChar && String.ofList (word cs) ∈ keywords then some (word cs).length
    else none

def isNameChar (c : Char) : Bool := c.isAlphanum || c = '_'

/-- The length of the type name that starts here, after the given character. A word
with a character that no type name has is no type name, and neither is its start. -/
def typeNameAt (before : Option Char) : List Char → Option Nat
  | [] => none
  | c :: cs =>
    if !before.any isWordChar && c.isUpper && (word cs).all isNameChar then
      some ((word cs).length + 1)
    else none

/-- The places, one after the other, at which something is found; `skip` counts
the characters that still belong to the last of them. -/
def occurrences (found : Option Char → List Char → Option Nat) (before : Option Char)
    (position skip : Nat) : List Char → List (Nat × Nat)
  | [] => []
  | c :: cs =>
    match skip with
    | skip + 1 => occurrences found (some c) (position + 1) skip cs
    | 0 =>
      match found before (c :: cs) with
      | some (n + 1) =>
        (position, position + n + 1) :: occurrences found (some c) (position + 1) n cs
      | _ => occurrences found (some c) (position + 1) 0 cs

/-- How the words to be coloured are found on a line: where each of them starts and
where it stops. -/
structure Finder where
  /-- Keywords and attributes. -/
  keywords : List Char → List (Nat × Nat)
  typeNames : List Char → List (Nat × Nat)

/-- Words are looked for from the start of a line to its end. -/
def Finder.standard : Finder where
  keywords := occurrences keywordAt none 0 0
  typeNames := occurrences typeNameAt none 0 0

def addSpan (spans : List Span) (s : Span) : List Span :=
  if spans.any (s.overlaps ·) then spans else spans ++ [s]

namespace Finder

/-- The coloured spans of a line: first the keywords and attributes, then the type
names. A type name inside an attribute is not coloured on its own. -/
def collect (f : Finder) (line : List Char) : List Span :=
  let words := (f.keywords line).map fun (start, stop) => ⟨start, stop, .magenta⟩
  ((f.typeNames line).map fun (start, stop) => ⟨start, stop, .cyan⟩).foldl addSpan words

def spans (f : Finder) (line : List Char) : List Span :=
  (f.collect line).mergeSort fun a b => a.start ≤ b.start

end Finder

def slice (line : List Char) (start stop : Nat) : List Char := (line.drop start).take (stop - start)

def cut (line : List Char) (position : Nat) : List Span → List Segment
  | [] => [{ text := .ofList (line.drop position) }]
  | s :: ss =>
    { text := .ofList (slice line position s.start) }
      :: { style := some ⟨s.colour, false⟩, text := .ofList (slice line s.start s.stop) }
      :: cut line s.stop ss

def isComment (line : List Char) : Bool := "//".toList.isPrefixOf (Text.dropBlanks line)

def Finder.lineSegments (f : Finder) (line : List Char) : List Segment :=
  if isComment line then [{ style := some ⟨.green, false⟩, text := .ofList line }]
  else cut line 0 (f.spans line)

def linesWithEnds : List Char → List (List Char)
  | [] => []
  | c :: cs =>
    if c = '\n' then [c] :: linesWithEnds cs
    else
      match linesWithEnds cs with
      | [] => [[c]]
      | l :: ls => (c :: l) :: ls

def Finder.source (f : Finder) (text : String) : List Segment :=
  (linesWithEnds text.toList).flatMap f.lineSegments

def source (text : String) : List Segment := Finder.standard.source text

@[simp] theorem flatten_linesWithEnds (cs : List Char) : (linesWithEnds cs).flatten = cs := by
  induction cs with
  | nil => rfl
  | cons c cs ih =>
    simp only [linesWithEnds]
    split
    · simp [ih]
    · split <;> simp_all

end HeaderBridge.Highlight
