/-! # Blank characters

The characters with the Unicode property White_Space, and the operations that
drop them from the ends of a text or split a text at them.
-/

namespace HeaderBridge.Text

/-- Whether a character has the property White_Space. -/
def isBlank (c : Char) : Bool :=
  let n := c.toNat
  (0x09 ≤ n && n ≤ 0x0D) || n = 0x20 || n = 0x85 || n = 0xA0 || n = 0x1680
    || (0x2000 ≤ n && n ≤ 0x200A) || n = 0x2028 || n = 0x2029 || n = 0x202F || n = 0x205F
    || n = 0x3000

def dropBlanks (cs : List Char) : List Char := cs.dropWhile isBlank

def trimStart (s : String) : String := .ofList (dropBlanks s.toList)

def trimEnd (s : String) : String := .ofList (dropBlanks s.toList.reverse).reverse

def trim (s : String) : String := trimEnd (trimStart s)

/-- Put one more character in front of a list of words, of which the first is
still growing. -/
def addToWords (c : Char) : List Char × List (List Char) → List Char × List (List Char)
  | (w, ws) => if isBlank c then ([], if w.isEmpty then ws else w :: ws) else (c :: w, ws)

def words (s : String) : List String :=
  let (w, ws) := s.toList.foldr addToWords ([], [])
  (if w.isEmpty then ws else w :: ws).map String.ofList

end HeaderBridge.Text
