/-! # Code points as bytes

The bytes of a code point in UTF-8, and the runs of code points whose encodings
differ only in bytes that are free of each other: such a run is a sequence of
runs of bytes.
-/

namespace HeaderBridge.Text

def utf8 (n : Nat) : List Nat :=
  let tail (shift : Nat) := 0x80 + (n >>> shift) % 64
  if n < 0x80 then [n]
  else if n < 0x800 then [0xC0 + (n >>> 6), tail 0]
  else if n < 0x10000 then [0xE0 + (n >>> 12), tail 6, tail 0]
  else [0xF0 + (n >>> 18), tail 12, tail 6, tail 0]

/-- The first of some points after which a run of code points has to be cut. -/
def cutAfter? (first last : Nat) (points : List Nat) : Option Nat :=
  points.find? fun p => first ≤ p && p < last

/-- The points at which blocks that share all bytes but the last `width / 6` meet
a run: its ends are brought to the borders of such blocks. -/
def blockCut? (first last width : Nat) : Option Nat :=
  let size := 1 <<< width
  if first / size = last / size then none
  else if first % size ≠ 0 then some (first / size * size + size - 1)
  else if last % size ≠ size - 1 then some (last / size * size - 1)
  else none

/-- Where a run of code points has to be cut, if it is no sequence of runs of
bytes: around the surrogates, where the number of bytes changes, and at the
borders of blocks. -/
def cut? (first last : Nat) : Option Nat :=
  (cutAfter? first last [0xD7FF, 0xDFFF, 0x7F, 0x7FF, 0xFFFF]).or <|
    if last < 0x80 then none
    else (blockCut? first last 6).or ((blockCut? first last 12).or (blockCut? first last 18))

/-- The sequences of runs of bytes that encode a run of code points, in ascending
order. Surrogates have none. -/
def byteRuns : Nat → Nat → Nat → List (List (Nat × Nat))
  | 0, _, _ => []
  | fuel + 1, first, last =>
    match cut? first last with
    | some p => byteRuns fuel first p ++ byteRuns fuel (p + 1) last
    | none => if 0xD800 ≤ first && last ≤ 0xDFFF then [] else [(utf8 first).zip (utf8 last)]

end HeaderBridge.Text
