import HeaderBridge.Yaml.Cursor

/-! # Scalars

Scalars are plain, in single or double quotes, or blocks of lines. In all but the
blocks, a line end counts as a blank, and several of them as one less.

A reader takes a position and gives what it read together with the position after
it, or nothing if the text is ill-formed.
-/

namespace HeaderBridge.Yaml

/-- A scalar. Only a plain one can stand for something else than text. -/
structure Scalar where
  text : String
  isPlain : Bool := true
  tag : Option String := none
  deriving DecidableEq

def Scalar.absent : Scalar := { text := "" }

/-! ### Gaps -/

/-- Blanks and line ends inside a scalar. -/
structure ScalarGap where
  /-- The blanks, as long as the line goes on. -/
  spaces : List Char := []
  /-- Whether the line has ended. -/
  broken : Bool := false
  /-- The first line end, unless it is escaped. -/
  first : Option Char := none
  /-- The line ends after the first. -/
  others : List Char := []

namespace ScalarGap

def text (g : ScalarGap) : List Char :=
  if !g.broken then g.spaces
  else
    match g.first with
    | some '\n' => if g.others.isEmpty then [' '] else g.others
    | some c => c :: g.others
    | none => g.others

def add (g : ScalarGap) (c : Char) : ScalarGap :=
  if isSpace c then if g.broken then g else { g with spaces := g.spaces ++ [c] }
  else if g.broken then { g with others := g.others ++ [c] }
  else { g with spaces := [], broken := true, first := some c }

/-- The rest of a gap. Lines are not indented with tabs up to the given column. -/
def readRest (indent : Nat) : Nat → ScalarGap → Cursor → Option (ScalarGap × Cursor)
  | 0, g, p => some (g, p)
  | fuel + 1, g, p =>
    match p.rest with
    | [] => some (g, p)
    | c :: _ =>
      if !isGap c then some (g, p)
      else if g.broken && c = '\t' && p.column < indent then none
      else readRest indent fuel (g.add c) p.next

def read (indent : Nat) (g : ScalarGap) (p : Cursor) : Option (ScalarGap × Cursor) :=
  readRest indent p.rest.length g p

end ScalarGap

/-! ### Plain scalars -/

/-- Characters of a plain scalar without gaps. In a flow collection a colon does
not stand before the characters that part it. -/
def plainRun (flow : Bool) : Nat → Cursor → Option (List Char × Cursor)
  | 0, p => some ([], p)
  | fuel + 1, p =>
    match p.rest with
    | [] => some ([], p)
    | c :: cs =>
      if isGap c || (c = ':' && gapFollows cs) || (flow && isFlowMark c) then some ([], p)
      else if flow && c = ':' && cs.head?.any (fun d => isFlowMark d || d = '?') then none
      else do
        let (text, p) ← plainRun flow fuel p.next
        return (c :: text, p)

/-- The rest of a plain scalar, after what has been read of it and a gap; also
whether the line has ended behind it. -/
def plainRest (flow : Bool) (indent : Nat) :
    Nat → List Char → ScalarGap → Cursor → Option (List Char × Bool × Cursor)
  | 0, text, gap, p => some (text, gap.broken, p)
  | fuel + 1, text, gap, p =>
    if p.isMarker || p.rest.head? = some '#' then some (text, gap.broken, p)
    else do
      let (run, p) ← plainRun flow p.rest.length p
      if run.isEmpty then return (text, gap.broken, p)
      let text := text ++ gap.text ++ run
      let (gap, p) ← ScalarGap.read indent {} p
      if p.column < indent && !flow then return (text, gap.broken, p)
      plainRest flow indent fuel text gap p

/-- A plain scalar, whose lines are indented at least to a column; also whether the
line has ended behind it. -/
def readPlain (flow : Bool) (indent : Nat) (p : Cursor) : Option (Scalar × Bool × Cursor) := do
  let (text, broken, p) ← plainRest flow indent p.rest.length [] {} p
  return ({ text := .ofList text }, broken, p)

/-! ### Quoted scalars -/

def escaped? : Char → Option Char
  | '0' => some '\x00'
  | 'a' => some '\x07'
  | 'b' => some '\x08'
  | 't' | '\t' => some '\t'
  | 'n' => some '\n'
  | 'v' => some '\x0b'
  | 'f' => some '\x0c'
  | 'r' => some '\r'
  | 'e' => some '\x1b'
  | ' ' => some ' '
  | '"' => some '"'
  | '/' => some '/'
  | '\\' => some '\\'
  | 'N' => some '\u0085'
  | '_' => some '\u00a0'
  | 'L' => some '\u2028'
  | 'P' => some '\u2029'
  | _ => none

def escapedDigits? : Char → Option Nat
  | 'x' => some 2
  | 'u' => some 4
  | 'U' => some 8
  | _ => none

def hexDigit? (c : Char) : Option Nat :=
  if c.isDigit then some (c.toNat - '0'.toNat)
  else if 'a' ≤ c && c ≤ 'f' then some (c.toNat - 'a'.toNat + 10)
  else if 'A' ≤ c && c ≤ 'F' then some (c.toNat - 'A'.toNat + 10)
  else none

def numbered? (length : Nat) (digits : List Char) : Option Char := do
  let values ← digits.mapM hexDigit?
  let n := values.foldl (16 * · + ·) 0
  if values.length = length && n.isValidChar then some (Char.ofNat n) else none

def readEscape (p : Cursor) : Option (Char × Cursor) := do
  let c ← p.rest.head?
  match escapedDigits? c with
  | some n => return (← numbered? n (p.next.rest.take n), p.skip (n + 1))
  | none => return (← escaped? c, p.next)

/-- Characters of a quoted scalar without gaps, up to the quote that closes it; also
whether an escaped line end follows, which is passed over. -/
def quotedRun (quote : Char) : Nat → Cursor → Option (List Char × Bool × Cursor)
  | 0, p => some ([], false, p)
  | fuel + 1, p =>
    match p.rest with
    | [] => some ([], false, p)
    | c :: cs =>
      if isGap c then some ([], false, p)
      else if c = '\'' && quote = '\'' && cs.head? = some '\'' then do
        let (text, broken, p) ← quotedRun quote fuel (p.skip 2)
        return ('\'' :: text, broken, p)
      else if c = quote then some ([], false, p)
      else if c = '\\' && quote = '"' then
        if cs.head?.any isBreak then some ([], true, p.skip 2)
        else do
          let (d, p) ← readEscape p.next
          let (text, broken, p) ← quotedRun quote fuel p
          return (d :: text, broken, p)
      else do
        let (text, broken, p) ← quotedRun quote fuel p.next
        return (c :: text, broken, p)

def quotedRest (quote : Char) : Nat → List Char → Cursor → Option (List Char × Cursor)
  | 0, _, _ => none
  | fuel + 1, text, p =>
    if p.isMarker || p.rest.isEmpty then none
    else do
      let (run, broken, p) ← quotedRun quote p.rest.length p
      if p.rest.head? = some quote then return (text ++ run, p.next)
      let (gap, p) ← ScalarGap.read 0 { broken } p
      quotedRest quote fuel (text ++ run ++ gap.text) p

def readQuoted (quote : Char) (p : Cursor) : Option (Scalar × Cursor) := do
  let (text, p) ← quotedRest quote (p.rest.length + 1) [] p
  return ({ text := .ofList text, isPlain := false }, p)

/-! ### Blocks of lines -/

inductive Chomping where
  | strip
  | clip
  | keep

structure BlockHeader where
  chomping : Chomping := .clip
  /-- The indentation, counted from that around the block. -/
  increment : Option Nat := none

/-- What may stand right after the mark of a block: a sign and a digit, in any
order. -/
def readBlockHeader (p : Cursor) : Option (BlockHeader × Cursor) :=
  match p.rest with
  | c :: d :: _ =>
    match chomping? c, chomping? d with
    | some k, _ =>
      if d.isDigit then do return (⟨k, ← increment? d⟩, p.skip 2) else some (⟨k, none⟩, p.next)
    | none, some k =>
      if c.isDigit then do return (⟨k, ← increment? c⟩, p.skip 2) else some ({}, p)
    | none, none =>
      if c.isDigit then do return (⟨.clip, ← increment? c⟩, p.next) else some ({}, p)
  | [c] =>
    match chomping? c with
    | some k => some (⟨k, none⟩, p.next)
    | none => if c.isDigit then do return (⟨.clip, ← increment? c⟩, p.next) else some ({}, p)
  | [] => some ({}, p)
where
  /-- What a sign says about the end of a block. -/
  chomping? : Char → Option Chomping
    | '+' => some .keep
    | '-' => some .strip
    | _ => none
  /-- The indentation that a digit gives, which is not zero. -/
  increment? (c : Char) : Option (Option Nat) :=
    if c = '0' then none else some (some (c.toNat - '0'.toNat))

/-- The line ends of empty lines up to the next line of a block, with the
indentation of the block. It is found here if it is not known yet: it is that of
the deepest line, and not less than `least`. -/
def blockBreaks (indent : Option Nat) (least : Nat) :
    Nat → Nat → List Char → Cursor → Option (List Char × Nat × Cursor)
  | 0, _, _, _ => none
  | fuel + 1, deepest, breaks, p =>
    let blanks := p.rest.takeWhile (· = ' ')
    let p := p.skip (indent.elim blanks.length fun n => min blanks.length (n - p.column))
    let deepest := max deepest p.column
    match p.rest with
    | [] => some (breaks, indent.getD (max deepest least), p)
    | c :: _ =>
      if c = '\t' && indent.all (p.column < ·) then none
      else if isBreak c then blockBreaks indent least fuel deepest (breaks ++ [c]) p.next
      else some (breaks, indent.getD (max deepest least), p)

structure BlockText where
  text : List Char := []
  /-- The line end of the last line. -/
  lineEnd : List Char := []
  /-- The line ends of the empty lines after it. -/
  breaks : List Char := []
  /-- Whether the last line starts with a blank. -/
  indented : Bool := false

/-- The lines of a block. Unless it is literal, the line end between two lines that
do not start with a blank counts as a blank. -/
def blockLines (literal : Bool) (indent : Nat) :
    Nat → BlockText → Cursor → Option (BlockText × Cursor)
  | 0, b, p => some (b, p)
  | fuel + 1, b, p =>
    if p.column ≠ indent || p.rest.isEmpty then some (b, p)
    else do
      let indented := p.rest.head?.any isSpace
      let joint :=
        if !literal && b.lineEnd = ['\n'] && !b.indented && !indented then
          if b.breaks.isEmpty then [' '] else []
        else b.lineEnd
      let (line, p) := p.span (!isBreak ·)
      let lineEnd := p.rest.take 1
      let (breaks, _, p) ← blockBreaks (some indent) 0 (p.rest.length + 1) 0 [] p.next
      blockLines literal indent fuel
        { text := b.text ++ joint ++ b.breaks ++ line, lineEnd, breaks, indented } p

/-- A block of lines, after the mark that starts it; `indent` is the indentation
around it. -/
def readBlock (literal : Bool) (indent : Option Nat) (p : Cursor) : Option (Scalar × Cursor) := do
  let (header, p) ← readBlockHeader p
  let p ← p.skipLine?
  let fixed := header.increment.map (indent.getD 0 + ·)
  let least := indent.elim 1 (· + 1)
  let (breaks, found, p) ← blockBreaks fixed least (p.rest.length + 1) 0 [] p
  let (b, p) ← blockLines literal found (p.rest.length + 1) { breaks } p
  let text := match header.chomping with
    | .strip => b.text
    | .clip => b.text ++ b.lineEnd
    | .keep => b.text ++ b.lineEnd ++ b.breaks
  return ({ text := .ofList text, isPlain := false }, p)

end HeaderBridge.Yaml
