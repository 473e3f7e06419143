import HeaderBridge.Yaml.Scalar

/-! # Tokens of a document

A document is cut into tokens. Indentation gives tokens of its own, which open and
close block collections. A scalar turns out to be a key only at the colon behind
it; so the places at which a key may start are kept, one for each flow collection
that is open and one outside of them, and the tokens of the key are put in there
later. Such a key stands on one line and is not too long.
-/

namespace HeaderBridge.Yaml

inductive Token where
  | versionDirective (major minor : Nat)
  /-- A handle and what it is short for. -/
  | tagDirective (handle short : String)
  | documentStart
  | documentEnd
  | blockSequenceStart
  | blockMappingStart
  | blockEnd
  | flowSequenceStart
  | flowSequenceEnd
  | flowMappingStart
  | flowMappingEnd
  | blockEntry
  | flowEntry
  | key
  | value
  | anchor (name : String)
  /-- A node that an anchor names. -/
  | reference (name : String)
  | tag (handle suffix : String)
  | scalar (s : Scalar)
  deriving DecidableEq

def maxKeyLength : Nat := 1024

structure KeyStart where
  /-- The number of tokens before the key. -/
  token : Nat
  index : Nat
  line : Nat
  column : Nat
  /-- Whether only a key can stand here. -/
  required : Bool

/-- How far a document has been cut. -/
structure Cutting where
  cursor : Cursor
  tokens : Array Token := #[]
  /-- The columns of the block collections that are open, the innermost first. -/
  columns : List Nat := []
  /-- Where a key may have started, inside the innermost flow collection. -/
  keyStart : Option KeyStart := none
  /-- Where a key may have started around each of the flow collections. -/
  outerKeys : List (Option KeyStart) := []
  /-- Whether a key may start here. -/
  keyAllowed : Bool := true

namespace Cutting

def inFlow (s : Cutting) : Bool := !s.outerKeys.isEmpty

/-- The state after a token that has been read up to a position. -/
def emit (s : Cutting) (t : Token) (p : Cursor) : Cutting :=
  { s with tokens := s.tokens.push t, cursor := p }

/-! ### Keys -/

def dropKey (s : Cutting) : Option Cutting :=
  if s.keyStart.any KeyStart.required then none else some { s with keyStart := none }

def noteKey (s : Cutting) : Option Cutting :=
  if !s.keyAllowed then some s
  else do
    let s ← s.dropKey
    let p := s.cursor
    let required := !s.inFlow && s.columns.head? = some p.column
    return { s with keyStart := some ⟨s.tokens.size, p.index, p.line, p.column, required⟩ }

/-- Forget a key whose line has ended or that has become too long. -/
def forget (p : Cursor) (k : Option KeyStart) : Option (Option KeyStart) :=
  match k with
  | none => some none
  | some k =>
    if k.line < p.line || k.index + maxKeyLength < p.index then
      if k.required then none else some none
    else some (some k)

def forgetKeys (s : Cutting) : Option Cutting := do
  return { s with
    keyStart := ← forget s.cursor s.keyStart
    outerKeys := ← s.outerKeys.mapM (forget s.cursor) }

/-! ### Indentation -/

/-- Open a block collection at a column, if it is deeper than those that are open.
Its token is put before the one with the given number. -/
def openBlock (s : Cutting) (column : Nat) (t : Token) (number : Nat) : Cutting :=
  if !s.inFlow && s.columns.head?.all (· < column) then
    { s with
      columns := column :: s.columns
      tokens := s.tokens.insertIdxIfInBounds number t }
  else s

/-- Close the block collections that are deeper than a column; all of them if none
is given. -/
def closeBlocks (s : Cutting) (column : Option Nat) : Cutting :=
  if s.inFlow then s
  else
    let closed := s.columns.takeWhile fun c => column.all (· < c)
    { s with
      columns := s.columns.drop closed.length
      tokens := s.tokens ++ closed.map fun _ => Token.blockEnd }

/-! ### Blanks and comments -/

/-- Go to the next token. In a block, a new line is a place for a key, and there
are no tabs in front of one. -/
def skipGaps : Nat → Cutting → Cutting
  | 0, s => s
  | fuel + 1, s =>
    let p := s.cursor
    let p := if p.index = 0 && p.rest.head? = some '\ufeff' then p.next else p
    let p := p.skipWhile fun c => c = ' ' || (c = '\t' && (s.inFlow || !s.keyAllowed))
    let p := if p.rest.head? = some '#' then p.skipWhile (!isBreak ·) else p
    if p.rest.head?.any isBreak then
      skipGaps fuel { s with cursor := p.next, keyAllowed := s.keyAllowed || !s.inFlow }
    else { s with cursor := p }

/-! ### Marks -/

/-- A mark of a document, or a directive, closes all blocks. -/
def startOver (s : Cutting) : Option Cutting := do
  let s ← (s.closeBlocks none).dropKey
  return { s with keyAllowed := false }

def takeMarker (s : Cutting) (t : Token) : Option Cutting := do
  return (← s.startOver).emit t (s.cursor.skip 3)

def takeFlowStart (s : Cutting) (t : Token) : Option Cutting := do
  let s ← s.noteKey
  let outerKeys := s.keyStart :: s.outerKeys
  return { s with keyStart := none, outerKeys, keyAllowed := true }.emit t s.cursor.next

def takeFlowEnd (s : Cutting) (t : Token) : Option Cutting := do
  let s ← s.dropKey
  let s := match s.outerKeys with
    | [] => s
    | k :: ks => { s with keyStart := k, outerKeys := ks }
  return { s with keyAllowed := false }.emit t s.cursor.next

def takeFlowEntry (s : Cutting) : Option Cutting := do
  return { ← s.dropKey with keyAllowed := true }.emit .flowEntry s.cursor.next

def takeBlockEntry (s : Cutting) : Option Cutting := do
  if !s.inFlow && !s.keyAllowed then none
  let s ← (s.openBlock s.cursor.column .blockSequenceStart s.tokens.size).dropKey
  return { s with keyAllowed := true }.emit .blockEntry s.cursor.next

def takeKey (s : Cutting) : Option Cutting := do
  if !s.inFlow && !s.keyAllowed then none
  let s ← (s.openBlock s.cursor.column .blockMappingStart s.tokens.size).dropKey
  return { s with keyAllowed := !s.inFlow }.emit .key s.cursor.next

/-- The mark of a value. What may have been a key is one. -/
def takeValue (s : Cutting) : Option Cutting := do
  match s.keyStart with
  | some k =>
    let s := { s with
      tokens := s.tokens.insertIdxIfInBounds k.token .key
      keyStart := none
      keyAllowed := false }
    return (s.openBlock k.column .blockMappingStart k.token).emit .value s.cursor.next
  | none =>
    if !s.inFlow && !s.keyAllowed then none
    let s := s.openBlock s.cursor.column .blockMappingStart s.tokens.size
    return { s with keyAllowed := !s.inFlow }.emit .value s.cursor.next

/-! ### Names, tags and directives -/

def readName (p : Cursor) : Option (String × Cursor) :=
  let (name, p) := p.span isNameChar
  let ended := p.rest.head?.all fun c =>
    isGap c || c ∈ ['?', ':', ',', ']', '\x7d', '%', '@', '\x60']
  if !name.isEmpty && ended then some (.ofList name, p) else none

def takeName (s : Cutting) (t : String → Token) : Option Cutting := do
  let s ← s.noteKey
  let (name, p) ← readName s.cursor.next
  return { s with keyAllowed := false }.emit (t name) p

def isTagChar (verbatim : Bool) (c : Char) : Bool :=
  isNameChar c
    || c ∈ [';', '/', '?', ':', '@', '&', '=', '+', '$', '.', '%', '!', '~', '*', '\'', '(', ')']
    || (verbatim && c ∈ [',', '[', ']'])

def escapesEnd : List Char → Bool
  | '%' :: c :: d :: cs => (hexDigit? c).isSome && (hexDigit? d).isSome && escapesEnd cs
  | '%' :: _ => false
  | _ :: cs => escapesEnd cs
  | [] => true

def readTagChars (verbatim : Bool) (p : Cursor) : Option (List Char × Cursor) :=
  let (text, p) := p.span (isTagChar verbatim)
  if escapesEnd text then some (text, p) else none

def readHandle (p : Cursor) : Option (List Char × Cursor) :=
  match p.rest with
  | '!' :: _ =>
    let (name, p) := p.next.span isNameChar
    if p.rest.head? = some '!' then some ('!' :: name ++ ['!'], p.next) else some ('!' :: name, p)
  | _ => none

def readTag (p : Cursor) : Option (Token × Cursor) :=
  if p.next.rest.head? = some '<' then do
    let (text, p) ← readTagChars true (p.skip 2)
    if text.isEmpty || p.rest.head? ≠ some '>' then none
    return (.tag "" (.ofList text), p.next)
  else do
    let (handle, p) ← readHandle p
    let (text, p) ← readTagChars false p
    if 1 < handle.length && handle.getLast? = some '!' then
      if text.isEmpty then none
      return (.tag (.ofList handle) (.ofList text), p)
    else
      let suffix := handle.tail ++ text
      if suffix.isEmpty then return (.tag "" "!", p) else return (.tag "!" (.ofList suffix), p)

def takeTag (s : Cutting) : Option Cutting := do
  let s ← s.noteKey
  let (t, p) ← readTag s.cursor
  if gapFollows p.rest || (s.inFlow && p.rest.head? = some ',') then
    return { s with keyAllowed := false }.emit t p
  else none

def readNumber (p : Cursor) : Option (Nat × Cursor) :=
  let (digits, p) := p.span Char.isDigit
  if digits.isEmpty || 9 < digits.length then none
  else some (digits.foldl (fun n c => 10 * n + (c.toNat - '0'.toNat)) 0, p)

def readDirective (name : String) (p : Cursor) : Option (Token × Cursor) :=
  match name with
  | "YAML" => do
    let (major, p) ← readNumber (p.skipWhile isSpace)
    if p.rest.head? ≠ some '.' then none
    let (minor, p) ← readNumber p.next
    return (.versionDirective major minor, p)
  | "TAG" => do
    let (handle, p) ← readHandle (p.skipWhile isSpace)
    if handle ≠ ['!'] && (handle.length < 2 || handle.getLast? ≠ some '!') then none
    if !p.rest.head?.any isSpace then none
    let (text, p) ← readTagChars true (p.skipWhile isSpace)
    if text.isEmpty || !gapFollows p.rest then none
    return (.tagDirective (.ofList handle) (.ofList text), p)
  | _ => none

def takeDirective (s : Cutting) : Option Cutting := do
  let (name, p) := s.cursor.next.span isNameChar
  if name.isEmpty || !gapFollows p.rest then none
  let (t, p) ← readDirective (.ofList name) p
  return (← s.startOver).emit t (← p.skipLine?)

/-! ### Scalars -/

def takeQuoted (s : Cutting) (quote : Char) : Option Cutting := do
  let s ← s.noteKey
  let (scalar, p) ← readQuoted quote s.cursor.next
  return { s with keyAllowed := false }.emit (.scalar scalar) p

def takePlain (s : Cutting) : Option Cutting := do
  let s ← s.noteKey
  let (scalar, broken, p) ← readPlain s.inFlow (s.columns.head?.elim 0 (· + 1)) s.cursor
  return { s with keyAllowed := broken }.emit (.scalar scalar) p

def takeBlock (s : Cutting) (literal : Bool) : Option Cutting := do
  let s ← s.dropKey
  let (scalar, p) ← readBlock literal s.columns.head? s.cursor.next
  return { s with keyAllowed := true }.emit (.scalar scalar) p

def startsPlain (inFlow : Bool) (c : Char) (cs : List Char) : Bool :=
  if c = '-' then !cs.head?.any isSpace
  else if c = '?' || c = ':' then !inFlow && !gapFollows cs
  else
    !isGap c && !isFlowMark c
      && c ∉ ['#', '&', '*', '!', '|', '>', '\'', '"', '%', '@', '\x60']

/-! ### All tokens -/

def take (s : Cutting) (c : Char) (cs : List Char) : Option Cutting :=
  if s.cursor.column = 0 && c = '%' then s.takeDirective
  else if s.cursor.isMarker then s.takeMarker (if c = '-' then .documentStart else .documentEnd)
  else if c = '[' then s.takeFlowStart .flowSequenceStart
  else if c = '\x7b' then s.takeFlowStart .flowMappingStart
  else if c = ']' then s.takeFlowEnd .flowSequenceEnd
  else if c = '\x7d' then s.takeFlowEnd .flowMappingEnd
  else if c = ',' then s.takeFlowEntry
  else if c = '-' && gapFollows cs then s.takeBlockEntry
  else if c = '?' && (s.inFlow || gapFollows cs) then s.takeKey
  else if c = ':' && (s.inFlow || gapFollows cs) then s.takeValue
  else if c = '*' then s.takeName .reference
  else if c = '&' then s.takeName .anchor
  else if c = '!' then s.takeTag
  else if c = '|' && !s.inFlow then s.takeBlock true
  else if c = '>' && !s.inFlow then s.takeBlock false
  else if c = '\'' || c = '"' then s.takeQuoted c
  else if startsPlain s.inFlow c cs then s.takePlain
  else none

/-- All tokens from here on; each takes at least one character. -/
def takeAll : Nat → Cutting → Option (List Token)
  | 0, _ => none
  | fuel + 1, s => do
    let s ← (skipGaps (s.cursor.rest.length + 1) s).forgetKeys
    let s := s.closeBlocks (some s.cursor.column)
    match s.cursor.rest with
    | [] => return (← s.startOver).tokens.toList
    | c :: cs => takeAll fuel (← s.take c cs)

end Cutting

def Token.ofText? (text : String) : Option (List Token) :=
  let cs := unifyLineEnds text.toList
  if text.toList.all isAllowed then Cutting.takeAll (cs.length + 1) { cursor := { rest := cs } }
  else none

end HeaderBridge.Yaml
