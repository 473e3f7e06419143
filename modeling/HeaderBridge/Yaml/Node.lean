import HeaderBridge.Yaml.Token

/-! # Nodes of a document

The tokens of a document are put together to nodes: scalars, sequences and
mappings. A node may carry a tag, and an anchor by which later places refer to it.
-/

namespace HeaderBridge.Yaml

inductive Node where
  | scalar (s : Scalar)
  | sequence (items : List Node)
  | mapping (entries : List (Node × Node))

def Node.absent : Node := .scalar .absent

/-- The tokens still to be taken, with the names in force. -/
structure Composing where
  tokens : List Token
  /-- The nodes with anchors, the last first. -/
  anchors : List (String × Node) := []
  /-- What the handles of tags are short for. -/
  handles : List (String × String) := [("!", "!"), ("!!", "tag:yaml.org,2002:")]

structure Properties where
  anchor : Option String := none
  tag : Option String := none

namespace Composing

def withTokens (s : Composing) (ts : List Token) : Composing := { s with tokens := ts }

def startsWith (s : Composing) (ts : List Token) : Bool := s.tokens.head?.any (· ∈ ts)

def define (s : Composing) (name : Option String) (n : Node) : Composing :=
  match name with
  | none => s
  | some a => { s with anchors := (a, n) :: s.anchors }

def tag? (s : Composing) (handle suffix : String) : Option String :=
  if handle = "" then some suffix else (s.handles.lookup handle).map (· ++ suffix)

def properties (s : Composing) : Option (Properties × Composing) :=
  match s.tokens with
  | .anchor a :: .tag h t :: ts => do return (⟨a, ← s.tag? h t⟩, s.withTokens ts)
  | .tag h t :: .anchor a :: ts => do return (⟨a, ← s.tag? h t⟩, s.withTokens ts)
  | .anchor a :: ts => some (⟨a, none⟩, s.withTokens ts)
  | .tag h t :: ts => do return (⟨none, ← s.tag? h t⟩, s.withTokens ts)
  | _ => some ({}, s)

/-- The state at an entry of a flow collection. A mark parts it from the one before. -/
def entryStart (isFirst : Bool) (s : Composing) : Option Composing :=
  if isFirst then some s
  else
    match s.tokens with
    | .flowEntry :: ts => some (s.withTokens ts)
    | _ => none

mutual

/-- A node. A block collection may start here if `block` says so, and a block
sequence without indentation if `flat` does. -/
def node (block flat : Bool) : Nat → Composing → Option (Node × Composing)
  | 0, _ => none
  | fuel + 1, s =>
    match s.tokens with
    | .reference a :: ts => do return (← s.anchors.lookup a, s.withTokens ts)
    | _ => do
      let (props, s) ← s.properties
      let (n, s) ← content block flat props fuel s
      return (n, s.define props.anchor n)

/-- A node after its properties. While a collection is read, its anchor stands for
an empty one. -/
def content (block flat : Bool) (props : Properties) :
    Nat → Composing → Option (Node × Composing)
  | 0, _ => none
  | fuel + 1, s =>
    let start (ts : List Token) : Composing := (s.withTokens ts).define props.anchor (.sequence [])
    match s.tokens with
    | .scalar x :: ts => some (.scalar { x with tag := props.tag }, s.withTokens ts)
    | .flowSequenceStart :: ts => flowSequence true [] fuel (start ts)
    | .flowMappingStart :: ts => flowMapping true [] fuel (start ts)
    | ts =>
      if flat && s.startsWith [.blockEntry] then flatSequence [] fuel (start ts)
      else if block && s.startsWith [.blockSequenceStart] then
        blockSequence [] fuel (start ts.tail)
      else if block && s.startsWith [.blockMappingStart] then blockMapping [] fuel (start ts.tail)
      else if props.anchor.isSome || props.tag.isSome then
        some (.scalar { Scalar.absent with tag := props.tag }, s)
      else none

def blockPart (flat : Bool) (ends : List Token) : Nat → Composing → Option (Node × Composing)
  | 0, _ => none
  | fuel + 1, s => if s.startsWith ends then some (.absent, s) else node true flat fuel s

def blockSequence (items : List Node) : Nat → Composing → Option (Node × Composing)
  | 0, _ => none
  | fuel + 1, s =>
    match s.tokens with
    | .blockEntry :: ts => do
      let (n, s) ← blockPart false [.blockEntry, .blockEnd] fuel (s.withTokens ts)
      blockSequence (items ++ [n]) fuel s
    | .blockEnd :: ts => some (.sequence items, s.withTokens ts)
    | _ => none

/-- The entries of a block sequence without indentation, which has no token at its
end. -/
def flatSequence (items : List Node) : Nat → Composing → Option (Node × Composing)
  | 0, _ => none
  | fuel + 1, s =>
    match s.tokens with
    | .blockEntry :: ts => do
      let (n, s) ← blockPart false [.blockEntry, .key, .value, .blockEnd] fuel (s.withTokens ts)
      flatSequence (items ++ [n]) fuel s
    | _ => some (.sequence items, s)

def blockMapping (entries : List (Node × Node)) : Nat → Composing → Option (Node × Composing)
  | 0, _ => none
  | fuel + 1, s =>
    match s.tokens with
    | .key :: ts => do
      let (k, s) ← blockPart true [.key, .value, .blockEnd] fuel (s.withTokens ts)
      let (v, s) ← match s.tokens with
        | .value :: ts => blockPart true [.key, .value, .blockEnd] fuel (s.withTokens ts)
        | _ => some (.absent, s)
      blockMapping (entries ++ [(k, v)]) fuel s
    | .blockEnd :: ts => some (.mapping entries, s.withTokens ts)
    | _ => none

def flowValue (close : Token) : Nat → Composing → Option (Node × Composing)
  | 0, _ => none
  | fuel + 1, s =>
    match s.tokens with
    | .value :: ts =>
      let s := s.withTokens ts
      if s.startsWith [.flowEntry, close] then some (.absent, s) else node false false fuel s
    | _ => some (.absent, s)

/-- The entries of a flow sequence. An entry may be a mapping of one key; where that
key is not written, the token after its mark is passed over. -/
def flowSequence (isFirst : Bool) (items : List Node) : Nat → Composing → Option (Node × Composing)
  | 0, _ => none
  | fuel + 1, s =>
    if s.startsWith [.flowSequenceEnd] then some (.sequence items, s.withTokens s.tokens.tail)
    else do
      let s ← entryStart isFirst s
      match s.tokens with
      | .flowSequenceEnd :: ts => return (.sequence items, s.withTokens ts)
      | .key :: ts =>
        let s := s.withTokens ts
        let (k, s) ←
          if s.startsWith [.value, .flowEntry, .flowSequenceEnd] then
            some (.absent, s.withTokens s.tokens.tail)
          else node false false fuel s
        let (v, s) ← flowValue .flowSequenceEnd fuel s
        flowSequence false (items ++ [.mapping [(k, v)]]) fuel s
      | _ =>
        let (n, s) ← node false false fuel s
        flowSequence false (items ++ [n]) fuel s

def flowMapping (isFirst : Bool) (entries : List (Node × Node)) :
    Nat → Composing → Option (Node × Composing)
  | 0, _ => none
  | fuel + 1, s =>
    if s.startsWith [.flowMappingEnd] then some (.mapping entries, s.withTokens s.tokens.tail)
    else do
      let s ← entryStart isFirst s
      match s.tokens with
      | .flowMappingEnd :: ts => return (.mapping entries, s.withTokens ts)
      | .key :: ts =>
        let s := s.withTokens ts
        let (k, s) ←
          if s.startsWith [.value, .flowEntry, .flowMappingEnd] then some (.absent, s)
          else node false false fuel s
        let (v, s) ← flowValue .flowMappingEnd fuel s
        flowMapping false (entries ++ [(k, v)]) fuel s
      | _ =>
        let (k, s) ← node false false fuel s
        flowMapping false (entries ++ [(k, .absent)]) fuel s

end

/-! ### Documents -/

/-- The directives of a document, up to its start; `versioned` says whether one has
given a version. -/
def directives (versioned : Bool) (own : List (String × String)) (s : Composing) :
    List Token → Option Composing
  | .versionDirective major minor :: ts =>
    if !versioned && major = 1 && (minor = 1 || minor = 2) then directives true own s ts else none
  | .tagDirective handle short :: ts =>
    if (own.lookup handle).isSome then none
    else directives versioned ((handle, short) :: own) s ts
  | .documentStart :: ts => some { s with tokens := ts, handles := own ++ s.handles }
  | _ => none

def isDirective : Token → Bool
  | .versionDirective _ _ | .tagDirective _ _ => true
  | _ => false

/-- The node of a document. An explicit start may be followed by nothing. -/
def document (s : Composing) : Option (Node × Composing) :=
  let fuel := 4 * s.tokens.length + 4
  if s.tokens.head?.any fun t => isDirective t || t = .documentStart then do
    let s ← directives false [] s s.tokens
    if s.tokens.head?.all fun t => isDirective t || t = .documentStart || t = .documentEnd then
      return (.absent, s)
    else node true false fuel s
  else node true false fuel s

end Composing

/-- The node of the only document of a text. A text without a document is one with
an absent node. -/
def Node.ofText? (text : String) : Option Node := do
  let tokens ← Token.ofText? text
  if tokens.isEmpty then return .absent
  let (n, s) ← Composing.document { tokens }
  if s.tokens.all (· = .documentEnd) then some n else none

end HeaderBridge.Yaml
