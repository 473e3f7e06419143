/-! # JSON text

JSON values whose objects keep the order of their fields, and their text with
two blanks of indentation for each level.
-/

namespace HeaderBridge

/-- JSON values; the only numbers are natural. -/
inductive Json where
  | null
  | bool (b : Bool)
  | num (n : Nat)
  | str (s : String)
  | arr (items : List Json)
  | obj (fields : List (String × Json))

namespace Json

def tagged (tag : String) (v : Json) : Json := obj [(tag, v)]

def strs (ss : List String) : Json := arr (ss.map str)

def ofOption {α : Type} (f : α → Json) : Option α → Json
  | some a => f a
  | none => null

def hexDigit (n : Nat) : Char := Nat.digitChar n

def escapeChar (c : Char) : String :=
  if c = '"' then "\\\""
  else if c = '\\' then "\\\\"
  else if c = '\x08' then "\\b"
  else if c = '\t' then "\\t"
  else if c = '\n' then "\\n"
  else if c = '\x0c' then "\\f"
  else if c = '\r' then "\\r"
  else if c.toNat < 0x20 then
    .ofList ['\\', 'u', '0', '0', hexDigit (c.toNat / 16), hexDigit (c.toNat % 16)]
  else c.toString

def quoted (s : String) : String :=
  "\"" ++ String.join (s.toList.map escapeChar) ++ "\""

/-- The start of a line at the given level. -/
def lineStart (level : Nat) : String :=
  "\n" ++ .ofList (List.replicate (2 * level) ' ')

mutual

def prettyAt (level : Nat) : Json → String
  | null => "null"
  | bool b => if b then "true" else "false"
  | num n => toString n
  | str s => quoted s
  | arr [] => "[]"
  | arr (v :: vs) =>
    "[" ++ ",".intercalate (prettyItems (level + 1) (v :: vs)) ++ lineStart level ++ "]"
  | obj [] => "\x7b\x7d"
  | obj (f :: fs) =>
    "\x7b" ++ ",".intercalate (prettyFields (level + 1) (f :: fs)) ++ lineStart level ++ "\x7d"

def prettyItems (level : Nat) : List Json → List String
  | [] => []
  | v :: vs => (lineStart level ++ prettyAt level v) :: prettyItems level vs

def prettyFields (level : Nat) : List (String × Json) → List String
  | [] => []
  | (k, v) :: fs =>
    (lineStart level ++ quoted k ++ ": " ++ prettyAt level v) :: prettyFields level fs

end

def pretty (v : Json) : String := v.prettyAt 0

end Json

end HeaderBridge
