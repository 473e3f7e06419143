import HeaderBridge.Failure
import HeaderBridge.Options.Basic
import HeaderBridge.Yaml.Node

/-! # Reading options

Options are written as a YAML mapping. A switch is one of the plain words for
true and false; an option that may be absent may also be null. Keys that name no
option are passed over, and an option is given at most once.
-/

namespace HeaderBridge.Options

open Yaml

def truth? : Node → Option Bool
  | .scalar s =>
    if !s.isPlain then none
    else if s.text ∈ ["true", "True", "TRUE"] then some true
    else if s.text ∈ ["false", "False", "FALSE"] then some false
    else none
  | _ => none

def text? : Node → Option String
  | .scalar s => some s.text
  | _ => none

def nullWords : List String := ["~", "null", "Null", "NULL"]

def nullTag : String := "tag:yaml.org,2002:null"

/-- Whether a scalar is null, if its tag allows to say so. Only a plain one is; one
with a tag is null just if the tag is that of null. -/
def isNull? (s : Scalar) : Option Bool :=
  match s.isPlain, s.tag with
  | true, none => some (s.text = "" || s.text ∈ nullWords)
  | true, some tag =>
    if tag ≠ nullTag then some false else if s.text ∈ nullWords then some true else none
  | false, _ => some false

def nullable? {α : Type} (read : Node → Option α) (v : Node) : Option (Option α) :=
  match v with
  | .scalar s => do if ← isNull? s then return none else some <$> read v
  | v => some <$> read v

inductive Field where
  | colorize | verbose | assumeNonnull | emitAttributes | includePattern | excludePattern
  | followLinks
  deriving DecidableEq

def Field.ofKey? : String → Option Field
  | "colorize" => some colorize
  | "verbose" => some verbose
  | "assume-nonnull" => some assumeNonnull
  | "emit-objc-attributes" => some emitAttributes
  | "include-pattern" => some includePattern
  | "exclude-pattern" => some excludePattern
  | "follow-symlinks" => some followLinks
  | _ => none

def set (o : Options) (v : Node) : Field → Option Options
  | .colorize => return { o with colorize := ← nullable? truth? v }
  | .verbose => return { o with verbose := ← truth? v }
  | .assumeNonnull => return { o with assumeNonnull := ← truth? v }
  | .emitAttributes => return { o with emitAttributes := ← truth? v }
  | .includePattern => return { o with includePattern := ← nullable? text? v }
  | .excludePattern => return { o with excludePattern := ← nullable? text? v }
  | .followLinks => return { o with followLinks := ← truth? v }

/-- The options with the entries of a mapping set; `given` are those set before. -/
def setAll (o : Options) (given : List Field) : List (Node × Node) → Option Options
  | [] => some o
  | (key, v) :: entries => do
    match Field.ofKey? (← text? key) with
    | none => setAll o given entries
    | some f => if f ∈ given then none else setAll (← o.set v f) (f :: given) entries

/-- The options of a document. One that is not written gives the defaults. -/
def ofNode? : Node → Option Options
  | .mapping entries => setAll {} [] entries
  | .scalar s => if s.isPlain && s.text.isEmpty then some {} else none
  | .sequence _ => none

def read (text : String) : Except Failure Options :=
  if (Text.trim text).isEmpty then .ok {}
  else
    match (Node.ofText? text).bind ofNode? with
    | some o => .ok o
    | none => .error .configuration

end HeaderBridge.Options
