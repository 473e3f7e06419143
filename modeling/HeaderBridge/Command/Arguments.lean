import HeaderBridge.Options.Basic

/-! # Command lines

A command line gives one command with its arguments and options. Options that hold
for every command may stand before or after its name. The words are read one after
the other; an option that takes a value is kept pending until what follows shows
its value, and only then checked.
-/

namespace HeaderBridge.Command

inductive Verb where
  | files | path | ast | type
  deriving DecidableEq

def Verb.ofName? : String → Option Verb
  | "files" => some files
  | "path" => some path
  | "ast" => some ast
  | "type" => some type
  | _ => none

inductive Request where
  | files (paths : List String)
  | path (root : String) (includePattern excludePattern : Option String) (skipConfirm : Bool)
  | ast (path : String) (json : Bool)
  | type (spelling : String)
  deriving DecidableEq

structure Invocation where
  colorize : Option Bool
  verbose : Bool
  /-- The path of an options file. -/
  config : Option String
  assumeNonnull : Bool
  emitAttributes : Bool
  request : Request
  deriving DecidableEq

/-- The options, with those of the command line on top. -/
def Invocation.applyTo (i : Invocation) (o : Options) : Options :=
  let o := { o with
    colorize := i.colorize.or o.colorize
    verbose := o.verbose || i.verbose
    assumeNonnull := o.assumeNonnull || i.assumeNonnull
    emitAttributes := o.emitAttributes || i.emitAttributes }
  match i.request with
  | .path _ includePattern excludePattern _ =>
    { o with
      includePattern := includePattern.or o.includePattern
      excludePattern := excludePattern.or o.excludePattern }
  | _ => o

/-- Why a command line gives no command to carry out. -/
inductive Usage where
  /-- Help is asked for, maybe on one command. -/
  | help (verb : Option Verb)
  | version
  /-- Nothing is given at all. -/
  | nothing
  | missingCommand
  | unknownCommand
  | missingArgument
  | unknownArgument
  | invalidValue
  /-- An option is given twice. -/
  | repeatedOption
  /-- A value is attached to an option that takes none. -/
  | surplusValue
  deriving DecidableEq

/-! ### Options -/

/-- The options that take no value. -/
inductive Flag where
  | verbose | assumeNonnull | emitAttributes | skipConfirm | json | help | version
  deriving DecidableEq

/-- The options that take a value. -/
inductive Setting where
  | colorize | config | includePattern | excludePattern
  deriving DecidableEq

/-- The option of a name, after the given command or before any. -/
def option? (verb : Option Verb) : String → Option (Flag ⊕ Setting)
  | "colorize" => some (.inr .colorize)
  | "verbose" => some (.inl .verbose)
  | "config" => some (.inr .config)
  | "assume-nonnull" => some (.inl .assumeNonnull)
  | "emit-objc-attributes" => some (.inl .emitAttributes)
  | "help" => some (.inl .help)
  | "version" => if verb = none then some (.inl .version) else none
  | "include-pattern" => if verb = some .path then some (.inr .includePattern) else none
  | "exclude-pattern" => if verb = some .path then some (.inr .excludePattern) else none
  | "skip-confirm" => if verb = some .path then some (.inl .skipConfirm) else none
  | "json" => if verb = some .ast then some (.inl .json) else none
  | _ => none

def shortOption? (verb : Option Verb) : Char → Option Flag
  | 'v' => some .verbose
  | 'h' => some .help
  | 'V' => if verb = none then some .version else none
  | _ => none

def Setting.accepts : Setting → String → Bool
  | colorize, v => v = "true" || v = "false"
  | config, v => !v.isEmpty
  | includePattern, _ | excludePattern, _ => true

/-- The value of an option that is given without one. -/
def Setting.implied : Setting → Option String
  | colorize => some "true"
  | _ => none

def Verb.accepts : Verb → String → Bool
  | type, _ => true
  | _, w => !w.isEmpty

/-! ### Words -/

inductive Pending where
  | nothing
  | setting (s : Setting) (value : Option String)
  | arguments (words : List String)
  deriving DecidableEq

/-- What has been given so far, on one side of the command's name. -/
structure Given where
  flags : List Flag := []
  settings : List (Setting × String) := []
  arguments : List String := []
  pending : Pending := .nothing

namespace Given

def awaitsValue (g : Given) : Bool :=
  match g.pending with
  | .setting _ none => true
  | _ => false

def enter (g : Given) (s : Setting) (value : Option String) : Except Usage Given :=
  match value.or s.implied with
  | none => .error .invalidValue
  | some v =>
    if g.settings.any (·.1 = s) then .error .repeatedOption
    else if s.accepts v then .ok { g with settings := g.settings ++ [(s, v)] }
    else .error .invalidValue

def settle (verb : Option Verb) (g : Given) : Except Usage Given :=
  let rest := { g with pending := .nothing }
  match g.pending with
  | .nothing => .ok g
  | .setting s value => rest.enter s value
  | .arguments words =>
    if verb.all fun v => words.all v.accepts then
      .ok { rest with arguments := g.arguments ++ words }
    else .error .invalidValue

/-- Enters an option that takes no value. -/
def raise (verb : Option Verb) (g : Given) (f : Flag) : Except Usage Given := do
  let g ← g.settle verb
  if f = .help then throw (.help verb)
  if f = .version then throw .version
  if f ∈ g.flags then throw .repeatedOption
  return { g with flags := f :: g.flags }

/-- Enters a word that starts with two dashes. -/
def long (verb : Option Verb) (g : Given) (text : List Char) : Except Usage Given :=
  let name := text.takeWhile (· ≠ '=')
  let value := (text.drop name.length).tail?.map String.ofList
  match option? verb (.ofList name), value with
  | none, _ => .error .unknownArgument
  | some (.inl _), some _ => .error .surplusValue
  | some (.inl f), none => g.raise verb f
  | some (.inr s), some v => do (← g.settle verb).enter s (some v)
  | some (.inr s), none => do return { ← g.settle verb with pending := .setting s none }

/-- Enters the letters of a word that starts with one dash. -/
def short (verb : Option Verb) (g : Given) : List Char → Except Usage Given
  | [] => .ok g
  | c :: cs => do
    match shortOption? verb c with
    | none => throw .unknownArgument
    | some f => (← g.raise verb f).short verb cs

/-- Enters a word that is no option. Only one command takes more than one. -/
def argument (verb : Verb) (g : Given) (w : String) : Except Usage Given :=
  match verb, g.pending with
  | .files, .arguments words => .ok { g with pending := .arguments (words ++ [w]) }
  | .files, _ => do return { ← g.settle (some verb) with pending := .arguments [w] }
  | _, .arguments _ => .error .unknownArgument
  | _, _ =>
    if g.arguments.isEmpty then do
      return { ← g.settle (some verb) with pending := .arguments [w] }
    else .error .unknownArgument

def take (verb : Option Verb) (g : Given) (w : String) : Except Usage Given :=
  match w.toList, g.pending, verb with
  | '-' :: '-' :: text, _, _ => g.long verb text
  | '-' :: c :: cs, _, _ => g.short verb (c :: cs)
  | _, .setting s none, _ => .ok { g with pending := .setting s (some w) }
  | _, _, some v => g.argument v w
  | _, _, none => .error .unknownCommand

/-- Enters the words after a lone pair of dashes, none of which is an option. -/
def takePlain (verb : Option Verb) (g : Given) (w : String) : Except Usage Given :=
  match verb with
  | some v => g.argument v w
  | none =>
    if (Verb.ofName? w).isSome || w = "help" then .error .unknownArgument
    else .error .unknownCommand

def takeAll (verb : Verb) (g : Given) : List String → Except Usage Given
  | [] => .ok g
  | "--" :: ws => ws.foldlM (takePlain (some verb)) g
  | w :: ws => do (← g.take (some verb) w).takeAll verb ws

/-- Enters the words up to the name of a command, and gives it with the words
after it. -/
def takeUntilCommand (g : Given) : List String → Except Usage (Given × Option (Verb × List String))
  | [] => .ok (g, none)
  | "--" :: ws => do return (← ws.foldlM (takePlain none) g, none)
  | w :: ws =>
    if g.awaitsValue then do (← g.take none w).takeUntilCommand ws
    else
      match Verb.ofName? w, w, ws with
      | some v, _, ws => .ok (g, some (v, ws))
      | none, "help", [] => .error (.help none)
      | none, "help", [topic] =>
        if topic = "help" then .error (.help none)
        else .error ((Verb.ofName? topic).elim .unknownCommand fun v => .help (some v))
      | none, "help", _ => .error .unknownCommand
      | none, w, ws => do (← g.take none w).takeUntilCommand ws

def value? (g : Given) (s : Setting) : Option String := g.settings.lookup s

def request (g : Given) : Verb → Except Usage Request
  | .files => if g.arguments.isEmpty then throw .missingArgument else return .files g.arguments
  | .path => do
    return .path (← first) (g.value? .includePattern) (g.value? .excludePattern)
      (.skipConfirm ∈ g.flags)
  | .ast => return .ast (← first) (.json ∈ g.flags)
  | .type => return .type (← first)
where
  /-- The first argument. -/
  first : Except Usage String :=
    match g.arguments with
    | w :: _ => .ok w
    | [] => .error .missingArgument

end Given

/-- What the words of a command line ask for. An option that is given on both
sides of the command's name has the value given after it. -/
def parse (words : List String) : Except Usage Invocation := do
  let (outer, command) ← ({} : Given).takeUntilCommand words
  match command with
  | none =>
    let outer ← outer.settle none
    throw (if outer.flags.isEmpty && outer.settings.isEmpty then .nothing else .missingCommand)
  | some (verb, words) =>
    let inner ← (← ({} : Given).takeAll verb words).settle (some verb)
    let request ← inner.request verb
    let outer ← outer.settle none
    let flag (f : Flag) : Bool := f ∈ inner.flags || f ∈ outer.flags
    let value (s : Setting) : Option String := (inner.value? s).or (outer.value? s)
    return {
      colorize := (value .colorize).map (· = "true")
      verbose := flag .verbose
      config := value .config
      assumeNonnull := flag .assumeNonnull
      emitAttributes := flag .emitAttributes
      request }

end HeaderBridge.Command
