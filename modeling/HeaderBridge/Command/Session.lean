import HeaderBridge.Command.Help
import HeaderBridge.Command.Highlight
import HeaderBridge.Files.Discovery
import HeaderBridge.Header
import HeaderBridge.Options.Reading
import HeaderBridge.Outline.Export

/-! # Sessions

What the program does, step by step: it prints, reports failures, reads files,
lists directories and asks the user, until it ends with a status. A session can be
carried out on a file tree and a typed input, which gives a transcript.
-/

namespace HeaderBridge

/-- The steps of a run of the program. -/
inductive Session where
  | finish (status : Nat)
  | print (text : String) (next : Session)
  | report (failure : Failure) (next : Session)
  /-- Says why a command line cannot be carried out. -/
  | complain (usage : Command.Usage) (next : Session)
  /-- Goes on with the text of a file, if it can be read. -/
  | read (path : String) (next : Option String → Session)
  /-- Goes on with all files below a path, if they can be listed. -/
  | list (search : Search) (root : String) (next : Option (List String) → Session)
  /-- Goes on with a line that the user types. -/
  | ask (next : String → Session)

namespace Session

/-- Goes on with a result, or reports the failure and ends. -/
def attempt {α : Type} (result : Except Failure α) (next : α → Session) : Session :=
  match result with
  | .ok a => next a
  | .error f => report f (finish 1)

def readOr (path : String) (next : String → Session) : Session :=
  read path fun
    | some text => next text
    | none => report (.unreadable path) (finish 1)

def boldLine (colour : Colour) (text : String) : Segment :=
  { style := some ⟨colour, true⟩, text := text ++ "\n" }

def printSegments (colours : Bool) (segments : List Segment) (next : Session) : Session :=
  print (Segment.renderAll colours segments) next

/-- How files are converted and shown. -/
structure Display where
  policy : Declaration.Policy
  colours : Bool
  /-- Whether each file is announced. -/
  banners : Bool

def Display.banner (d : Display) (colour : Colour) (text : String) : List Segment :=
  if d.banners then [boldLine colour ("// ---- " ++ text ++ " ----")] else []

/-- The segments of a source text; it is cut up only to be coloured. -/
def Display.source (d : Display) (swift : String) : List Segment :=
  if d.colours then Highlight.source swift else [{ text := swift }]

def convertText (d : Display) (path : String) : Option String → Except Failure String
  | none => .error (.unreadable path)
  | some text => Header.convert d.policy text

/-- Converts files one after the other; `failures` counts those that failed. -/
def convertAll (d : Display) (failures : Nat) : List String → Session
  | [] => if failures = 0 then finish 0 else report (.conversion failures) (finish 1)
  | path :: paths =>
    read path fun text =>
      match convertText d path text with
      | .ok swift =>
        printSegments d.colours (d.banner .yellow path ++ d.source swift)
          (convertAll d failures paths)
      | .error f =>
        printSegments d.colours (d.banner .red (path ++ " (failed)"))
          (report f (convertAll d (failures + 1) paths))

def convertFiles (o : Options) (terminal : Bool) (paths : List String) : Session :=
  convertAll ⟨o.policy, o.coloured terminal, paths.length > 1⟩ 0 paths

def foundSegments (files : List String) : List Segment :=
  boldLine .cyan ("Found " ++ toString files.length ++ " file(s):")
    :: files.map fun f => { text := "  " ++ f ++ "\n" }

def isYes (answer : String) : Bool := Text.trim answer ∈ ["y", "Y", "yes"]

def convertBelow (o : Options) (terminal : Bool) (root : String) (skipConfirm : Bool) : Session :=
  attempt (Search.ofOptions o) fun search =>
    list search root fun listed =>
      attempt (search.select root listed) fun files =>
        printSegments (o.coloured terminal) (foundSegments files)
          (if files.isEmpty then finish 0
          else if skipConfirm then convertFiles o terminal files
          else
            print "Convert these files? [y/N] " (ask fun answer =>
              if isYes answer then convertFiles o terminal files
              else print "Cancelled.\n" (finish 0)))

def showOutline (path : String) (json : Bool) : Session :=
  readOr path fun text =>
    attempt (Header.outline text) fun outline =>
      let shown := if json then outline.toJson.pretty else outline.pretty
      print (Text.trimEnd shown ++ "\n") (finish 0)

def ownershipName : Ownership → String
  | .strong => "Strong"
  | .weak => "Weak"
  | .unownedUnsafe => "UnownedUnsafe"
  | .autoreleasing => "Autoreleasing"

def typeLines (o : Options) (t : DeclaredType) : String :=
  let lowered := Lowering.lower { audited := o.assumeNonnull } t
  "objc:  " ++ t.spelling ++ "\nswift: " ++ lowered.type.render ++ "\n"
    ++ lowered.ownership.elim "" fun w => "ownership: " ++ ownershipName w ++ "\n"

def showType (o : Options) (spelling : String) : Session :=
  match DeclaredType.read spelling with
  | some t => print (typeLines o t) (finish 0)
  | none => report (.invalidType spelling) (finish 1)

def ofRequest (o : Options) (terminal : Bool) : Command.Request → Session
  | .files paths => convertFiles o terminal paths
  | .path root _ _ skipConfirm => convertBelow o terminal root skipConfirm
  | .ast path json => showOutline path json
  | .type spelling => showType o spelling

def ofInvocation (terminal : Bool) (i : Command.Invocation) : Session :=
  match i.config with
  | none => ofRequest (i.applyTo {}) terminal i.request
  | some path =>
    readOr path fun text =>
      attempt (Options.read text) fun o => ofRequest (i.applyTo o) terminal i.request

def ofWords (terminal : Bool) (words : List String) : Session :=
  match Command.parse words with
  | .ok i => ofInvocation terminal i
  | .error (.help verb) => print (Command.helpText verb) (finish 0)
  | .error .version => print (Command.versionLine ++ "\n") (finish 0)
  | .error u => complain u (finish 2)

/-- What is left of a session that has been carried out. -/
structure Transcript where
  status : Nat
  output : String := ""
  failures : List Failure := []

def splitLine (input : List Char) : String × List Char :=
  let line := input.takeWhile (· ≠ '\n')
  (.ofList line, (input.drop line.length).tail)

/-- Carries out a session on a file tree, with the lines that the user types. -/
def perform (t : FileTree) (input : List Char) : Session → Transcript
  | finish status => { status }
  | print text next =>
    let r := next.perform t input
    { r with output := text ++ r.output }
  | report failure next =>
    let r := next.perform t input
    { r with failures := failure :: r.failures }
  | complain _ next => next.perform t input
  | read path next => (next (t.readText? path)).perform t input
  | list search root next => (next (search.filesBelow t root)).perform t input
  | ask next =>
    let (line, rest) := splitLine input
    (next line).perform t rest

end Session

end HeaderBridge
