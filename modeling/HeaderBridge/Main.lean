import HeaderBridge.Command.Session

/-! # The program

Carries out sessions on the file system and the terminal.
-/

namespace HeaderBridge.Program

/-- The text of a file, if it can be read and is in UTF-8. -/
def readText? (path : String) : IO (Option String) :=
  try return String.fromUTF8? (← IO.FS.readBinFile path)
  catch _ => return none

def kindOf : IO.FS.FileType → FileKind
  | .file => .file
  | .dir => .directory
  | .symlink => .link
  | .other => .other

/-- All files below a path; `above` are the directories on the way, by their real
paths. -/
partial def filesBelow (search : Search) (above : List String) (path : String) :
    IO (List String) := do
  let file := (← IO.currentDir) / path
  let filesIn : IO (List String) := do
    let real := toString (← IO.FS.realPath file)
    let found ← (← file.readDir).toList.mapM fun e =>
      filesBelow search (real :: above) (Path.join path e.fileName)
    return found.flatten
  match search.visit above.isEmpty (kindOf (← file.symlinkMetadata).type) with
  | .keep => return [path]
  | .enter => filesIn
  | .skip => return []
  | .follow =>
    let isAbove := toString (← IO.FS.realPath file) ∈ above
    match search.visitTarget isAbove (kindOf (← file.metadata).type) with
    | none => throw (IO.userError ("a link leads above itself: " ++ path))
    | some .keep => return [path]
    | some .enter => filesIn
    | some _ => return []

def list? (search : Search) (root : String) : IO (Option (List String)) :=
  if root.isEmpty then return none
  else
    try return some (← filesBelow search [] root)
    catch _ => return none

def report (f : Failure) : IO Unit := do
  IO.eprintln ("Error: " ++ f.code ++ "\n\n  × " ++ f.message)
  if let some help := f.help? then IO.eprintln ("  help: " ++ help)

def carryOut : Session → IO Nat
  | .finish status => return status
  | .print text next => do
    IO.print text
    carryOut next
  | .report failure next => do
    (← IO.getStdout).flush
    report failure
    carryOut next
  | .complain usage next => do
    IO.eprintln usage.message
    carryOut next
  | .read path next => do carryOut (next (← readText? path))
  | .list search root next => do carryOut (next (← list? search root))
  | .ask next => do
    (← IO.getStdout).flush
    carryOut (next (← (← IO.getStdin).getLine))

end HeaderBridge.Program

def main (words : List String) : IO UInt32 := do
  let terminal ← (← IO.getStdout).isTty
  return (← HeaderBridge.Program.carryOut (HeaderBridge.Session.ofWords terminal words)).toUInt32
