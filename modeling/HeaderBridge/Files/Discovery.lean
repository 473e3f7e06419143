import HeaderBridge.Failure
import HeaderBridge.Files.Order
import HeaderBridge.Files.Tree
import HeaderBridge.Options.Basic
import HeaderBridge.Pattern.Reading

/-! # Finding files

All Objective-C files below a path, in the order of files. A search may be
limited to paths that match one pattern and do not match another, and may go
through symbolic links.
-/

namespace HeaderBridge

structure Search where
  includes : Option Pattern := none
  excludes : Option Pattern := none
  followLinks : Bool := false

namespace Search

def readPattern (s : String) : Except Failure Pattern :=
  match Pattern.read? s with
  | some p => .ok p
  | none => .error (.pattern s)

def ofOptions (o : Options) : Except Failure Search := do
  let includes ← o.includePattern.mapM readPattern
  let excludes ← o.excludePattern.mapM readPattern
  return { includes, excludes, followLinks := o.followLinks }

/-- Whether a path is to be kept. A path that is excluded is not kept even if it
is included too. -/
def keeps (s : Search) (path : String) : Bool :=
  !s.excludes.any (·.occursIn path) && s.includes.all (·.occursIn path)

def extensions : List String := ["h", "m"]

def isSource (path : String) : Bool := (Path.extension? path).any (· ∈ extensions)

/-- What a walk does at an entry. -/
inductive Visit where
  | keep | enter | skip
  /-- See what the link leads to. -/
  | follow

/-- At the root of a walk a link is followed in any case. -/
def visit (s : Search) (atRoot : Bool) : FileKind → Visit
  | .file => .keep
  | .directory => .enter
  | .link => if s.followLinks || atRoot then .follow else .skip
  | .other => .skip

/-- What a walk does at the end of a link. It fails at a directory above the link, and a link at
the root is only followed to a directory if links are not followed. -/
def visitTarget (s : Search) (isAbove : Bool) : FileKind → Option Visit
  | .directory => if isAbove then none else some .enter
  | .file => some (if s.followLinks then .keep else .skip)
  | _ => some .skip

/-- All files that a tree entry leads to, by their paths; `above` are the places
of the directories on the way. The walk fails at a link that leads nowhere or to
a directory above it. -/
def walk (s : Search) (t : FileTree) :
    Nat → List Place → String → Place → FileEntry → Option (List String)
  | 0, _, _, _, _ => none
  | fuel + 1, above, path, place, entry => do
    let filesIn (place : Place) (entries : List (String × FileEntry)) : Option (List String) := do
      let found ← entries.mapM fun (name, e) =>
        walk s t fuel (place :: above) (Path.join path name) (name :: place) e
      return found.flatten
    match s.visit above.isEmpty entry.kind with
    | .keep => some [path]
    | .enter => filesIn place entry.children
    | .skip => some []
    | .follow =>
      let (target, e) ← t.resolve true path
      match ← s.visitTarget (target ∈ above) e.kind with
      | .keep => some [path]
      | .enter => filesIn target e.children
      | _ => some []

def filesBelow (s : Search) (t : FileTree) (root : String) : Option (List String) := do
  let fuel := 2 * (t.top.size + 1) * (t.top.size + 1)
  let (place, entry) ← t.resolve false root
  s.walk t fuel [] root place entry

/-- The files to keep among all those below a path, in order. -/
def select (s : Search) (root : String) : Option (List String) → Except Failure (List String)
  | none => .error (.walk root)
  | some files => .ok (FileOrder.sort (files.filter fun f => isSource f && s.keeps f))

def discover (s : Search) (t : FileTree) (root : String) : Except Failure (List String) :=
  s.select root (s.filesBelow t root)

end Search

end HeaderBridge
