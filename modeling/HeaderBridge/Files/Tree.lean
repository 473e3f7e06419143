import HeaderBridge.Files.Path

/-! # File trees

A tree of directories, files and symbolic links, and what a path names in it.
-/

namespace HeaderBridge

/-- What a name in a directory stands for. -/
inductive FileEntry where
  | file (contents : ByteArray)
  | directory (entries : List (String × FileEntry))
  /-- A path, read from the directory in which the link stands. -/
  | link (target : String)

inductive FileKind where
  | file | directory | link
  /-- A pipe, a device or the like. -/
  | other
  deriving DecidableEq

/-- A place in a tree: the names on the way to it from the top, the last first. -/
abbrev Place := List String

namespace FileEntry

def child? (name : String) : FileEntry → Option FileEntry
  | directory entries => entries.lookup name
  | _ => none

def isDirectory : FileEntry → Bool
  | directory _ => true
  | _ => false

def children : FileEntry → List (String × FileEntry)
  | directory entries => entries
  | _ => []

def kind : FileEntry → FileKind
  | file _ => .file
  | directory _ => .directory
  | link _ => .link

def size : FileEntry → Nat
  | directory entries => sizes entries + 1
  | _ => 1
where
  /-- The number of entries in some trees. -/
  sizes : List (String × FileEntry) → Nat
    | [] => 0
    | (_, e) :: es => e.size + sizes es

def at? (top : FileEntry) : Place → Option FileEntry
  | [] => some top
  | name :: above => (top.at? above).bind (child? name)

def setChild (name : String) (e : FileEntry) : List (String × FileEntry) → List (String × FileEntry)
  | [] => [(name, e)]
  | (n, old) :: es => if n = name then (n, e) :: es else (n, old) :: setChild name e es

/-- The tree with an entry at the end of a way from its top; directories are made
where there are none. -/
def put (new : FileEntry) : List String → FileEntry → FileEntry
  | [], old =>
    match new, old with
    | directory [], directory es => directory es
    | new, _ => new
  | name :: way, old =>
    let entries := match old with
      | directory es => es
      | _ => []
    directory (setChild name (put new way ((entries.lookup name).getD (directory []))) entries)

end FileEntry

/-- A tree with a working directory, from which relative paths are read. -/
structure FileTree where
  top : FileEntry := .directory []
  work : Place := []

namespace FileTree

/-- The number of symbolic links that are followed to find what a path names. -/
def maxLinks : Nat := 40

def isAbsolute (path : String) : Bool := path.toList.head? = some '/'

/-- The entry at the end of a way, with its place. Links on the way are followed;
one at its end only if asked for. -/
def follow (t : FileTree) (final : Bool) (links : Nat) (place : Place) (way : List String) :
    Option (Place × FileEntry) :=
  match way with
  | [] => (t.top.at? place).map fun e => (place, e)
  | name :: rest => do
    let entry ← t.top.at? place
    if !entry.isDirectory then none
    else if name = "" || name = "." then t.follow final links place rest
    else if name = ".." then t.follow final links place.tail rest
    else
      match ← entry.child? name, links with
      | .link target, links + 1 =>
        if rest.isEmpty && !final then return (name :: place, .link target)
        else if target.isEmpty then none
        else
          t.follow final links (if isAbsolute target then [] else place)
            (Path.parts target ++ rest)
      | .link target, 0 =>
        if rest.isEmpty && !final then return (name :: place, .link target) else none
      | _, links => t.follow final links (name :: place) rest
termination_by (links, way.length)

/-- What a path names. A link at its end is followed if asked for. -/
def resolve (t : FileTree) (final : Bool) (path : String) : Option (Place × FileEntry) :=
  if path.isEmpty then none
  else t.follow final maxLinks (if isAbsolute path then [] else t.work) (Path.parts path)

def readText? (t : FileTree) (path : String) : Option String :=
  match t.resolve true path with
  | some (_, .file contents) => String.fromUTF8? contents
  | _ => none

def set (t : FileTree) (place : Place) (e : FileEntry) : FileTree :=
  { t with top := .put e place.reverse t.top }

/-- The tree with an entry at the end of a way from a place. Links on the way are
followed, and directories are made where there are none. -/
def putFrom (t : FileTree) (e : FileEntry) (place : Place) : List String → FileTree
  | [] => t
  | ".." :: way => t.putFrom e place.tail way
  | [name] => t.set (name :: place) e
  | name :: way =>
    match t.follow true maxLinks place [name] with
    | some (inside, .directory _) => t.putFrom e inside way
    | _ => (t.set (name :: place) (.directory [])).putFrom e (name :: place) way

def put (t : FileTree) (path : String) (e : FileEntry) : FileTree :=
  t.putFrom e (if isAbsolute path then [] else t.work)
    ((Path.parts path).filter fun n => n ≠ "" && n ≠ ".")

end FileTree

end HeaderBridge
