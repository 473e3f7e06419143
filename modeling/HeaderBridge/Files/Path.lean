/-! # Paths

A path is a text whose components are parted by slashes. Empty components and
components that name the current directory have no meaning, but for one that
starts a relative path, which is kept as written.
-/

namespace HeaderBridge

namespace Path

inductive Component where
  /-- The top directory, at which an absolute path starts. -/
  | top
  /-- The current directory. -/
  | here
  /-- The directory above. -/
  | above
  | name (s : String)
  deriving DecidableEq

def parts (path : String) : List String := (path.toList.splitOn '/').map String.ofList

/-- The component that a text between slashes is, if it has a meaning. -/
def component? : String → Option Component
  | "" | "." => none
  | ".." => some .above
  | s => some (.name s)

def components (path : String) : List Component :=
  match parts path with
  | [] => []
  | first :: rest =>
    let start :=
      if first = "" then (if rest.isEmpty then [] else [Component.top])
      else if first = "." then [.here]
      else (component? first).toList
    start ++ rest.filterMap component?

def fileName? (path : String) : Option String :=
  match (components path).getLast? with
  | some (.name s) => some s
  | _ => none

/-- The part of a path's file name after the last dot. A dot at the start of the
name does not count. -/
def extension? (path : String) : Option String := do
  let reversed := (← fileName? path).toList.reverse
  let ext := reversed.takeWhile (· ≠ '.')
  match reversed.drop ext.length with
  | '.' :: _ :: _ => some (.ofList ext.reverse)
  | _ => none

def join (directory name : String) : String :=
  if directory.isEmpty || directory.toList.getLast? = some '/' then directory ++ name
  else directory ++ "/" ++ name

end Path

end HeaderBridge
