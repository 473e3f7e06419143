import HeaderBridge.Files.Path

/-! # The order of files

Files are listed by name, and files of one name by path. In names, runs of digits
are compared by the number that they write, so that `File2.h` comes before
`File10.h`.
-/

namespace HeaderBridge

namespace FileOrder

def compareChars (a b : Char) : Ordering := compare a.toNat b.toNat

/-- A run of digits without leading zeros. -/
def significant (digits : List Char) : List Char :=
  match digits.dropWhile (· = '0') with
  | [] => ['0']
  | ds => ds

/-- Compares runs of digits by the numbers that they write. -/
def compareRuns (a b : List Char) : Ordering :=
  let a := significant a
  let b := significant b
  (compare a.length b.length).then (List.compareLex compareChars a b)

/-- Compares names character by character, but runs of digits as numbers. -/
def compareNames : List Char → List Char → Ordering
  | [], [] => .eq
  | [], _ :: _ => .lt
  | _ :: _, [] => .gt
  | a :: as, b :: bs =>
    if a.isDigit && b.isDigit then
      match compareRuns (a :: as.takeWhile Char.isDigit) (b :: bs.takeWhile Char.isDigit) with
      | .eq => compareNames (as.dropWhile Char.isDigit) (bs.dropWhile Char.isDigit)
      | o => o
    else if a = b then compareNames as bs
    else compareChars a b
termination_by as => as.length
decreasing_by
  all_goals simp_wf
  · have := (List.dropWhile_sublist (l := as) Char.isDigit).length_le
    omega

def rank : Path.Component → Nat
  | .top => 0
  | .here => 1
  | .above => 2
  | .name _ => 3

/-- The text by which components of one kind are compared. -/
def label : Path.Component → List Char
  | .name s => s.toList
  | _ => []

/-- Compares components by kind, and names by their characters. -/
def compareComponents (a b : Path.Component) : Ordering :=
  (compare (rank a) (rank b)).then (List.compareLex compareChars (label a) (label b))

def comparePaths (a b : String) : Ordering :=
  List.compareLex compareComponents (Path.components a) (Path.components b)

/-- Compares files by name and then by path. -/
def compareFiles (a b : String) : Ordering :=
  let name (path : String) : List Char := ((Path.fileName? path).getD "").toList
  (compareNames (name a) (name b)).then (comparePaths a b)

def sort (files : List String) : List String :=
  files.mergeSort fun a b => (compareFiles a b).isLE

end FileOrder

end HeaderBridge
