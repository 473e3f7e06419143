import HeaderBridge.Declaration.OfOutline
import HeaderBridge.Declaration.Source
import HeaderBridge.Failure
import HeaderBridge.Outline.OfTree

/-! # Converting a header

From the text of a header to its parse tree, its outline, its declarations and
the Swift source that declares the same.
-/

namespace HeaderBridge.Header

def parse (text : String) : Except Failure Grammar.Node :=
  match Grammar.parse .translationUnit text with
  | .ok (tree :: _) => .ok tree
  | .ok [] => .error (.malformed .start (Failure.malformedHelp text 0))
  | .error furthest =>
    .error (.malformed furthest (Failure.malformedHelp text furthest.offset))

/-- The outline of a header whose types are nested at most as deep as given. -/
def outlineWithin (maxDepth : Nat) (text : String) : Except Failure Outline := do
  match Outline.ofTree maxDepth (← parse text) with
  | .ok o => return o
  | .error f => throw (.fault f)

def outline (text : String) : Except Failure Outline :=
  outlineWithin DeclaredType.defaultMaxDepth text

def convert (policy : Declaration.Policy) (text : String) : Except Failure String := do
  return Declaration.source (Declaration.ofOutline policy (← outline text))

end HeaderBridge.Header
