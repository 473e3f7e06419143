import HeaderBridge.Grammar.Rule
import HeaderBridge.Outline.Kind

/-! # Misuse of an outline under construction

What can go wrong while nodes are added, opened and closed out of turn.
-/

namespace HeaderBridge.Outline

open Grammar (Rule)

inductive Target where
  /-- A new node with the given tag. -/
  | fresh (tag : Tag)
  /-- Always the same node. -/
  | existing (id : Nat)
  deriving DecidableEq

/-- The ways to misuse an outline under construction. -/
inductive Fault where
  | rootAsChild
  | alreadyAttached (child parent : Nat)
  | outOfRange (size index : Nat)
  | notCreatable (tag : Tag) (rule : Rule)
  | alreadyMapped (rule : Rule) (target : Target)
  | wrongTag (rule : Rule) (expected : Tag) (found : Option Tag)
  | wrongNode (rule : Rule) (expected : Nat) (found : Option Nat)
  | leftOpen (count : Nat)
  deriving DecidableEq

def nodeText (id : Nat) : String := "NodeId(" ++ toString id ++ ")"

def optionText {α : Type} (text : α → String) : Option α → String
  | some a => "Some(" ++ text a ++ ")"
  | none => "None"

def Target.text : Target → String
  | fresh tag => "Type(" ++ tag.name ++ ")"
  | existing id => "Instance(" ++ nodeText id ++ ")"

def Fault.message : Fault → String
  | rootAsChild => "the root node cannot become a child"
  | alreadyAttached child parent =>
    "node " ++ nodeText child ++ " is already attached to " ++ optionText nodeText (some parent)
  | outOfRange size index =>
    "index out of bounds: the len is " ++ toString size ++ " but the index is " ++ toString index
  | notCreatable tag rule =>
    tag.name ++ " nodes cannot be created from rule " ++ rule.name
  | alreadyMapped rule target =>
    "rule " ++ rule.name ++ " is already mapped to " ++ optionText Target.text (some target)
  | wrongTag rule expected found =>
    "exiting " ++ rule.name ++ ": expected a " ++ expected.name
      ++ " on top of the context stack, found " ++ optionText Tag.name found
  | wrongNode rule expected found =>
    "exiting " ++ rule.name ++ ": expected node " ++ nodeText expected
      ++ " on top of the context stack, found " ++ optionText nodeText found
  | leftOpen count =>
    "walk finished with " ++ toString count ++ " open context node(s)"

end HeaderBridge.Outline
