import HeaderBridge.Outline.Basic

/-! # Outlines under construction

A draft is an outline together with the nodes that are open, innermost first. A
node that is opened is linked under the innermost open node; closing it leaves
the link in place.
-/

namespace HeaderBridge.Outline

/-- An outline and its open nodes, innermost first. -/
structure Draft where
  outline : Outline
  opened : List Nat

namespace Draft

def start : Draft := ⟨.empty, []⟩

/-- Open a node of the outline. It is linked under the innermost open node unless
it has its place already. -/
def openExisting (d : Draft) (id : Nat) : Except Fault Draft := do
  match d.opened with
  | [] => return { d with opened := [id] }
  | top :: _ =>
    if ← d.outline.isAttached id then return { d with opened := id :: d.opened }
    else return ⟨← d.outline.append top id, id :: d.opened⟩

def openNew (d : Draft) (e : Entry) : Except Fault (Nat × Draft) := do
  let (id, o) := d.outline.alloc e
  return (id, ← { d with outline := o }.openExisting id)

/-- Close the innermost open node; nothing happens if there is none. -/
def close (d : Draft) : Option Nat × Draft :=
  match d.opened with
  | [] => (none, d)
  | id :: rest => (some id, { d with opened := rest })

def current? (d : Draft) : Option Nat := d.opened.head?

/-- The innermost open node, if it has the given tag. -/
def currentWith? (d : Draft) (tag : Tag) : Except Fault (Option Nat) :=
  match d.opened with
  | [] => .ok none
  | id :: _ => do return if (← d.outline.get id).kind.tag = tag then some id else none

/-- Add a node under the innermost open one, without opening it; nothing is added
if none is open. -/
def addLeaf (d : Draft) (e : Entry) : Except Fault (Option Nat × Draft) :=
  match d.opened with
  | [] => .ok (none, d)
  | top :: _ => do
    let (id, o) ← d.outline.add top e
    return (some id, { d with outline := o })

end Draft

/-! ### Rules that open nodes -/

open Grammar (Rule)

/-- Which rules open which nodes, and for which of them this is switched off at
the moment, the latest first. -/
structure RuleMap where
  targets : List (Rule × Target) := []
  exceptions : List Rule := []

namespace RuleMap

/-- Map a rule that is not mapped yet. -/
def insert (m : RuleMap) (rule : Rule) (target : Target) : Except Fault RuleMap :=
  match m.targets.lookup rule with
  | some t => .error (.alreadyMapped rule t)
  | none => .ok { m with targets := (rule, target) :: m.targets }

/-- Map a rule to new nodes of a tag, which have to be creatable. -/
def mapFresh (m : RuleMap) (rule : Rule) (tag : Tag) : Except Fault RuleMap :=
  match tag.fresh? with
  | none => .error (.notCreatable tag rule)
  | some _ => m.insert rule (.fresh tag)

def mapExisting (m : RuleMap) (rule : Rule) (id : Nat) : Except Fault RuleMap :=
  m.insert rule (.existing id)

def suppress (m : RuleMap) (rule : Rule) : RuleMap :=
  { m with exceptions := rule :: m.exceptions }

def restore (m : RuleMap) : Option Rule × RuleMap :=
  match m.exceptions with
  | [] => (none, m)
  | rule :: rest => (some rule, { m with exceptions := rest })

def isSuppressed (m : RuleMap) (rule : Rule) : Bool := m.exceptions.contains rule

def target? (m : RuleMap) (rule : Rule) : Option Target :=
  if m.isSuppressed rule then none else m.targets.lookup rule

def registered (m : RuleMap) : List Rule := m.targets.map Prod.fst

def enter (m : RuleMap) (rule : Rule) (span : Option Span) (d : Draft) :
    Except Fault (Option Nat × Draft) :=
  match m.target? rule with
  | none => .ok (none, d)
  | some (.fresh tag) =>
    match tag.fresh? with
    | none => .ok (none, d)
    | some kind => do
      let (id, d) ← d.openNew { kind, span }
      return (some id, d)
  | some (.existing id) => do return (some id, ← d.openExisting id)

/-- Close the node that a rule is mapped to, which has to be the innermost one. -/
def leave (m : RuleMap) (rule : Rule) (d : Draft) : Except Fault Draft :=
  match m.target? rule with
  | none => .ok d
  | some (.fresh tag) =>
    match d.close with
    | (none, _) => .error (.wrongTag rule tag none)
    | (some id, d) => do
      let found := (← d.outline.get id).kind.tag
      if found = tag then return d else throw (.wrongTag rule tag (some found))
  | some (.existing id) =>
    match d.close with
    | (found, d) => if found = some id then .ok d else .error (.wrongNode rule id found)

end RuleMap

end HeaderBridge.Outline
