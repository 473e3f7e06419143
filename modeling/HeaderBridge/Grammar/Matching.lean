import HeaderBridge.Grammar.Furthest
import HeaderBridge.Grammar.Header
import HeaderBridge.Grammar.Tree

/-! # Matching text against the grammar

Expressions are evaluated by recursion on their structure, and calls of rules by
recursion on a bound on the depth of calls. `parse` takes a bound that the
length of the text makes sufficient: a rule calls itself again only after it has
consumed a character.
-/

namespace HeaderBridge.Grammar

/-- A place in the text: what is left of it, and how many bytes came before. -/
structure Cursor where
  rest : List Char
  offset : Nat
  deriving DecidableEq

def takeBytes : Nat → List Char → List Char
  | _, [] => []
  | n, c :: cs => if n = 0 then [] else c :: takeBytes (n - c.utf8Size) cs

def dropBytes : Nat → List Char → List Char
  | _, [] => []
  | n, c :: cs => if n = 0 then c :: cs else dropBytes (n - c.utf8Size) cs

namespace Cursor

def ofText (s : String) : Cursor := ⟨s.toList, 0⟩

def textTo (a b : Cursor) : String :=
  String.ofList (takeBytes (b.offset - a.offset) a.rest)

def skip? : List Char → Cursor → Option Cursor
  | [], c => some c
  | a :: as, ⟨b :: bs, p⟩ => if a = b then skip? as ⟨bs, p + b.utf8Size⟩ else none
  | _ :: _, ⟨[], _⟩ => none

def step? (cls : CharClass) : Cursor → Option Cursor
  | ⟨b :: bs, p⟩ => if cls.contains b then some ⟨bs, p + b.utf8Size⟩ else none
  | ⟨[], _⟩ => none

end Cursor

inductive Outcome where
  | matched (after : Cursor) (nodes : List Node) (failure : Furthest)
  | failed (failure : Furthest)
  /-- The bound was too small to tell. -/
  | exhausted
  deriving Inhabited

/-- Whether blanks may stand between the parts of a sequence. -/
inductive Mode where
  | spaced | tight
  deriving DecidableEq

/-- How an expression is matched, given the furthest failure so far. -/
abbrev Matcher := Cursor → Furthest → Outcome

namespace Matcher

/-- A match that leaves no node and notes no failure. -/
def ofStep (step : Cursor → Option Cursor) : Matcher := fun c f =>
  match step c with
  | some c' => .matched c' [] f
  | none => .failed f

def andThen (a b : Matcher) : Matcher := fun c f =>
  match a c f with
  | .matched c₁ ns₁ f₁ =>
    match b c₁ f₁ with
    | .matched c₂ ns₂ f₂ => .matched c₂ (ns₁ ++ ns₂) f₂
    | .failed f₂ => .failed f₂
    | .exhausted => .exhausted
  | .failed f₁ => .failed f₁
  | .exhausted => .exhausted

/-- The second match from the same place if the first fails. -/
def orElse (a b : Matcher) : Matcher := fun c f =>
  match a c f with
  | .failed f₁ => b c f₁
  | r => r

def opt (a : Matcher) : Matcher := fun c f =>
  match a c f with
  | .failed f₁ => .matched c [] f₁
  | r => r

/-- Rounds of a match until it fails, for at most the given number of rounds. -/
def rounds (a : Matcher) : Nat → List Node → Matcher
  | 0, _, _, _ => .exhausted
  | n + 1, ns, c, f =>
    match a c f with
    | .matched c₁ ns₁ f₁ => rounds a n (ns ++ ns₁) c₁ f₁
    | .failed f₁ => .matched c ns f₁
    | .exhausted => .exhausted

/-- A first round, and then further rounds that each begin with a gap. -/
def many (gap a : Matcher) (n : Nat) : Matcher := fun c f =>
  match a c f with
  | .matched c₁ ns₁ f₁ => rounds (gap.andThen a) n ns₁ c₁ f₁
  | .failed f₁ => .matched c [] f₁
  | .exhausted => .exhausted

/-- Success exactly where the match fails; it consumes and notes nothing. -/
def notAhead (a : Matcher) : Matcher := fun c f =>
  match a c f with
  | .matched _ _ _ => .failed f
  | .failed _ => .matched c [] f
  | .exhausted => .exhausted

/-- A match of a rule that leaves a node over the nodes of its parts, and that is
named when it fails. -/
def named (r : Rule) (a : Matcher) : Matcher := fun c f =>
  match a c f with
  | .matched c₁ ns f₁ => .matched c₁ [.mk r c.offset (c.textTo c₁) ns] f₁
  | .failed f₁ => .failed (f.note f₁ r c.offset)
  | .exhausted => .exhausted

end Matcher

namespace Expr

/-- Match an expression, given how rules are matched and how many rounds a
repetition may take. Outside tokens, a gap may stand before the second part of a
sequence and before every round of a repetition but the first. -/
def eval (call : Mode → Rule → Matcher) (n : Nat) (mode : Mode) : Expr → Matcher
  | literal cs => .ofStep (Cursor.skip? cs)
  | char cls => .ofStep (Cursor.step? cls)
  | start => .ofStep fun c => if c.offset = 0 then some c else none
  | finish => .ofStep fun c => if c.rest.isEmpty then some c else none
  | .call r => call mode r
  | seq a b => (eval call n mode a).andThen (between.andThen (eval call n mode b))
  | choice a b => (eval call n mode a).orElse (eval call n mode b)
  | opt a => (eval call n mode a).opt
  | many a => .many between (eval call n mode a) n
  | notAhead a => (eval call n mode a).notAhead
where
  /-- What may stand between two parts. -/
  between : Matcher := fun c f =>
    match mode with
    | .tight => .matched c [] f
    | .spaced =>
      Matcher.rounds ((call .tight .whitespace).orElse (call .tight .comment)) n [] c f

end Expr

/-- Match a rule, for calls nested at most as deep as the given bound. Inside a
token no rule leaves a node or is named as expected. -/
def Rule.run : Nat → Mode → Rule → Matcher
  | 0, _, _ => fun _ _ => .exhausted
  | n + 1, mode, r =>
    match r.kind, mode with
    | .branch, .spaced => .named r (r.body.eval (Rule.run n) n .spaced)
    | .token, .spaced => .named r (r.body.eval (Rule.run n) n .tight)
    | .group, .spaced => r.body.eval (Rule.run n) n .spaced
    | .blank, .spaced => r.body.eval (Rule.run n) n .tight
    | _, .tight => r.body.eval (Rule.run n) n .tight

/-- A bound on the depth of calls that a text of the given length can need. -/
def callBound (length : Nat) : Nat := (length + 1) * (Rule.all.length + 1)

def Rule.matchText (r : Rule) (text : String) : Outcome :=
  r.run (callBound text.length) .spaced (.ofText text) .start

/-- The nodes that a rule leaves at the start of a text, or the furthest failure. -/
def parse (r : Rule) (text : String) : Except Furthest (List Node) :=
  match r.matchText text with
  | .matched _ ns _ => .ok ns
  | .failed f => .error f
  | .exhausted => .error .start

end HeaderBridge.Grammar
