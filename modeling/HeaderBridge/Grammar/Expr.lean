import HeaderBridge.Grammar.Rule

/-! # Parsing expressions

A parsing expression describes a piece of text: a literal, one character of a
class, a call of a rule, or a combination of these by sequence, ordered choice,
greedy repetition and negative lookahead. Between the parts of a sequence, and
between the rounds of a repetition, blanks and comments may stand unless the
enclosing rule is a token.
-/

namespace HeaderBridge.Grammar

/-- Classes of single characters. All but `any` hold ASCII characters only. -/
inductive CharClass where
  | any | letter | upper | digit | letterOrDigit
  deriving DecidableEq

namespace CharClass

def contains : CharClass → Char → Bool
  | any, _ => true
  | letter, c => c.isAlpha
  | upper, c => c.isUpper
  | digit, c => c.isDigit
  | letterOrDigit, c => c.isAlphanum

end CharClass

/-- Parsing expressions over the rules of the header grammar. -/
inductive Expr where
  | literal (chars : List Char)
  | char (cls : CharClass)
  | start
  | finish
  | call (rule : Rule)
  | seq (first second : Expr)
  | choice (first second : Expr)
  | opt (body : Expr)
  | many (body : Expr)
  | notAhead (body : Expr)
  deriving DecidableEq

namespace Expr

instance : Append Expr := ⟨seq⟩

instance : OrElse Expr := ⟨fun a b => choice a (b ())⟩

def lit (s : String) : Expr := literal s.toList

/-- One round or more; the rounds after the first are a repetition. -/
def many1 (e : Expr) : Expr := seq e (many e)

def oneOf : String → List String → Expr
  | w, [] => lit w
  | w, v :: vs => choice (lit w) (oneOf v vs)

def newline : Expr := oneOf "\n" ["\r\n", "\r"]

def spaceOrTab : Expr := oneOf " " ["\t"]

/-- A word that does not go on with another identifier character. -/
def word (e : Expr) : Expr := seq e (notAhead (call .identChar))

@[simp] theorem append_eq_seq (a b : Expr) : a ++ b = seq a b := rfl

@[simp] theorem orElse_eq_choice (a b : Expr) : (a <|> b) = choice a b := rfl

end Expr

end HeaderBridge.Grammar
