/-! # Styled text

Text for a terminal is a list of segments, each plain or in a colour. With colours
off a segment is its text; with colours on it stands between the escape sequences
that set and reset its style.
-/

namespace HeaderBridge

inductive Colour where
  | red | green | yellow | magenta | cyan
  deriving DecidableEq

def Colour.number : Colour → String
  | red => "1"
  | green => "2"
  | yellow => "3"
  | magenta => "5"
  | cyan => "6"

structure Style where
  colour : Colour
  bold : Bool := false
  deriving DecidableEq

namespace Style

def reset : String := "\x1b[0m"

def set (s : Style) : String :=
  reset ++ (if s.bold then "\x1b[1m" else "") ++ "\x1b[3" ++ s.colour.number ++ "m"

end Style

/-- A piece of text in one style. -/
structure Segment where
  style : Option Style := none
  text : String
  deriving DecidableEq

namespace Segment

def render (colours : Bool) (s : Segment) : String :=
  match s.style with
  | some style => if colours then style.set ++ s.text ++ Style.reset else s.text
  | none => s.text

def renderAll (colours : Bool) (ss : List Segment) : String := .join (ss.map (render colours))

@[simp] theorem render_false (s : Segment) : s.render false = s.text := by
  cases h : s.style <;> simp [render, h]

end Segment

end HeaderBridge
