/-!
# Coloured text

Every printer takes an `Ink`. Plain ink leaves text as it is; terminal ink
wraps a painted piece in escape sequences. A piece that already holds resets
takes its own colour up again after each of them.
-/

namespace Rill

inductive Color where
  | red
  | yellow
  | blue
  | magenta
  | cyan
  | white
  | brightRed
  | dim
  deriving DecidableEq, Repr

/-- The number that selects the colour in an escape sequence. -/
def Color.code : Color → String
  | .red => "31"
  | .yellow => "33"
  | .blue => "34"
  | .magenta => "35"
  | .cyan => "36"
  | .white => "37"
  | .brightRed => "91"
  | .dim => "2"

inductive Ink where
  | plain
  | terminal
  deriving DecidableEq, Repr, Inhabited

namespace Ink

/-- The sequence that ends every painted piece. -/
def reset : String := "\x1b[0m"

def paint (ink : Ink) (color : Color) (text : String) : String :=
  match ink with
  | .plain => text
  | .terminal =>
    let start := "\x1b[" ++ color.code ++ "m"
    start ++ text.replace reset (reset ++ start) ++ reset

@[simp] theorem paint_plain (color : Color) (text : String) :
    Ink.plain.paint color text = text := rfl

end Ink

end Rill
