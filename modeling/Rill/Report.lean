import Rill.CompileError
import Rill.Fault
import Rill.ParseError
import Rill.Source.Basic

/-!
# Reports

A report says what is wrong, where, and shows the line. It needs a span that
starts at a character of the source, or at or after its end; any other span is
a fault.
-/

namespace Rill

def Source.report (ink : Ink) (source : Source) (message : String) (span : Span) :
    Except Fault String :=
  match source.position? span, source.highlight? ink span with
  | some position, some highlight =>
    .ok (ink.paint .red "error" ++ ": " ++ message ++ " "
      ++ ink.paint .white ("(at " ++ position ++ ")") ++ "\n" ++ highlight)
  | _, _ => .error .misplacedSpan

def ParseError.report (ink : Ink) (source : Source) (error : ParseError) : Except Fault String :=
  source.report ink error.message error.span

def CompileError.report (ink : Ink) (source : Source) (error : CompileError) :
    Except Fault String :=
  source.report ink error.message error.span

end Rill
