import Rill.Source.Span
import Rill.Text.Ink

/-!
# Source texts and places in them

Places are byte offsets. An offset is usable only where a character starts or
the text ends, so every operation that cuts the text there answers with an
`Option`: `none` means that the offset falls inside a character or outside the
text. Rows, columns and underlines first pull an offset back to the end of the
text. Columns and underlines count bytes.
-/

namespace Rill

/-- Bytes that the characters take in UTF-8. -/
def byteLength : List Char → Nat
  | [] => 0
  | c :: cs => c.utf8Size + byteLength cs

@[simp] theorem byteLength_nil : byteLength [] = 0 := rfl

@[simp] theorem byteLength_cons (c : Char) (cs : List Char) :
    byteLength (c :: cs) = c.utf8Size + byteLength cs := rfl

@[simp] theorem byteLength_append (as bs : List Char) :
    byteLength (as ++ bs) = byteLength as + byteLength bs := by
  induction as with
  | nil => simp
  | cons a as ih => simp [ih, Nat.add_assoc]

/-- Cuts the characters at a byte offset, if a character starts or the text ends there. -/
def cutAt? : List Char → Nat → Option (List Char × List Char)
  | cs, 0 => some ([], cs)
  | [], _ + 1 => none
  | c :: cs, n + 1 =>
    if c.utf8Size ≤ n + 1 then
      (cutAt? cs (n + 1 - c.utf8Size)).map fun (head, tail) => (c :: head, tail)
    else
      none

inductive Origin where
  | memory
  | file (path : String)
  deriving DecidableEq, Repr, Inhabited

def Origin.render : Origin → String
  | .memory => "<memory>"
  | .file path => path

structure Source where
  text : String
  origin : Origin := .memory
  deriving DecidableEq, Repr, Inhabited

namespace Source

/-- The size of the text in bytes. -/
def size (source : Source) : Nat :=
  byteLength source.text.toList

/-- The text under a span. -/
def slice? (source : Source) (span : Span) : Option String :=
  if span.start ≤ span.stop then do
    let (_, tail) ← cutAt? source.text.toList span.start
    let (piece, _) ← cutAt? tail (span.stop - span.start)
    return String.ofList piece
  else
    none

/-- What comes before and after an offset pulled back to the end of the text. -/
def cut? (source : Source) (offset : Nat) : Option (List Char × List Char) :=
  cutAt? source.text.toList (min offset source.size)

/-- The part of the last line that the characters hold. -/
def lastLine (cs : List Char) : List Char :=
  (cs.reverse.takeWhile (· != '\n')).reverse

/-- The part of the first line that the characters hold, without its line feed. -/
def firstLine (cs : List Char) : List Char :=
  cs.takeWhile (· != '\n')

/-- One-based number of the line that holds the offset. -/
def row? (source : Source) (offset : Nat) : Option Nat := do
  let (before, _) ← source.cut? offset
  return before.count '\n' + 1

/-- One-based column of the offset in its line, counted in bytes. -/
def column? (source : Source) (offset : Nat) : Option Nat := do
  let (before, _) ← source.cut? offset
  return byteLength (lastLine before) + 1

/-- The origin, row and column of the start of a span. -/
def position? (source : Source) (span : Span) : Option String := do
  let row ← source.row? span.start
  let column ← source.column? span.start
  return source.origin.render ++ ":" ++ toString row ++ ":" ++ toString column

/-- The line that holds the start of a span, with the spanned bytes of that line underlined.
An underline has at least one caret. -/
def highlight? (ink : Ink) (source : Source) (span : Span) : Option String := do
  let start := min span.start source.size
  let (before, after) ← source.cut? span.start
  let head := lastLine before
  let tail := firstLine after
  let row := toString (before.count '\n' + 1)
  let gutter := "".pushn ' ' row.length
  let bar := ink.paint .blue "|"
  let width := max 1 (min span.stop (start + byteLength tail) - start)
  return gutter ++ " " ++ bar ++ "\n"
    ++ ink.paint .blue row ++ " " ++ bar ++ " " ++ String.ofList (head ++ tail) ++ "\n"
    ++ gutter ++ " " ++ bar ++ " " ++ "".pushn ' ' (byteLength head)
    ++ ink.paint .red ("".pushn '^' width)

end Source

end Rill
