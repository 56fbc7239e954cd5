import Rill.ParseError
import Rill.Source.Basic

/-!
# Splitting a source into tokens

`scan` reads one token, or skips one run of blanks or one comment, from the
front of the remaining characters, and says what is left. Every step takes at
least one character, so `lex` ends by the length of the rest.
-/

namespace Rill.Lexer

/-- Space, tab, line feed, form feed and carriage return. -/
def isBlank (c : Char) : Bool :=
  c == ' ' || c == '\t' || c == '\n' || c == '\x0c' || c == '\r'

def isWordStart (c : Char) : Bool :=
  c.isAlpha || c == '_'

def isWordChar (c : Char) : Bool :=
  c.isAlphanum || c == '_'

def wordKind (word : String) : TokenKind :=
  match Keyword.ofSpelling? word with
  | some keyword => .keyword keyword
  | none => if word == "true" || word == "false" then .boolean else .identifier

/-- The kind of the number at the front and its text: digits, and a dot with further digits if a
digit follows the dot. -/
def number (cs : List Char) : TokenKind × List Char :=
  let whole := cs.takeWhile Char.isDigit
  match cs.dropWhile Char.isDigit with
  | '.' :: d :: rest =>
    if d.isDigit then (.decimal, whole ++ '.' :: (d :: rest).takeWhile Char.isDigit)
    else (.integer, whole)
  | _ => (.integer, whole)

inductive StringEnd where
  | closed
  | atLineEnd
  | atFileEnd
  deriving DecidableEq, Repr

/-- The characters of a string literal after its opening quote, up to and with the closing quote,
or up to where the line or the file ends. A quote right after a backslash does not close. -/
def stringTail : List Char → List Char × StringEnd
  | [] => ([], .atFileEnd)
  | '\n' :: _ => ([], .atLineEnd)
  | '"' :: _ => (['"'], .closed)
  | '\\' :: '"' :: rest =>
    let (text, ending) := stringTail rest
    ('\\' :: '"' :: text, ending)
  | c :: rest =>
    let (text, ending) := stringTail rest
    (c :: text, ending)

/-- What stands at the front of the remaining characters. -/
inductive Item where
  /-- Blanks or a comment. -/
  | skipped (text : List Char)
  | token (kind : TokenKind) (text : List Char)
  | failure (cause : ParseCause) (text : List Char)
  deriving DecidableEq, Repr

/-- Reads the item that begins with the character `c`. -/
def scan (c : Char) (rest : List Char) : Item :=
  if isBlank c then
    .skipped (c :: rest.takeWhile isBlank)
  else if c == '/' && rest.head? == some '/' then
    .skipped (c :: rest.takeWhile (· != '\n'))
  else if c == '"' then
    match stringTail rest with
    | (text, .closed) => .token .string (c :: text)
    | (text, .atLineEnd) => .failure .lineEndsInString (c :: text)
    | (text, .atFileEnd) => .failure .fileEndsInString (c :: text)
  else if c.isDigit then
    let (kind, text) := number (c :: rest)
    .token kind text
  else if isWordStart c then
    let text := c :: rest.takeWhile isWordChar
    .token (wordKind (String.ofList text)) text
  else
    match rest.head?.bind fun d => (Mark.ofPair? c d).map (·, d) with
    | some (mark, d) => .token (.mark mark) [c, d]
    | none =>
      match Mark.ofChar? c with
      | some mark => .token (.mark mark) [c]
      | none => .failure (.strayCharacter c) [c]

/-- The tokens of the characters that start at byte `offset`. -/
def lex (offset : Nat) (cs : List Char) : Except ParseError (List Token) :=
  match cs with
  | [] => .ok []
  | c :: rest =>
    match scan c rest with
    | .skipped text => lex (offset + byteLength text) (rest.drop (text.length - 1))
    | .token kind text => do
      let stop := offset + byteLength text
      let tokens ← lex stop (rest.drop (text.length - 1))
      return ⟨kind, String.ofList text, ⟨offset, stop⟩⟩ :: tokens
    | .failure cause text =>
      .error ⟨cause, ⟨offset, offset + byteLength text⟩⟩
termination_by cs.length
decreasing_by all_goals simp only [List.length_cons, List.length_drop]; omega

end Rill.Lexer

namespace Rill.Source

def tokens (source : Source) : Except ParseError (List Token) :=
  Lexer.lex 0 source.text.toList

end Rill.Source
