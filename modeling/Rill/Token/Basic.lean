import Rill.Source.Span

/-!
# Tokens

A token keeps the text it was read from beside its kind and span, so nothing
that works on tokens has to go back to the source.
-/

namespace Rill

inductive Keyword where
  | fnWord
  | letWord
  | ifWord
  | elseWord
  | whileWord
  | returnWord
  deriving DecidableEq, Repr

namespace Keyword

def spelling : Keyword → String
  | .fnWord => "fn"
  | .letWord => "let"
  | .ifWord => "if"
  | .elseWord => "else"
  | .whileWord => "while"
  | .returnWord => "return"

def all : List Keyword := [.fnWord, .letWord, .ifWord, .elseWord, .whileWord, .returnWord]

def ofSpelling? (word : String) : Option Keyword :=
  all.find? (·.spelling == word)

end Keyword

/-- Marks of one or two characters: brackets, separators and operators. -/
inductive Mark where
  | openParen
  | closeParen
  | openBrace
  | closeBrace
  | semicolon
  | comma
  | colon
  | arrow
  | bang
  | minus
  | plus
  | star
  | slash
  | percent
  | andAnd
  | orOr
  | equalEqual
  | bangEqual
  | less
  | lessEqual
  | greater
  | greaterEqual
  | equal
  deriving DecidableEq, Repr

namespace Mark

def spelling : Mark → String
  | .openParen => "("
  | .closeParen => ")"
  | .openBrace => "\x7b"
  | .closeBrace => "\x7d"
  | .semicolon => ";"
  | .comma => ","
  | .colon => ":"
  | .arrow => "->"
  | .bang => "!"
  | .minus => "-"
  | .plus => "+"
  | .star => "*"
  | .slash => "/"
  | .percent => "%"
  | .andAnd => "&&"
  | .orOr => "||"
  | .equalEqual => "=="
  | .bangEqual => "!="
  | .less => "<"
  | .lessEqual => "<="
  | .greater => ">"
  | .greaterEqual => ">="
  | .equal => "="

/-- The mark written with two characters. -/
def ofPair? : Char → Char → Option Mark
  | '-', '>' => some .arrow
  | '&', '&' => some .andAnd
  | '|', '|' => some .orOr
  | '=', '=' => some .equalEqual
  | '!', '=' => some .bangEqual
  | '<', '=' => some .lessEqual
  | '>', '=' => some .greaterEqual
  | _, _ => none

/-- The mark written with a single character. -/
def ofChar? : Char → Option Mark
  | '(' => some .openParen
  | ')' => some .closeParen
  | '\x7b' => some .openBrace
  | '\x7d' => some .closeBrace
  | ';' => some .semicolon
  | ',' => some .comma
  | ':' => some .colon
  | '!' => some .bang
  | '-' => some .minus
  | '+' => some .plus
  | '*' => some .star
  | '/' => some .slash
  | '%' => some .percent
  | '<' => some .less
  | '>' => some .greater
  | '=' => some .equal
  | _ => none

/-- How a message names a mark that it wants. Operators with a name go by it, all other marks by
their spelling. -/
def describe : Mark → String
  | .bang => "Bang"
  | .minus => "Minus"
  | .plus => "Plus"
  | .star => "Asterisk"
  | .slash => "Divide"
  | .percent => "Modulus"
  | .equalEqual => "DoubleEquals"
  | .bangEqual => "NotEquals"
  | .less => "LessThan"
  | .lessEqual => "LessThanOrEqualTo"
  | .greater => "GreaterThan"
  | .greaterEqual => "GreaterThanOrEqualTo"
  | m => "`" ++ m.spelling ++ "`"

end Mark

inductive TokenKind where
  | keyword (word : Keyword)
  | identifier
  | boolean
  | integer
  | decimal
  | string
  | mark (mark : Mark)
  deriving DecidableEq, Repr

/-- How a message names a token that it wants. -/
def TokenKind.describe : TokenKind → String
  | .keyword word => "`" ++ word.spelling ++ "` keyword"
  | .identifier => "identifier"
  | .boolean => "BooleanLiteral"
  | .integer => "IntegerLiteral"
  | .decimal => "FloatLiteral"
  | .string => "StringLiteral"
  | .mark m => m.describe

structure Token where
  kind : TokenKind
  text : String
  span : Span
  deriving DecidableEq, Repr

end Rill
