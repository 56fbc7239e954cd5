import Rill.Token.Basic

/-!
# Errors of reading a source

Reading stops at the first error. An error is a cause at a span; its wording is
decided here and nowhere else.
-/

namespace Rill

/-- What the reader was waiting for. -/
inductive Expectation where
  | token (kind : TokenKind)
  | type
  | statement
  | statementOrBrace
  | expression
  deriving DecidableEq, Repr

def Expectation.describe : Expectation → String
  | .token kind => kind.describe
  | .type => "type"
  | .statement => "statement"
  | .statementOrBrace => "statement or closing brace"
  | .expression => "expression"

inductive ParseCause where
  | lineEndsInString
  | fileEndsInString
  | strayCharacter (c : Char)
  | notAFunction (found : String)
  | endOfFile (wanted : Expectation)
  | unexpected (wanted : Expectation) (found : String)
  | unknownType (name : String)
  | integerTooLarge
  deriving DecidableEq, Repr

def ParseCause.message : ParseCause → String
  | .lineEndsInString => "Reached end of line while reading string literal"
  | .fileEndsInString => "Reached end of file while reading string literal"
  | .strayCharacter c => "Unexpected character in stream: `" ++ c.toString ++ "`"
  | .notAFunction found => "Expected function definition in module but found: " ++ found
  | .endOfFile wanted => "Expected " ++ wanted.describe ++ " but reached end of file"
  | .unexpected wanted found =>
    "Expected " ++ wanted.describe ++ " but found `" ++ found ++ "`"
  | .unknownType name => "Unknown type `" ++ name ++ "`"
  | .integerTooLarge => "Integer literal does not fit in 64 bits"

structure ParseError where
  cause : ParseCause
  span : Span
  deriving DecidableEq, Repr

def ParseError.message (error : ParseError) : String :=
  error.cause.message

end Rill
