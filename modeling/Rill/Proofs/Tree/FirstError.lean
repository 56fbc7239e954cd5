import Rill.Proofs.Tree.Foreseen
import Rill.Proofs.Tree.Respanned

/-!
# Where parsing fails

A source that is not a module has a first token that no module has at its place, or it is the
beginning of a module and ends too early. The error of the parser tells which: it stands at that
token, or it is about the end of the file.

Modules are compared by the kinds and the texts of their tokens. Any tokens that are spelled
properly are those of some source, so it is enough to know what the parser makes of tokens.
-/

namespace Rill

/-- Some source has these tokens and is accepted. -/
def IsModule (contents : List (TokenKind × String)) : Prop :=
  ∃ (source : Source) (tokens : List Token) (m : Module), source.tokens = .ok tokens ∧
    tokens.map Token.content = contents ∧ source.parse = .ok m

/-- Some module begins with these tokens. -/
def BeginsModule (contents : List (TokenKind × String)) : Prop :=
  ∃ more, IsModule (contents ++ more)

theorem exists_content (contents : List (TokenKind × String)) :
    ∃ tokens : List Token, tokens.map Token.content = contents := by
  refine ⟨contents.map fun content => ⟨content.1, content.2, ⟨0, 0⟩⟩, ?_⟩
  rw [List.map_map]
  exact List.map_id contents

/-- Any tokens can be written down, with a blank behind each. -/
theorem exists_spaced (tokens : List Token) : ∃ text, Spaced tokens text := by
  induction tokens with
  | nil => exact ⟨[], .nil⟩
  | cons token tokens ih =>
      obtain ⟨text, spaced⟩ := ih
      have blank : ' ' ∈ [' ', '\t', '\n', '\x0c', '\r'] := by decide
      exact ⟨_, .cons token blank .nil spaced⟩

namespace Parser

variable {eof : Span} {tokens : List Token}

theorem isModule_of_functions {fs : List Function} (spelled : Spelled tokens)
    (done : functions eof tokens = .ok fs) : IsModule (tokens.map Token.content) := by
  obtain ⟨text, spaced⟩ := exists_spaced tokens
  obtain ⟨source, rfl⟩ : ∃ source : Source, source.text.toList = text :=
    ⟨⟨String.ofList text, .memory⟩, String.toList_ofList⟩
  obtain ⟨tokens', lexed, same⟩ : ∃ tokens', source.tokens = .ok tokens' ∧ _ :=
    Lexer.lex_spaced spaced spelled 0
  rcases functions_of_content same eof source.eof with
    ⟨_, fs', _, read, _⟩ | ⟨error, _, failed, _⟩
  · refine ⟨source, tokens', ⟨fs'⟩, lexed, same, ?_⟩
    rw [Source.parse_of_tokens lexed, read]
    rfl
  · cases done.symm.trans failed

theorem not_isModule_of_functions {error : ParseError}
    (failed : functions eof tokens = .error error) : ¬ IsModule (tokens.map Token.content) := by
  rintro ⟨source, tokens', m, lexed, same, parsed⟩
  rcases functions_of_content same eof source.eof with
    ⟨_, fs', read, _, _⟩ | ⟨_, error', _, failed', _⟩
  · cases failed.symm.trans read
  · rw [Source.parse_of_tokens lexed, failed'] at parsed
    cases parsed

theorem Finishes.beginsModule (h : Finishes (· = []) (readAll eof) tokens)
    (spelled : Spelled tokens) : BeginsModule (tokens.map Token.content) := by
  obtain ⟨more, _, spelled', done⟩ := h
  obtain ⟨fs, all, _⟩ := except_map_eq_ok.1 (done [] rfl)
  rw [List.append_nil] at all
  refine ⟨more.map Token.content, ?_⟩
  rw [← List.map_append]
  exact isModule_of_functions (spelled.append spelled') all

theorem not_beginsModule {front : List Token} {t : Token} {error : ParseError}
    (fails : ∀ more, readAll eof (front ++ t :: more) = .error error) :
    ¬ BeginsModule ((front ++ [t]).map Token.content) := by
  rintro ⟨more, isModule⟩
  obtain ⟨behind, rfl⟩ := exists_content more
  rw [← List.map_append, ← List.append_cons] at isModule
  exact not_isModule_of_functions (except_map_eq_error.1 (fails behind)) isModule

end Parser

namespace Source

variable {source : Source} {tokens : List Token} {error : ParseError}

/-- Parse errors are about the first token that no module has at its place, and errors at the end
of the file are about sources that could be gone on with. -/
theorem parse_fails_first (lexed : source.tokens = .ok tokens)
    (failed : source.parse = .error error) :
    (∀ wanted, error.cause = .endOfFile wanted →
        BeginsModule (tokens.map Token.content) ∧ ¬ IsModule (tokens.map Token.content)) ∧
      ((∀ wanted, error.cause ≠ .endOfFile wanted) →
        ∃ front t behind, tokens = front ++ t :: behind ∧ error.span = t.span ∧
          BeginsModule (front.map Token.content) ∧
          ¬ BeginsModule ((front ++ [t]).map Token.content)) := by
  have spelled : Parser.Spelled tokens := spelled_of_tokens lexed
  rw [parse_of_tokens lexed, except_map_eq_error] at failed
  have fails : Parser.readAll source.eof tokens = .error error := except_map_eq_error.2 failed
  have ends : Parser.Ends source.eof _ _ _ (Parser.readAll source.eof) tokens :=
    Parser.ends_functions tokens spelled
  cases ends with
  | reads front rest fs split again idle post =>
      have done := again rest (.inr rfl)
      rw [← split, fails] at done
      cases done
  | stops front t behind split present stuck finishes =>
      have stuck' := stuck behind
      rw [← split, fails] at stuck'
      cases stuck'
      refine ⟨fun wanted same => absurd same (present wanted), fun _ => ?_⟩
      rw [split] at spelled
      refine ⟨front, t, behind, split, rfl, finishes.beginsModule ?_, ?_⟩
      · exact spelled.subset (List.subset_append_left front _)
      · exact Parser.not_beginsModule stuck
  | runsOut out finishes =>
      cases fails.symm.trans out
      refine ⟨fun _ _ => ⟨finishes.beginsModule spelled, ?_⟩, fun other => absurd rfl (other _)⟩
      exact Parser.not_isModule_of_functions failed

/-- A comparison where a value would have to be given. -/
def compared : Source where
  text := "fn f() \x7b let x == 1; \x7d"

/-- The body of the loop is missing. -/
def bodiless : Source where
  text := "fn f() \x7b while true"

def comparedTokens : List Token :=
  [⟨.keyword .fnWord, "fn", ⟨0, 2⟩⟩, ⟨.identifier, "f", ⟨3, 4⟩⟩, ⟨.mark .openParen, "(", ⟨4, 5⟩⟩,
    ⟨.mark .closeParen, ")", ⟨5, 6⟩⟩, ⟨.mark .openBrace, "\x7b", ⟨7, 8⟩⟩,
    ⟨.keyword .letWord, "let", ⟨9, 12⟩⟩, ⟨.identifier, "x", ⟨13, 14⟩⟩,
    ⟨.mark .equalEqual, "==", ⟨15, 17⟩⟩, ⟨.integer, "1", ⟨18, 19⟩⟩,
    ⟨.mark .semicolon, ";", ⟨19, 20⟩⟩, ⟨.mark .closeBrace, "\x7d", ⟨21, 22⟩⟩]

def bodilessTokens : List Token :=
  [⟨.keyword .fnWord, "fn", ⟨0, 2⟩⟩, ⟨.identifier, "f", ⟨3, 4⟩⟩, ⟨.mark .openParen, "(", ⟨4, 5⟩⟩,
    ⟨.mark .closeParen, ")", ⟨5, 6⟩⟩, ⟨.mark .openBrace, "\x7b", ⟨7, 8⟩⟩,
    ⟨.keyword .whileWord, "while", ⟨9, 14⟩⟩, ⟨.boolean, "true", ⟨15, 19⟩⟩]

theorem parse_fails_first_compared :
    (∃ tokens error front t behind, compared.tokens = .ok tokens ∧
        compared.parse = .error error ∧ error.span = ⟨15, 17⟩ ∧
        tokens = front ++ t :: behind ∧ error.span = t.span ∧
        BeginsModule (front.map Token.content) ∧
        ¬ BeginsModule ((front ++ [t]).map Token.content)) ∧
      ∃ tokens error, bodiless.tokens = .ok tokens ∧ bodiless.parse = .error error ∧
        BeginsModule (tokens.map Token.content) ∧ ¬ IsModule (tokens.map Token.content) := by
  have lexed : compared.tokens = .ok comparedTokens := by decide +kernel
  have lexed' : bodiless.tokens = .ok bodilessTokens := by decide +kernel
  have attempted : Parser.attempt compared.eof 150 .functions comparedTokens =
      some (.error ⟨.unexpected (.token (.mark .semicolon)) "==", ⟨15, 17⟩⟩) := by rfl
  have attempted' : Parser.attempt bodiless.eof 150 .functions bodilessTokens =
      some (.error ⟨.endOfFile (.token (.mark .openBrace)), bodiless.eof⟩) := by rfl
  have failed := parse_of_attempt lexed attempted (by decide)
  have failed' := parse_of_attempt lexed' attempted' (by decide)
  obtain ⟨front, t, behind, split, span, begins, stuck⟩ :=
    (parse_fails_first lexed failed).2 fun _ => ParseCause.noConfusion
  refine ⟨⟨_, _, front, t, behind, lexed, failed, rfl, split, span, begins, stuck⟩, ?_⟩
  exact ⟨_, _, lexed', failed', (parse_fails_first lexed' failed').1 _ rfl⟩

end Source

end Rill
