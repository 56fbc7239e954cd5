import Rill.Proofs.Token.Layout
import Rill.Proofs.Tree.Descent
import Rill.Proofs.Tree.Unambiguous

/-!
# Layout and trees

The parser decides by the kinds and the texts of tokens. Their spans go into the tree and into
the error, and nowhere else: if the spans of all tokens are changed, in a way that respects which
span covers which others, then the outcome is the same with its spans changed. So two
sources that have the same tokens up to spans have the same tree up to spans, or fail with
the same message, and a source can be laid out anew without a change but in its spans.
-/

namespace Rill

namespace Parser

variable {φ : Span → Span}

/-- Changing the spans of all tokens changes the spans of what is read from them, and no more. -/
theorem Phrase.read_mapSpans {α : Type} (keeps : KeepsCovers φ) (p : Phrase α) (eof : Span)
    (tokens : List Token) :
    (p.mapSpans φ).read (φ eof) (tokens.map (Token.mapSpan φ)) =
      ((p.read eof tokens).map (Prod.map (p.move φ) (List.map (Token.mapSpan φ)))).mapError
        (ParseError.mapSpan φ) := by
  have agrees : p.ReadBy φ eof _ tokens := readBy_attempt keeps _ p tokens (Nat.lt_succ_self _)
  rw [ReadBy, attempt_eq (Nat.lt_succ_self _)] at agrees
  generalize p.read eof tokens = outcome at agrees ⊢
  generalize (p.mapSpans φ).read (φ eof) (tokens.map (Token.mapSpan φ)) = outcome' at agrees ⊢
  cases agrees with
  | done value rest suffix => rfl
  | fails error => rfl

theorem functions_mapSpans (keeps : KeepsCovers φ) (eof : Span) (tokens : List Token) :
    functions (φ eof) (tokens.map (Token.mapSpan φ)) =
      ((functions eof tokens).map (List.map (Function.mapSpans φ))).mapError
        (ParseError.mapSpan φ) := by
  have moved : Except.map (·, []) (functions (φ eof) (tokens.map (Token.mapSpan φ))) = _ :=
    Phrase.read_mapSpans keeps .functions eof tokens
  rw [Phrase.read, readAll] at moved
  generalize functions eof tokens = outcome at moved ⊢
  cases outcome with
  | error error => exact except_map_eq_error.1 moved
  | ok fs =>
      obtain ⟨fs', done, same⟩ := except_map_eq_ok.1 moved
      cases same
      exact done

end Parser

/-- What a module says, wherever its parts stand. -/
def Module.content (m : Module) : Module :=
  m.mapSpans fun _ => ⟨0, 0⟩

theorem Parser.functions_of_content {tokens tokens' : List Token}
    (same : tokens'.map Token.content = tokens.map Token.content) (eof eof' : Span) :
    (∃ fs fs', functions eof tokens = .ok fs ∧ functions eof' tokens' = .ok fs' ∧
        (Module.mk fs').content = (Module.mk fs).content) ∨
      ∃ error error', functions eof tokens = .error error ∧
        functions eof' tokens' = .error error' ∧ error'.cause = error.cause := by
  have keeps : KeepsCovers fun _ => ⟨0, 0⟩ := fun _ _ => rfl
  have bare : ∀ tokens : List Token, tokens.map (Token.mapSpan fun _ => ⟨0, 0⟩) =
      (tokens.map Token.content).map fun content => ⟨content.1, content.2, ⟨0, 0⟩⟩ := by
    intro tokens
    rw [List.map_map]
    rfl
  have moved := functions_mapSpans keeps eof tokens
  have moved' := functions_mapSpans keeps eof' tokens'
  rw [bare, same, ← bare, moved] at moved'
  cases read : functions eof tokens with
  | ok fs =>
      cases read' : functions eof' tokens' with
      | ok fs' =>
          rw [read, read'] at moved'
          exact .inl ⟨fs, fs', rfl, rfl, congrArg Module.mk (Except.ok.inj moved').symm⟩
      | error error' =>
          rw [read, read'] at moved'
          cases moved'
  | error error =>
      cases read' : functions eof' tokens' with
      | ok fs' =>
          rw [read, read'] at moved'
          cases moved'
      | error error' =>
          rw [read, read'] at moved'
          exact .inr ⟨error, error', rfl, rfl,
            (congrArg ParseError.cause (Except.error.inj moved')).symm⟩

namespace Source

variable {source source' : Source} {tokens tokens' : List Token}

/-- Parsing is decided by what the tokens are, not by where they stand. -/
theorem parse_of_content (lexed : source.tokens = .ok tokens)
    (lexed' : source'.tokens = .ok tokens')
    (same : tokens'.map Token.content = tokens.map Token.content) :
    (∃ m m', source.parse = .ok m ∧ source'.parse = .ok m' ∧ m'.content = m.content) ∨
      ∃ error error', source.parse = .error error ∧ source'.parse = .error error' ∧
        error'.message = error.message := by
  rw [parse_of_tokens lexed, parse_of_tokens lexed']
  rcases Parser.functions_of_content same source.eof source'.eof with
    ⟨fs, fs', read, read', alike⟩ | ⟨error, error', failed, failed', cause⟩
  · rw [read, read']
    exact .inl ⟨⟨fs⟩, ⟨fs'⟩, rfl, rfl, alike⟩
  · rw [failed, failed']
    exact .inr ⟨error, error', rfl, rfl, congrArg ParseCause.message cause⟩

/-- Layout does not matter. A source in which the tokens of another are laid out anew has the same
tokens, and the same tree or the same failure. -/
theorem parse_laidOut (lexed : source.tokens = .ok tokens)
    (laid : LaidOut tokens source'.text.toList) :
    (∃ tokens', source'.tokens = .ok tokens' ∧
        tokens'.map Token.content = tokens.map Token.content) ∧
      ((∃ m m', source.parse = .ok m ∧ source'.parse = .ok m' ∧ m'.content = m.content) ∨
        ∃ error error', source.parse = .error error ∧ source'.parse = .error error' ∧
          error'.message = error.message) := by
  obtain ⟨tokens', lexed', same⟩ := Lexer.lex_laidOut laid (spelled_of_tokens lexed) 0
  exact ⟨⟨tokens', lexed', same⟩, parse_of_content lexed lexed' same⟩

section Witness

/-- Without a blank that it could do without. -/
def compact : Source where
  text := "fn f()\x7b1/2;\x7d"

/-- The same with a comment in front, and another one behind the division. -/
def scattered : Source where
  text := "//\"é\\\nfn\r\nf\t( ) \x7b 1 /\x0c// not / a \"string\n2 ; \x7d\n"

def compactTokens : List Token :=
  [⟨.keyword .fnWord, "fn", ⟨0, 2⟩⟩, ⟨.identifier, "f", ⟨3, 4⟩⟩,
    ⟨.mark .openParen, "(", ⟨4, 5⟩⟩, ⟨.mark .closeParen, ")", ⟨5, 6⟩⟩,
    ⟨.mark .openBrace, "\x7b", ⟨6, 7⟩⟩, ⟨.integer, "1", ⟨7, 8⟩⟩, ⟨.mark .slash, "/", ⟨8, 9⟩⟩,
    ⟨.integer, "2", ⟨9, 10⟩⟩, ⟨.mark .semicolon, ";", ⟨10, 11⟩⟩,
    ⟨.mark .closeBrace, "\x7d", ⟨11, 12⟩⟩]

theorem laidOut_scattered : LaidOut compactTokens scattered.text.toList := by
  have quotes : '\n' ∉ "\"é\\".toList := by decide
  have slashes : '\n' ∉ " not / a \"string".toList := by decide
  have space : ' ' ∈ [' ', '\t', '\n', '\x0c', '\r'] := by decide
  have line : '\n' ∈ [' ', '\t', '\n', '\x0c', '\r'] := by decide
  have braced : Spaced (compactTokens.drop 4) _ :=
    .cons _ space .nil (.cons _ space .nil
      (.cons (c := '\x0c') _ (by decide) (.comment slashes .nil)
        (.cons _ space .nil (.cons _ space .nil (.cons _ line .nil .nil)))))
  have spaced : Spaced compactTokens _ :=
    .cons (c := '\r') _ (by decide) (.blank line .nil)
      (.cons (c := '\t') _ (by decide) .nil (.cons _ space .nil (.cons _ space .nil braced)))
  exact ⟨_, _, .comment quotes .nil, spaced, by decide⟩

theorem parse_laidOut_scattered :
    compact.tokens = .ok compactTokens ∧ LaidOut compactTokens scattered.text.toList ∧
      ∃ m m', compact.parse = .ok m ∧ scattered.parse = .ok m' ∧ m'.content = m.content := by
  have lexed : compact.tokens = .ok compactTokens := by decide +kernel
  refine ⟨lexed, laidOut_scattered, ?_⟩
  obtain ⟨_, parsed | ⟨error, _, failed, _⟩⟩ := parse_laidOut lexed laidOut_scattered
  · exact parsed
  · have succeeds : ∃ fs, Parser.attempt compact.eof 123 .functions compactTokens =
        some (.ok (fs, [])) := ⟨_, by rfl⟩
    obtain ⟨fs, attempted⟩ := succeeds
    cases failed.symm.trans (parse_of_attempt lexed attempted (by decide))

end Witness

end Source

end Rill
