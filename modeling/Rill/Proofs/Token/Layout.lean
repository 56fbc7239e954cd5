import Rill.Proofs.Token.Split

/-!
# Layout

The same tokens can be written in many ways: with any blanks and comments around them, as
long as a blank follows each of them before the next. `LaidOut` says when a text is one
of these ways, and the lexer reads the tokens from all of them, each at its place.
-/

namespace Rill

/-- ASCII blanks, and comments that end with their line. -/
inductive IsFiller : List Char → Prop
  | nil : IsFiller []
  | blank {c : Char} {more : List Char} (blank : c ∈ [' ', '\t', '\n', '\x0c', '\r'])
      (rest : IsFiller more) : IsFiller (c :: more)
  | comment {body more : List Char} (line : '\n' ∉ body) (rest : IsFiller more) :
      IsFiller ('/' :: '/' :: (body ++ '\n' :: more))

/-- The texts of the tokens in a row. A filler that begins with a blank is between them, and there
may be one behind the last. -/
inductive Spaced : List Token → List Char → Prop
  | nil : Spaced [] []
  | last (token : Token) : Spaced [token] token.text.toList
  | cons (token : Token) {tokens : List Token} {c : Char} {filler text : List Char}
      (blank : c ∈ [' ', '\t', '\n', '\x0c', '\r']) (between : IsFiller filler)
      (more : Spaced tokens text) :
      Spaced (token :: tokens) (token.text.toList ++ (c :: filler ++ text))

/-- The text consists of the tokens, with fillers between and around them. -/
def LaidOut (tokens : List Token) (text : List Char) : Prop :=
  ∃ filler spaced, IsFiller filler ∧ Spaced tokens spaced ∧ text = filler ++ spaced

namespace Token

/-- What a token is, wherever it stands. -/
def content (token : Token) : TokenKind × String :=
  (token.kind, token.text)

end Token

theorem IsFiller.isGap {filler : List Char} (h : IsFiller filler) (rest : List Char) :
    IsGap rest filler := by
  induction h with
  | nil => exact .nil
  | blank blank _ ih =>
      refine .blank ?_ ih
      simpa [Lexer.isBlank, or_assoc] using blank
  | comment line _ ih =>
      refine .comment line ?_ (.blank rfl ih)
      rintro c ⟨⟩
      rfl

/-- Every token can end before a blank. -/
theorem TokenKind.endsBefore_blank {c : Char} (blank : c ∈ [' ', '\t', '\n', '\x0c', '\r'])
    (kind : TokenKind) (rest : List Char) : kind.EndsBefore (c :: rest) := by
  simp only [List.mem_cons, List.not_mem_nil, or_false] at blank
  rcases blank with rfl | rfl | rfl | rfl | rfl
  all_goals
    exact endsBefore_cons (by decide) (by decide) (by decide) (by intro m; cases m <;> decide)
      kind rest

namespace Lexer

/-- The lexer finds the tokens that are laid out with blanks between them. -/
theorem lex_spaced {tokens : List Token} {text : List Char} (h : Spaced tokens text)
    (spelled : ∀ t ∈ tokens, t.kind.Spells t.text.toList) (offset : Nat) :
    ∃ tokens', lex offset text = .ok tokens' ∧
      tokens'.map Token.content = tokens.map Token.content := by
  induction h generalizing offset with
  | nil => exact ⟨[], by rw [lex], rfl⟩
  | last token =>
      have spells := spelled token (List.mem_singleton_self token)
      have read := lex_token spells token.kind.endsBefore_nil offset
      rw [List.append_nil, lex] at read
      refine ⟨_, read, ?_⟩
      simp [Token.content, Token.ofPiece]
  | @cons token tokens c filler text blank between more ih =>
      rw [List.forall_mem_cons] at spelled
      have gap : IsGap text (c :: filler) := (IsFiller.blank blank between).isGap text
      have ends : token.kind.EndsBefore (c :: filler ++ text) :=
        token.kind.endsBefore_blank blank (filler ++ text)
      obtain ⟨tokens', read, same⟩ :=
        ih spelled.2 (offset + byteLength token.text.toList + byteLength (c :: filler))
      rw [lex_token spelled.1 ends, lex_gap gap, read]
      refine ⟨_, rfl, ?_⟩
      simp [Token.content, Token.ofPiece, same]

theorem lex_laidOut {tokens : List Token} {text : List Char} (h : LaidOut tokens text)
    (spelled : ∀ t ∈ tokens, t.kind.Spells t.text.toList) (offset : Nat) :
    ∃ tokens', lex offset text = .ok tokens' ∧
      tokens'.map Token.content = tokens.map Token.content := by
  obtain ⟨filler, spaced, isFiller, isSpaced, rfl⟩ := h
  rw [lex_gap (isFiller.isGap spaced)]
  exact lex_spaced isSpaced spelled (offset + byteLength filler)

end Lexer

end Rill
