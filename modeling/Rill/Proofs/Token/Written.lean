import Rill.Proofs.Computation
import Rill.Tree.Parser

/-!
# Texts written as literals

A text is written as a literal by escaping its backslashes, quotes, line feeds and tabs.
Resolving the escapes gives every text back. Where the literal ends is decided
before that, by the lexer, and with another rule: a quote right after a backslash does
not close, even if that backslash is the second one of an escaped backslash. The two
rules agree on every text but those that end in a backslash, `Text.readsBack_iff`.
-/

namespace Rill

namespace Text

/-- How a character is written in a literal. -/
def spell : Char → List Char
  | '\\' => ['\\', '\\']
  | '"' => ['\\', '"']
  | '\n' => ['\\', 'n']
  | '\t' => ['\\', 't']
  | c => [c]

def spelled (text : List Char) : List Char :=
  text.flatMap spell

/-- The literal of a text. -/
def written (text : List Char) : List Char :=
  '"' :: (spelled text ++ ['"'])

theorem spelled_cons (c : Char) (text : List Char) :
    spelled (c :: text) = spell c ++ spelled text :=
  List.flatMap_cons

/-- Four characters are escaped, and all others stand for themselves. -/
theorem spell_cases (c : Char) :
    c = '\\' ∨ c = '"' ∨ c = '\n' ∨ c = '\t' ∨
      (spell c = [c] ∧ c ≠ '\\' ∧ c ≠ '"' ∧ c ≠ '\n') := by
  by_cases slash : c = '\\'
  · exact .inl slash
  by_cases quote : c = '"'
  · exact .inr (.inl quote)
  by_cases feed : c = '\n'
  · exact .inr (.inr (.inl feed))
  by_cases tab : c = '\t'
  · exact .inr (.inr (.inr (.inl tab)))
  · exact .inr (.inr (.inr (.inr ⟨by simp [spell], slash, quote, feed⟩)))

/-- What is written for a character does not begin with a quote. -/
theorem head?_spelled_cons_ne (c : Char) (text more : List Char) :
    (spelled (c :: text) ++ more).head? ≠ some '"' := by
  rw [spelled_cons]
  rcases spell_cases c with rfl | rfl | rfl | rfl | ⟨plain, _, quote, _⟩
  · simp [spell]
  · simp [spell]
  · simp [spell]
  · simp [spell]
  · simpa [plain] using quote

end Text

open Text

namespace Parser

/-- Resolving the escapes of a written text gives the text. -/
theorem unescape_spelled (text : List Char) : unescape (spelled text) = text := by
  induction text with
  | nil => simp [spelled, unescape]
  | cons c text ih =>
      rw [spelled_cons]
      rcases spell_cases c with rfl | rfl | rfl | rfl | ⟨plain, slash, _, _⟩
      · simp [spell, unescape, ih]
      · simp [spell, unescape, ih]
      · simp [spell, unescape, ih]
      · simp [spell, unescape, ih]
      · simp [plain, unescape, slash, ih]

end Parser

namespace Lexer

attribute [local simp] stringTail

theorem stringTail_plain {c : Char} (slash : c ≠ '\\') (quote : c ≠ '"') (feed : c ≠ '\n')
    (rest : List Char) :
    stringTail (c :: rest) = (c :: (stringTail rest).1, (stringTail rest).2) := by
  simp [slash]

theorem stringTail_backslash {rest : List Char} (other : rest.head? ≠ some '"') :
    stringTail ('\\' :: rest) = ('\\' :: (stringTail rest).1, (stringTail rest).2) := by
  cases rest with
  | nil => simp
  | cons c rest =>
      have quote : c ≠ '"' := by simpa using other
      simp [quote]

/-- A string goes on after a written character. Only an escaped backslash needs that no quote
follows. -/
theorem stringTail_spell {c : Char} {rest : List Char}
    (h : c = '\\' → rest.head? ≠ some '"') :
    stringTail (spell c ++ rest) =
      (spell c ++ (stringTail rest).1, (stringTail rest).2) := by
  rcases spell_cases c with rfl | rfl | rfl | rfl | ⟨plain, slash, quote, feed⟩
  · change stringTail ('\\' :: '\\' :: rest) = _
    rw [stringTail_backslash (by simp), stringTail_backslash (h rfl)]
    rfl
  · simp [spell]
  · simp [spell]
  · simp [spell]
  · rw [plain]
    exact stringTail_plain slash quote feed rest

/-- The quote after a written text closes it, unless the text ends in a backslash. Then the string
goes on as if the quote belonged to it. -/
theorem stringTail_spelled (text rest : List Char) :
    stringTail (spelled text ++ '"' :: rest) =
      if text.getLast? = some '\\' then
        (spelled text ++ '"' :: (stringTail rest).1, (stringTail rest).2)
      else
        (spelled text ++ ['"'], .closed) := by
  induction text with
  | nil => simp [spelled]
  | cons c text ih =>
      rw [spelled_cons, List.append_assoc]
      cases text with
      | nil =>
          by_cases slash : c = '\\'
          · simp [slash, spelled, spell]
          · rw [stringTail_spell fun same => absurd same slash]
            simp [slash, spelled]
      | cons d text =>
          rw [stringTail_spell fun _ => head?_spelled_cons_ne d text _, ih]
          simp only [List.getLast?_cons_cons, List.append_assoc]
          split <;> rfl

/-- A written text at the front is one token, unless it ends in a backslash. -/
theorem lex_written {text : List Char} (h : text.getLast? ≠ some '\\') (offset : Nat)
    (rest : List Char) :
    lex offset (written text ++ rest) = do
      let stop := offset + byteLength (written text)
      let tokens ← lex stop rest
      return ⟨.string, String.ofList (written text), ⟨offset, stop⟩⟩ :: tokens := by
  have scanned : scan '"' (spelled text ++ '"' :: rest) = .token .string (written text) := by
    simp [scan, isBlank, stringTail_spelled, h, written]
  have dropped : (spelled text ++ '"' :: rest).drop ((written text).length - 1) = rest := by
    simp [written]
  have front : written text ++ rest = '"' :: (spelled text ++ '"' :: rest) := by
    simp [written]
  rw [front, lex, scanned]
  simp only [dropped]

/-- The literal of a text that ends in a backslash does not end. -/
theorem lex_written_backslash {text : List Char} (h : text.getLast? = some '\\') (offset : Nat) :
    lex offset (written text) =
      .error ⟨.fileEndsInString, ⟨offset, offset + byteLength (written text)⟩⟩ := by
  have scanned : scan '"' (spelled text ++ ['"']) = .failure .fileEndsInString (written text) := by
    simp [scan, isBlank, stringTail_spelled, h, written]
  rw [written, lex, scanned]
  rfl

end Lexer

/-- The token at a place so many bytes further on. -/
def Token.shift (n : Nat) (token : Token) : Token :=
  { token with span := ⟨n + token.span.start, n + token.span.stop⟩ }

/-- Tokens do not depend on what stands before them, except for their place. -/
theorem Lexer.lex_shift (n : Nat) {offset : Nat} {cs : List Char} {tokens : List Token}
    (h : lex offset cs = .ok tokens) : lex (n + offset) cs = .ok (tokens.map (Token.shift n)) := by
  induction offset, cs using lex.induct generalizing tokens with
  | case1 offset =>
      rw [lex, Except.ok.injEq] at h
      subst h
      rw [lex]
      rfl
  | case2 offset c rest text scanned ih =>
      rw [lex, scanned] at h
      rw [lex, scanned]
      simpa only [Nat.add_assoc] using ih h
  | case3 offset c rest kind text scanned stop =>
      rename_i ih
      rw [lex, scanned] at h
      simp only [except_bind_eq_ok, except_pure_eq_ok] at h
      obtain ⟨others, later, rfl⟩ := h
      rw [lex, scanned]
      simp only [except_bind_eq_ok, except_pure_eq_ok, Nat.add_assoc]
      exact ⟨_, ih later, rfl⟩
  | case4 offset c rest cause text scanned =>
      rw [lex, scanned] at h
      cases h

/-- The token of a written text at the front of a source. -/
def Token.ofText (text : String) : Token :=
  let literal := written text.toList
  ⟨.string, String.ofList literal, ⟨0, byteLength literal⟩⟩

/-- The value of the token is the text. -/
theorem Parser.primary_ofText (eof : Span) (text : String) (more : List Token) :
    primary eof (.ofText text :: more) =
      .ok ⟨.literal (Token.ofText text).span (.str text), more, Nat.le_refl _⟩ := by
  have inner : (written text.toList).tail.dropLast = spelled text.toList := by
    simp [written]
  have value : literal? (.ofText text) = some (.ok (.str text)) := by
    simp [literal?, Token.ofText, inner, unescape_spelled]
  rw [primary]
  simp only [Token.ofText] at value ⊢
  simp only [value]
  rfl

/-- The literal of a text is read as the text: before anything that can be split into tokens, it is
one token, and this has the text for its value. -/
structure Text.ReadsBack (text : String) : Prop where
  token : ∀ (rest : String) (tokens : List Token),
    (Source.mk rest .memory).tokens = .ok tokens →
    (Source.mk (String.ofList (written text.toList) ++ rest) .memory).tokens =
      .ok (.ofText text :: tokens.map (Token.shift (byteLength (written text.toList))))
  value : ∀ (eof : Span) (more : List Token), Parser.primary eof (.ofText text :: more) =
    .ok ⟨.literal (Token.ofText text).span (.str text), more, Nat.le_refl _⟩

theorem Text.not_readsBack_of_backslash {text : String} (ends : text.toList.getLast? = some '\\') :
    ¬ ReadsBack text := by
  intro reads
  have nothing : (Source.mk "" .memory).tokens = .ok [] := by
    simp [Source.tokens, Lexer.lex]
  have alone := reads.token "" [] nothing
  simp only [Source.tokens, String.append_empty, String.toList_ofList,
    Lexer.lex_written_backslash ends] at alone
  cases alone

/-- The lexer and the parser agree on where a literal ends just if its text does not end in a
backslash. -/
theorem Text.readsBack_iff (text : String) :
    ReadsBack text ↔ text.toList.getLast? ≠ some '\\' := by
  constructor
  · intro reads ends
    exact not_readsBack_of_backslash ends reads
  · intro ends
    refine ⟨fun rest tokens lexed => ?_, fun eof more => Parser.primary_ofText eof text more⟩
    have later := Lexer.lex_shift (byteLength (written text.toList)) lexed
    rw [Nat.add_zero] at later
    simp only [Source.tokens, String.toList_append, String.toList_ofList, Lexer.lex_written ends,
      Nat.zero_add, later]
    rfl

/-- A single backslash is written with two of them, and the second keeps the quote from closing. -/
theorem Text.not_readsBack_backslash :
    ¬ ReadsBack "\\" ∧ (Source.mk "\"\\\\\"" .memory).tokens =
      .error ⟨.fileEndsInString, ⟨0, 4⟩⟩ := by
  have ends : ['\\'].getLast? = some '\\' := rfl
  exact ⟨not_readsBack_of_backslash ends, Lexer.lex_written_backslash ends 0⟩

end Rill
