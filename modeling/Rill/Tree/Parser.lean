import Rill.Number.Notation
import Rill.Token.Lexer
import Rill.Tree.Basic

/-!
# Reading trees from tokens

Recursive descent. Every reading function returns what it read together with
the tokens that are left and a bound on how many were used, and that bound is
what makes the recursion end. Binary operators come in tiers: tier 0 is the
unary level, and an operand of tier `n + 1` is a chain of operands of tier `n`
joined, from the left, by the operators that bind at that strength.

`eof` is the span that an error gets when the tokens run out.
-/

namespace Rill.Parser

/-- A value read from the front of `tokens`, and the tokens left: at least `used` were taken. -/
structure Parsed (α : Type) (used : Nat) (tokens : List Token) where
  value : α
  rest : List Token
  enough : rest.length + used ≤ tokens.length

abbrev Outcome (α : Type) (used : Nat) (tokens : List Token) :=
  Except ParseError (Parsed α used tokens)

/-- Takes the first token if it has the kind. -/
def take? (kind : TokenKind) : (tokens : List Token) → Option (Parsed Token 1 tokens)
  | [] => none
  | token :: rest => if token.kind = kind then some ⟨token, rest, Nat.le_refl _⟩ else none

def peekIs (kind : TokenKind) (tokens : List Token) : Bool :=
  tokens.head?.any (·.kind == kind)

/-- The error for a first token that does not fit, or for a missing one. -/
def mismatch (eof : Span) (wanted : Expectation) : List Token → ParseError
  | [] => ⟨.endOfFile wanted, eof⟩
  | token :: _ => ⟨.unexpected wanted token.text, token.span⟩

def expect (eof : Span) (kind : TokenKind) (tokens : List Token) : Outcome Token 1 tokens :=
  match take? kind tokens with
  | some parsed => .ok parsed
  | none => .error (mismatch eof (.token kind) tokens)

def ident (eof : Span) (tokens : List Token) : Outcome Ident 1 tokens := do
  let ⟨token, rest, h⟩ ← expect eof .identifier tokens
  return ⟨⟨token.text, token.span⟩, rest, h⟩

/-- A type and the span that it was written at. -/
def type (eof : Span) : (tokens : List Token) → Outcome (Ty × Span) 1 tokens
  | [] => .error (mismatch eof .type [])
  | token :: rest =>
    match token.kind with
    | .mark .openParen => do
      let ⟨close, rest', h⟩ ← expect eof (.mark .closeParen) rest
      return ⟨(.unit, token.span.cover close.span), rest', by simp only [List.length_cons]; omega⟩
    | .identifier =>
      match Ty.ofName? token.text with
      | some ty => .ok ⟨(ty, token.span), rest, Nat.le_refl _⟩
      | none => .error ⟨.unknownType token.text, token.span⟩
    | _ => .error (mismatch eof .type (token :: rest))

/-- The text between the quotes of a string literal with its escapes resolved: `\n` and `\t` are
the controls, a backslash before any other character stands for that character. -/
def unescape : List Char → List Char
  | [] => []
  | ['\\'] => ['\\']
  | '\\' :: 'n' :: rest => '\n' :: unescape rest
  | '\\' :: 't' :: rest => '\t' :: unescape rest
  | '\\' :: c :: rest => c :: unescape rest
  | c :: rest => c :: unescape rest

/-- The value of a literal token. -/
def literal? (token : Token) : Option (Except ParseError Literal) :=
  match token.kind with
  | .boolean => some (.ok (.bool (token.text == "true")))
  | .integer =>
    some <| match Number.readInt? token.text with
      | some n => .ok (.int n)
      | none => .error ⟨.integerTooLarge, token.span⟩
  | .decimal => some (.ok (.float (Number.ofLiteral token.text.toList)))
  | .string =>
    some (.ok (.str (String.ofList (unescape (token.text.toList.drop 1).dropLast))))
  | _ => none

def unaryOp? : TokenKind → Option UnaryOp
  | .mark .bang => some .not
  | .mark .minus => some .neg
  | _ => none

/-- An operator between two operands. -/
inductive Joint where
  | binary (op : BinaryOp)
  | logic (op : LogicOp)
  deriving DecidableEq, Repr

def Joint.join (lhs rhs : Expr) : Joint → Expr
  | .binary op => .binary (lhs.span.cover rhs.span) op lhs rhs
  | .logic op => .logic (lhs.span.cover rhs.span) op lhs rhs

/-- The operator that joins operands of tier `n`. -/
def joint? : Nat → TokenKind → Option Joint
  | 0, .mark .star => some (.binary .mul)
  | 0, .mark .slash => some (.binary .div)
  | 0, .mark .percent => some (.binary .rem)
  | 1, .mark .plus => some (.binary .add)
  | 1, .mark .minus => some (.binary .sub)
  | 2, .mark .equalEqual => some (.binary .eq)
  | 2, .mark .bangEqual => some (.binary .ne)
  | 2, .mark .less => some (.binary .lt)
  | 2, .mark .lessEqual => some (.binary .le)
  | 2, .mark .greater => some (.binary .gt)
  | 2, .mark .greaterEqual => some (.binary .ge)
  | 3, .mark .andAnd => some (.logic .and)
  | 4, .mark .orOr => some (.logic .or)
  | _, _ => none

/-- The tier of whole expressions. -/
def topTier : Nat := 5

mutual

def tier (eof : Span) : Nat → (tokens : List Token) → Outcome Expr 1 tokens
  | 0, tokens => unary eof tokens
  | n + 1, tokens => do
    let ⟨first, rest, h⟩ ← tier eof n tokens
    let ⟨whole, rest', h'⟩ ← chain eof n first rest
    return ⟨whole, rest', by omega⟩
termination_by n tokens => (tokens.length, n + 2)
decreasing_by all_goals simp only [Prod.lex_def, true_and]; omega

/-- Goes on after the operand `lhs` as long as an operator of its tier follows. -/
def chain (eof : Span) (n : Nat) (lhs : Expr) :
    (tokens : List Token) → Outcome Expr 0 tokens
  | [] => .ok ⟨lhs, [], Nat.le_refl _⟩
  | token :: rest =>
    match joint? n token.kind with
    | none => .ok ⟨lhs, token :: rest, Nat.le_refl _⟩
    | some joint => do
      let ⟨rhs, rest', h⟩ ← tier eof n rest
      let ⟨whole, rest'', h'⟩ ← chain eof n (joint.join lhs rhs) rest'
      return ⟨whole, rest'', by simp only [List.length_cons]; omega⟩
termination_by tokens => (tokens.length, 0)
decreasing_by all_goals simp only [Prod.lex_def, List.length_cons]; omega

def unary (eof : Span) : (tokens : List Token) → Outcome Expr 1 tokens
  | [] => .error (mismatch eof .expression [])
  | token :: rest =>
    match unaryOp? token.kind with
    | none => primary eof (token :: rest)
    | some op => do
      let ⟨operand, rest', h⟩ ← unary eof rest
      return ⟨.unary (token.span.cover operand.span) op operand, rest',
        by simp only [List.length_cons]; omega⟩
termination_by tokens => (tokens.length, 1)
decreasing_by all_goals simp only [Prod.lex_def, List.length_cons, true_and]; omega

/-- A call, a variable, a literal, or an expression in parentheses, which add no node but widen the
span. -/
def primary (eof : Span) : (tokens : List Token) → Outcome Expr 1 tokens
  | [] => .error (mismatch eof .expression [])
  | token :: rest =>
    match token.kind with
    | .identifier =>
      let name : Ident := ⟨token.text, token.span⟩
      match take? (.mark .openParen) rest with
      | none => .ok ⟨.var token.span name, rest, Nat.le_refl _⟩
      | some ⟨_, rest₁, h₁⟩ => do
        let ⟨args, rest₂, h₂⟩ ← arguments eof rest₁
        let ⟨close, rest₃, h₃⟩ ← expect eof (.mark .closeParen) rest₂
        return ⟨.call (token.span.cover close.span) name args, rest₃,
          by simp only [List.length_cons]; omega⟩
    | .mark .openParen => do
      let ⟨inner, rest₁, h₁⟩ ← tier eof topTier rest
      let ⟨close, rest₂, h₂⟩ ← expect eof (.mark .closeParen) rest₁
      return ⟨inner.withSpan (token.span.cover close.span), rest₂,
        by simp only [List.length_cons]; omega⟩
    | _ =>
      match literal? token with
      | some value => do
        return ⟨.literal token.span (← value), rest, Nat.le_refl _⟩
      | none => .error (mismatch eof .expression (token :: rest))
termination_by tokens => (tokens.length, 0)
decreasing_by all_goals simp only [Prod.lex_def, List.length_cons, topTier]; omega

/-- Arguments up to the closing parenthesis; a comma may follow the last one. -/
def arguments (eof : Span) (tokens : List Token) : Outcome (List Expr) 0 tokens :=
  if peekIs (.mark .closeParen) tokens then
    .ok ⟨[], tokens, Nat.le_refl _⟩
  else do
    let ⟨first, rest, h⟩ ← tier eof topTier tokens
    match take? (.mark .comma) rest with
    | none => return ⟨[first], rest, by omega⟩
    | some ⟨_, rest₁, h₁⟩ => do
      let ⟨others, rest₂, h₂⟩ ← arguments eof rest₁
      return ⟨first :: others, rest₂, by omega⟩
termination_by (tokens.length, topTier + 3)
decreasing_by all_goals simp only [Prod.lex_def, topTier, true_and]; omega

end

def expression (eof : Span) (tokens : List Token) : Outcome Expr 1 tokens :=
  tier eof topTier tokens

/-- A declaration: `let name: type = value;`, with the type or the value left out or not. -/
def declaration (eof : Span) (tokens : List Token) : Outcome Stmt 1 tokens := do
  let ⟨word, rest, h⟩ ← expect eof (.keyword .letWord) tokens
  let ⟨name, rest, h⟩ ← ident eof rest
  let ⟨ty, rest, h⟩ ← (show Outcome (Option Ty) 0 rest from
    match take? (.mark .colon) rest with
    | none => .ok ⟨none, rest, Nat.le_refl _⟩
    | some ⟨_, rest₁, h₁⟩ => do
      let ⟨(ty, _), rest₂, h₂⟩ ← type eof rest₁
      return ⟨some ty, rest₂, by omega⟩)
  let ⟨value, rest, h⟩ ← (show Outcome (Option Expr) 0 rest from
    match take? (.mark .equal) rest with
    | none => .ok ⟨none, rest, Nat.le_refl _⟩
    | some ⟨_, rest₁, h₁⟩ => do
      let ⟨value, rest₂, h₂⟩ ← expression eof rest₁
      return ⟨some value, rest₂, by omega⟩)
  let ⟨close, rest, h⟩ ← expect eof (.mark .semicolon) rest
  return ⟨.decl (word.span.cover close.span) name ty value, rest, by omega⟩

def assignment (eof : Span) (tokens : List Token) : Outcome Stmt 1 tokens := do
  let ⟨target, rest, h⟩ ← ident eof tokens
  let ⟨_, rest, h⟩ ← expect eof (.mark .equal) rest
  let ⟨value, rest, h⟩ ← expression eof rest
  let ⟨close, rest, h⟩ ← expect eof (.mark .semicolon) rest
  return ⟨.assign (target.span.cover close.span) target value, rest, by omega⟩

def returning (eof : Span) (tokens : List Token) : Outcome Stmt 1 tokens := do
  let ⟨word, rest, h⟩ ← expect eof (.keyword .returnWord) tokens
  let ⟨value, rest, h⟩ ← (show Outcome (Option Expr) 0 rest from
    if peekIs (.mark .semicolon) rest then
      .ok ⟨none, rest, Nat.le_refl _⟩
    else do
      let ⟨value, rest₁, h₁⟩ ← expression eof rest
      return ⟨some value, rest₁, by omega⟩)
  let ⟨close, rest, h⟩ ← expect eof (.mark .semicolon) rest
  return ⟨.ret (word.span.cover close.span) value, rest, by omega⟩

def evaluation (eof : Span) (tokens : List Token) : Outcome Stmt 1 tokens := do
  let ⟨value, rest, h⟩ ← expression eof tokens
  let ⟨close, rest, h⟩ ← expect eof (.mark .semicolon) rest
  return ⟨.eval (value.span.cover close.span) value, rest, by omega⟩

mutual

def block (eof : Span) (tokens : List Token) : Outcome Stmt 1 tokens := do
  let ⟨opening, rest, h⟩ ← expect eof (.mark .openBrace) tokens
  let ⟨body, rest₁, h₁⟩ ← statements eof rest
  let ⟨close, rest₂, h₂⟩ ← expect eof (.mark .closeBrace) rest₁
  return ⟨.block (opening.span.cover close.span) body, rest₂, by omega⟩
termination_by (tokens.length, 0)
decreasing_by all_goals simp only [Prod.lex_def]; omega

/-- Statements up to the closing brace. -/
def statements (eof : Span) (tokens : List Token) : Outcome (List Stmt) 0 tokens :=
  if tokens.isEmpty then
    .error (mismatch eof .statementOrBrace [])
  else if peekIs (.mark .closeBrace) tokens then
    .ok ⟨[], tokens, Nat.le_refl _⟩
  else do
    let ⟨first, rest, h⟩ ← statement eof tokens
    let ⟨others, rest₁, h₁⟩ ← statements eof rest
    return ⟨first :: others, rest₁, by omega⟩
termination_by (tokens.length, 2)
decreasing_by all_goals simp only [Prod.lex_def, true_and]; omega

def statement (eof : Span) : (tokens : List Token) → Outcome Stmt 1 tokens
  | [] => .error (mismatch eof .statement [])
  | token :: rest =>
    match token.kind with
    | .mark .semicolon => .ok ⟨.skip token.span, rest, Nat.le_refl _⟩
    | .mark .openBrace => block eof (token :: rest)
    | .keyword .letWord => declaration eof (token :: rest)
    | .keyword .ifWord => conditional eof (token :: rest)
    | .keyword .whileWord => do
      let ⟨condition, rest₁, h₁⟩ ← expression eof rest
      let ⟨body, rest₂, h₂⟩ ← block eof rest₁
      return ⟨.loop (token.span.cover body.span) condition body, rest₂,
        by simp only [List.length_cons]; omega⟩
    | .keyword .returnWord => returning eof (token :: rest)
    | .identifier =>
      if peekIs (.mark .equal) rest then assignment eof (token :: rest)
      else evaluation eof (token :: rest)
    | _ => evaluation eof (token :: rest)
termination_by tokens => (tokens.length, 1)
decreasing_by all_goals simp only [Prod.lex_def, List.length_cons, true_and]; omega

/-- A conditional with an optional second branch, which is a block or a further conditional. -/
def conditional (eof : Span) (tokens : List Token) : Outcome Stmt 1 tokens := do
  let ⟨word, rest, h⟩ ← expect eof (.keyword .ifWord) tokens
  let ⟨condition, rest₁, h₁⟩ ← expression eof rest
  let ⟨positive, rest₂, h₂⟩ ← block eof rest₁
  let span := word.span.cover positive.span
  match take? (.keyword .elseWord) rest₂ with
  | none => return ⟨.ite span condition (some positive) none, rest₂, by omega⟩
  | some ⟨_, rest₃, h₃⟩ => do
    let ⟨negative, rest₄, h₄⟩ ←
      if peekIs (.keyword .ifWord) rest₃ then conditional eof rest₃ else block eof rest₃
    return ⟨.ite (span.cover negative.span) condition (some positive) (some negative), rest₄,
      by omega⟩
termination_by (tokens.length, 0)
decreasing_by all_goals simp only [Prod.lex_def]; omega

end

def param (eof : Span) (tokens : List Token) : Outcome Param 1 tokens := do
  let ⟨name, rest, h⟩ ← ident eof tokens
  let ⟨_, rest, h⟩ ← expect eof (.mark .colon) rest
  let ⟨(ty, span), rest, h⟩ ← type eof rest
  return ⟨⟨name, ty, name.span.cover span⟩, rest, by omega⟩

/-- Parameters up to the closing parenthesis; a comma may follow the last one. -/
def params (eof : Span) (tokens : List Token) : Outcome (List Param) 0 tokens :=
  if peekIs (.mark .closeParen) tokens then
    .ok ⟨[], tokens, Nat.le_refl _⟩
  else do
    let ⟨first, rest, h⟩ ← param eof tokens
    match take? (.mark .comma) rest with
    | none => return ⟨[first], rest, by omega⟩
    | some ⟨_, rest₁, h₁⟩ => do
      let ⟨others, rest₂, h₂⟩ ← params eof rest₁
      return ⟨first :: others, rest₂, by omega⟩
termination_by tokens.length

/-- A header: the name, the parameters, and the type after an arrow, which is unit if there is no
arrow. -/
def header (eof : Span) (tokens : List Token) : Outcome Header 1 tokens := do
  let ⟨name, rest, h⟩ ← ident eof tokens
  let ⟨_, rest, h⟩ ← expect eof (.mark .openParen) rest
  let ⟨ps, rest, h⟩ ← params eof rest
  let ⟨close, rest, h⟩ ← expect eof (.mark .closeParen) rest
  match take? (.mark .arrow) rest with
  | none => return ⟨⟨name, ps, .unit, name.span.cover close.span⟩, rest, by omega⟩
  | some ⟨_, rest₁, h₁⟩ => do
    let ⟨(ty, span), rest₂, h₂⟩ ← type eof rest₁
    return ⟨⟨name, ps, ty, name.span.cover span⟩, rest₂, by omega⟩

def function (eof : Span) (tokens : List Token) : Outcome Function 1 tokens := do
  let ⟨word, rest, h⟩ ← expect eof (.keyword .fnWord) tokens
  let ⟨header, rest, h⟩ ← header eof rest
  let ⟨body, rest, h⟩ ← block eof rest
  return ⟨⟨header, body, word.span.cover body.span⟩, rest, by omega⟩

def functions (eof : Span) (tokens : List Token) : Except ParseError (List Function) :=
  match tokens with
  | [] => .ok []
  | token :: rest =>
    if token.kind = .keyword .fnWord then do
      let ⟨first, rest', _⟩ ← function eof (token :: rest)
      let others ← functions eof rest'
      return first :: others
    else
      .error ⟨.notAFunction token.text, token.span⟩
termination_by tokens.length
decreasing_by omega

end Rill.Parser

namespace Rill.Source

/-- The span of an error at the end of the source: its last byte. -/
def eof (source : Source) : Span :=
  ⟨source.size - 1, source.size⟩

def parse (source : Source) : Except ParseError Module := do
  let tokens ← source.tokens
  return ⟨← Parser.functions source.eof tokens⟩

end Rill.Source
