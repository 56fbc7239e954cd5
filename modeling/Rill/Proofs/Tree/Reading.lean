import Rill.Proofs.Computation
import Rill.Tree.Parser

/-!
# Reading without bounds

A reading function answers with a bound on the tokens that it leaves, which is what makes the
recursion end. Without the bound it is a computation whose state is the tokens that are left,
and its definition is a sequence of steps. The equations of this module say which: what is
optional stands behind a token of some kind (`behind`) or ends at one (`upTo`).

There is an equation for each way that a function can go on from its first token. What is proved
about reading is proved from them, and the definitions of the functions are not opened elsewhere.
-/

namespace Rill.Parser

/-- A computation that takes tokens from the front. -/
abbrev Reader (α : Type) := StateT (List Token) (Except ParseError) α

variable {α β : Type} {m n : Nat} {tokens tokens' : List Token} {eof : Span}

def plain (x : Outcome α n tokens) : Except ParseError (α × List Token) :=
  x.map fun parsed => (parsed.value, parsed.rest)

def read (p : (tokens : List Token) → Outcome α n tokens) : Reader α :=
  fun tokens => plain (p tokens)

/-- The bound that reading without bounds leaves out. -/
theorem length_of_read {p : (tokens : List Token) → Outcome α n tokens} {value : α}
    {rest : List Token} (h : read p tokens = .ok (value, rest)) :
    rest.length + n ≤ tokens.length := by
  obtain ⟨parsed, _, same⟩ := except_map_eq_ok.1 h
  cases same
  exact parsed.enough

/-- Steps of a function with bounds are steps of the function without them. -/
theorem plain_bind {x : Outcome α n tokens} {f : Parsed α n tokens → Outcome β m tokens'}
    {r : Reader α} {g : α → Reader β} {front : List Token} (first : plain x = r front)
    (next : ∀ value rest enough, plain (f ⟨value, rest, enough⟩) = g value rest) :
    plain (x >>= f) = (r >>= g) front := by
  show _ = r front >>= fun (value, rest) => g value rest
  rw [← first]
  cases x with
  | error error => rfl
  | ok parsed => exact next parsed.value parsed.rest parsed.enough

section Steps

variable {r : Reader α} {k : α → Reader β} {rest : List Token}

theorem bind_of_ok {value : α} (h : r tokens = .ok (value, rest)) :
    (r >>= k) tokens = k value rest := by
  show (r tokens >>= fun (value, rest) => k value rest) = _
  rw [h]
  rfl

theorem bind_of_error {error : ParseError} (h : r tokens = .error error) :
    (r >>= k) tokens = .error error := by
  show (r tokens >>= fun (value, rest) => k value rest) = _
  rw [h]
  rfl

end Steps

theorem peekIs_cons {kind : TokenKind} {token : Token} {rest : List Token} :
    peekIs kind (token :: rest) = true ↔ token.kind = kind := by
  simp [peekIs]

/-- Only the first token is looked at. -/
theorem peekIs_congr {kind : TokenKind} (same : tokens.head? = tokens'.head?) :
    peekIs kind tokens = peekIs kind tokens' := by
  rw [peekIs, same, peekIs]

theorem take?_cons {kind : TokenKind} {token : Token} (fits : token.kind = kind)
    (rest : List Token) : take? kind (token :: rest) = some ⟨token, rest, Nat.le_refl _⟩ :=
  if_pos fits

/-- Nothing is taken if the next token is of another kind, or if there is none. -/
theorem take?_eq_none {kind : TokenKind} {rest : List Token} (absent : peekIs kind rest = false) :
    take? kind rest = none := by
  cases rest with
  | nil => rfl
  | cons token rest =>
      refine if_neg fun fits => ?_
      rw [peekIs_cons.2 fits] at absent
      cases absent

/-- Goes on behind a token of the kind, if there is one. -/
def behind (kind : TokenKind) (absent : α) (present : Reader α) : Reader α := fun tokens =>
  match take? kind tokens with
  | none => .ok (absent, tokens)
  | some taken => present taken.rest

/-- Has nothing to read before a token of the kind. -/
def upTo (kind : TokenKind) (absent : α) (present : Reader α) : Reader α := fun tokens =>
  if peekIs kind tokens then .ok (absent, tokens) else present tokens

section Optional

variable {kind : TokenKind} {absent : α} {present : Reader α} {token : Token} {rest : List Token}

theorem behind_present (fits : token.kind = kind) :
    behind kind absent present (token :: rest) = present rest := by
  rw [behind, take?_cons fits]

theorem behind_absent (other : peekIs kind rest = false) :
    behind kind absent present rest = .ok (absent, rest) := by
  rw [behind, take?_eq_none other]

theorem upTo_absent (next : peekIs kind rest = true) :
    upTo kind absent present rest = .ok (absent, rest) :=
  if_pos next

theorem upTo_present (other : peekIs kind rest = false) :
    upTo kind absent present rest = present rest := by
  rw [upTo, if_neg (Bool.eq_false_iff.1 other)]

end Optional

/-- A step that only changes the bound is none. -/
theorem plain_rebound {x : Outcome α n tokens} {f : Parsed α n tokens → Outcome α m tokens'}
    (same : ∀ value rest enough, plain (f ⟨value, rest, enough⟩) = .ok (value, rest)) :
    plain (x >>= f) = plain x := by
  cases x with
  | error error => rfl
  | ok parsed => exact same parsed.value parsed.rest parsed.enough

theorem read_expect {kind : TokenKind} {token : Token} (fits : token.kind = kind)
    (more : List Token) : read (expect eof kind) (token :: more) = .ok (token, more) := by
  rw [read, expect, take?_cons fits]
  rfl

theorem read_expect_error {kind : TokenKind} (other : peekIs kind tokens = false) :
    read (expect eof kind) tokens = .error (mismatch eof (.token kind) tokens) := by
  rw [read, expect, take?_eq_none other]
  rfl

theorem read_ident : read (ident eof) = do
    let token ← read (expect eof .identifier)
    return ⟨token.text, token.span⟩ := by
  funext tokens
  exact plain_bind rfl fun token rest _ => rfl

section Types

variable {token : Token}

theorem read_type_nil : read (type eof) [] = .error (mismatch eof .type []) := rfl

theorem read_type_unit (opens : token.kind = .mark .openParen) (more : List Token) :
    read (type eof) (token :: more) = (do
      let close ← read (expect eof (.mark .closeParen))
      return (.unit, token.span.cover close.span) : Reader (Ty × Span)) more := by
  rw [read, type, opens]
  exact plain_bind rfl fun close rest _ => rfl

theorem read_type_named {ty : Ty} (named : token.kind = .identifier)
    (known : Ty.ofName? token.text = some ty) (more : List Token) :
    read (type eof) (token :: more) = .ok ((ty, token.span), more) := by
  simp only [read, type, named, known]
  rfl

theorem read_type_unknown (named : token.kind = .identifier)
    (unknown : Ty.ofName? token.text = none) (more : List Token) :
    read (type eof) (token :: more) = .error ⟨.unknownType token.text, token.span⟩ := by
  simp only [read, type, named, unknown]
  rfl

/-- Types begin with a name or a parenthesis. -/
theorem read_type_other (opens : token.kind ≠ .mark .openParen)
    (named : token.kind ≠ .identifier) (more : List Token) :
    read (type eof) (token :: more) = .error (mismatch eof .type (token :: more)) := by
  rw [read, type]
  split
  · next same => exact absurd same opens
  · next same => exact absurd same named
  · rfl

end Types

theorem read_tier_zero : read (tier eof 0) = read (unary eof) := by
  funext tokens
  rw [read, tier]
  rfl

/-- An expression of a level is an operand of the level below and a chain of operators behind it. -/
theorem read_tier_succ : read (tier eof (n + 1)) = (do
    let first ← read (tier eof n)
    read (chain eof n first)) := by
  funext tokens
  rw [read, tier]
  refine plain_bind rfl fun first rest _ => ?_
  exact plain_rebound fun whole rest _ => rfl

/-- The expression so far is the left operand of the next operator. -/
theorem read_chain_joint {token : Token} {joint : Joint} (known : joint? n token.kind = some joint)
    (lhs : Expr) (more : List Token) :
    read (chain eof n lhs) (token :: more) = (do
      let rhs ← read (tier eof n)
      read (chain eof n (joint.join lhs rhs)) : Reader Expr) more := by
  rw [read, chain, known]
  refine plain_bind rfl fun rhs rest _ => ?_
  exact plain_rebound fun whole rest _ => rfl

/-- No operator of the level follows, so the chain ends. -/
theorem read_chain_end (lhs : Expr) (other : ∀ token ∈ tokens.head?, joint? n token.kind = none) :
    read (chain eof n lhs) tokens = .ok (lhs, tokens) := by
  cases tokens with
  | nil =>
      rw [read, chain]
      rfl
  | cons token rest =>
      rw [read, chain, other token rfl]
      rfl

theorem read_unary_nil : read (unary eof) [] = .error (mismatch eof .expression []) := by
  rw [read, unary]
  rfl

/-- Signs can be repeated, and apply from the right. -/
theorem read_unary_op {token : Token} {op : UnaryOp} (known : unaryOp? token.kind = some op)
    (more : List Token) :
    read (unary eof) (token :: more) = (do
      let operand ← read (unary eof)
      return .unary (token.span.cover operand.span) op operand : Reader Expr) more := by
  rw [read, unary, known]
  exact plain_bind rfl fun operand rest _ => rfl

theorem read_unary_primary {token : Token} (plain : unaryOp? token.kind = none)
    (more : List Token) :
    read (unary eof) (token :: more) = read (primary eof) (token :: more) := by
  rw [read, unary, plain]
  rfl

/-- Every expression begins with an operand, so all levels fail alike without one. -/
theorem read_tier_nil (n : Nat) :
    read (tier eof n) [] = .error (mismatch eof .expression []) := by
  induction n with
  | zero => rw [read_tier_zero, read_unary_nil]
  | succ n ih =>
      rw [read_tier_succ]
      exact bind_of_error ih

theorem read_primary_nil : read (primary eof) [] = .error (mismatch eof .expression []) := by
  rw [read, primary]
  rfl

/-- A name with a parenthesis behind it is a call. -/
theorem read_primary_name {token : Token} (named : token.kind = .identifier)
    (more : List Token) :
    read (primary eof) (token :: more) =
      behind (.mark .openParen) (.var token.span ⟨token.text, token.span⟩) (do
        let args ← read (arguments eof)
        let close ← read (expect eof (.mark .closeParen))
        return .call (token.span.cover close.span) ⟨token.text, token.span⟩ args) more := by
  rw [read, primary, named, behind]
  dsimp only
  cases take? (.mark .openParen) more with
  | none => rfl
  | some taken =>
      refine plain_bind rfl fun args rest _ => ?_
      exact plain_bind rfl fun close rest _ => rfl

/-- The expression in parentheses gets their span, and no node of its own. -/
theorem read_primary_group {token : Token} (opens : token.kind = .mark .openParen)
    (more : List Token) :
    read (primary eof) (token :: more) = (do
      let inner ← read (tier eof topTier)
      let close ← read (expect eof (.mark .closeParen))
      return inner.withSpan (token.span.cover close.span) : Reader Expr) more := by
  rw [read, primary, opens]
  refine plain_bind rfl fun inner rest _ => ?_
  exact plain_bind rfl fun close rest _ => rfl

/-- What begins neither with a name nor with a parenthesis has to be a literal. -/
theorem read_primary_other {token : Token} (named : token.kind ≠ .identifier)
    (opens : token.kind ≠ .mark .openParen) (more : List Token) :
    read (primary eof) (token :: more) = match literal? token with
      | some (.ok value) => .ok (.literal token.span value, more)
      | some (.error error) => .error error
      | none => .error (mismatch eof .expression (token :: more)) := by
  rw [read, primary]
  split
  · next same => exact absurd same named
  · next same => exact absurd same opens
  · cases literal? token with
    | none => rfl
    | some value => cases value <;> rfl

/-- A comma may stand behind the last argument. -/
theorem read_arguments : read (arguments eof) =
    upTo (.mark .closeParen) [] (do
      let first ← read (tier eof topTier)
      behind (.mark .comma) [first] (do
        let others ← read (arguments eof)
        return first :: others)) := by
  funext tokens
  rw [read, arguments, upTo]
  split
  · rfl
  · refine plain_bind rfl fun first rest _ => ?_
    rw [behind]
    dsimp only
    cases take? (.mark .comma) rest with
    | none => rfl
    | some taken => exact plain_bind rfl fun others rest _ => rfl

/-- Type and value are optional here, also both together. -/
theorem read_declaration : read (declaration eof) = (do
    let word ← read (expect eof (.keyword .letWord))
    let name ← read (ident eof)
    let ty ← behind (.mark .colon) none (do
      let written ← read (type eof)
      return some written.1)
    let value ← behind (.mark .equal) none (do
      let value ← read (expression eof)
      return some value)
    let close ← read (expect eof (.mark .semicolon))
    return .decl (word.span.cover close.span) name ty value) := by
  funext tokens
  rw [read, declaration]
  refine plain_bind rfl fun word rest _ => ?_
  refine plain_bind rfl fun name rest _ => ?_
  refine plain_bind ?type fun ty rest _ => ?_
  case type =>
    rw [behind]
    dsimp only
    cases take? (.mark .colon) rest with
    | none => rfl
    | some taken => exact plain_bind rfl fun written rest _ => rfl
  refine plain_bind ?value fun value rest _ => ?_
  case value =>
    rw [behind]
    dsimp only
    cases take? (.mark .equal) rest with
    | none => rfl
    | some taken => exact plain_bind rfl fun value rest _ => rfl
  exact plain_bind rfl fun close rest _ => rfl

theorem read_assignment : read (assignment eof) = (do
    let target ← read (ident eof)
    let _ ← read (expect eof (.mark .equal))
    let value ← read (expression eof)
    let close ← read (expect eof (.mark .semicolon))
    return .assign (target.span.cover close.span) target value) := by
  funext tokens
  rw [read, assignment]
  refine plain_bind rfl fun target rest _ => ?_
  refine plain_bind rfl fun equal rest _ => ?_
  refine plain_bind rfl fun value rest _ => ?_
  exact plain_bind rfl fun close rest _ => rfl

theorem read_returning : read (returning eof) = (do
    let word ← read (expect eof (.keyword .returnWord))
    let value ← upTo (.mark .semicolon) none (do
      let value ← read (expression eof)
      return some value)
    let close ← read (expect eof (.mark .semicolon))
    return .ret (word.span.cover close.span) value) := by
  funext tokens
  rw [read, returning]
  refine plain_bind rfl fun word rest _ => ?_
  refine plain_bind ?value fun value rest _ => ?_
  case value =>
    rw [upTo]
    dsimp only
    split
    · rfl
    · exact plain_bind rfl fun value rest _ => rfl
  exact plain_bind rfl fun close rest _ => rfl

theorem read_evaluation : read (evaluation eof) = (do
    let value ← read (expression eof)
    let close ← read (expect eof (.mark .semicolon))
    return .eval (value.span.cover close.span) value) := by
  funext tokens
  rw [read, evaluation]
  refine plain_bind rfl fun value rest _ => ?_
  exact plain_bind rfl fun close rest _ => rfl

theorem read_block : read (block eof) = (do
    let opening ← read (expect eof (.mark .openBrace))
    let body ← read (statements eof)
    let close ← read (expect eof (.mark .closeBrace))
    return .block (opening.span.cover close.span) body) := by
  funext tokens
  rw [read, block]
  refine plain_bind rfl fun opening rest _ => ?_
  refine plain_bind rfl fun body rest _ => ?_
  exact plain_bind rfl fun close rest _ => rfl

/-- Statements are read up to a closing brace, which has to come. -/
theorem read_statements : read (statements eof) = upTo (.mark .closeBrace) [] fun tokens =>
    if tokens.isEmpty then .error (mismatch eof .statementOrBrace [])
    else (do
      let first ← read (statement eof)
      let others ← read (statements eof)
      return first :: others : Reader (List Stmt)) tokens := by
  funext tokens
  rw [read, statements, upTo]
  cases tokens with
  | nil => rfl
  | cons token rest =>
      rw [List.isEmpty_cons, if_neg Bool.false_ne_true]
      split
      · rfl
      · refine plain_bind rfl fun first rest _ => ?_
        exact plain_bind rfl fun others rest _ => rfl

theorem read_block_nil :
    read (block eof) [] = .error (mismatch eof (.token (.mark .openBrace)) []) := by
  rw [read_block]
  exact bind_of_error rfl

section Statement

variable {token : Token}

theorem read_statement_nil : read (statement eof) [] = .error (mismatch eof .statement []) := by
  rw [read, statement]
  rfl

theorem read_statement_skip (kind : token.kind = .mark .semicolon) (more : List Token) :
    read (statement eof) (token :: more) = .ok (.skip token.span, more) := by
  rw [read, statement, kind]
  rfl

theorem read_statement_block (kind : token.kind = .mark .openBrace) (more : List Token) :
    read (statement eof) (token :: more) = read (block eof) (token :: more) := by
  rw [read, statement, kind]
  rfl

theorem read_statement_declaration (kind : token.kind = .keyword .letWord) (more : List Token) :
    read (statement eof) (token :: more) = read (declaration eof) (token :: more) := by
  rw [read, statement, kind]
  rfl

theorem read_statement_conditional (kind : token.kind = .keyword .ifWord) (more : List Token) :
    read (statement eof) (token :: more) = read (conditional eof) (token :: more) := by
  rw [read, statement, kind]
  rfl

theorem read_statement_loop (kind : token.kind = .keyword .whileWord) (more : List Token) :
    read (statement eof) (token :: more) = (do
      let condition ← read (expression eof)
      let body ← read (block eof)
      return .loop (token.span.cover body.span) condition body : Reader Stmt) more := by
  rw [read, statement, kind]
  refine plain_bind rfl fun condition rest _ => ?_
  exact plain_bind rfl fun body rest _ => rfl

theorem read_statement_returning (kind : token.kind = .keyword .returnWord) (more : List Token) :
    read (statement eof) (token :: more) = read (returning eof) (token :: more) := by
  rw [read, statement, kind]
  rfl

/-- A name with the sign of assignment behind it begins an assignment. It takes two tokens to tell.
-/
theorem read_statement_assignment (named : token.kind = .identifier) {more : List Token}
    (assigns : peekIs (.mark .equal) more = true) :
    read (statement eof) (token :: more) = read (assignment eof) (token :: more) := by
  simp only [read, statement, named, if_pos assigns]

/-- The first tokens that tell what a statement is. Behind a name the second one does. -/
def leads : List TokenKind :=
  [.mark .semicolon, .mark .openBrace, .keyword .letWord, .keyword .ifWord, .keyword .whileWord,
    .keyword .returnWord]

/-- Every other statement is an expression that is evaluated. -/
theorem read_statement_evaluation (other : token.kind ∉ leads) {more : List Token}
    (second : token.kind = .identifier → peekIs (.mark .equal) more = false) :
    read (statement eof) (token :: more) = read (evaluation eof) (token :: more) := by
  have differs : ∀ kind ∈ leads, token.kind ≠ kind := fun kind mem same => other (same ▸ mem)
  rw [read, statement]
  split
  case h_7 named =>
    rw [if_neg (Bool.eq_false_iff.1 (second named))]
    rfl
  case h_8 => rfl
  all_goals next same => exact absurd same (differs _ (by decide))

end Statement

/-- The second branch of a conditional. -/
def alternative (eof : Span) : Reader Stmt := fun tokens =>
  if peekIs (.keyword .ifWord) tokens then read (conditional eof) tokens
  else read (block eof) tokens

/-- A second branch belongs to the conditional right before it. -/
theorem read_conditional : read (conditional eof) = (do
    let word ← read (expect eof (.keyword .ifWord))
    let condition ← read (expression eof)
    let positive ← read (block eof)
    behind (.keyword .elseWord)
      (.ite (word.span.cover positive.span) condition (some positive) none) (do
        let negative ← alternative eof
        return .ite ((word.span.cover positive.span).cover negative.span) condition
          (some positive) (some negative))) := by
  funext tokens
  rw [read, conditional]
  refine plain_bind rfl fun word rest _ => ?_
  refine plain_bind rfl fun condition rest _ => ?_
  refine plain_bind rfl fun positive rest _ => ?_
  rw [behind]
  dsimp only
  cases take? (.keyword .elseWord) rest with
  | none => rfl
  | some taken =>
      dsimp only
      split
      · next further =>
        exact plain_bind (by rw [alternative, if_pos further]; rfl) fun negative rest _ => rfl
      · next brace =>
        exact plain_bind (by rw [alternative, if_neg brace]; rfl) fun negative rest _ => rfl

theorem read_param : read (param eof) = (do
    let name ← read (ident eof)
    let _ ← read (expect eof (.mark .colon))
    let written ← read (type eof)
    return ⟨name, written.1, name.span.cover written.2⟩) := by
  funext tokens
  rw [read, param]
  refine plain_bind rfl fun name rest _ => ?_
  refine plain_bind rfl fun colon rest _ => ?_
  exact plain_bind rfl fun written rest _ => rfl

theorem read_params : read (params eof) =
    upTo (.mark .closeParen) [] (do
      let first ← read (param eof)
      behind (.mark .comma) [first] (do
        let others ← read (params eof)
        return first :: others)) := by
  funext tokens
  rw [read, params, upTo]
  split
  · rfl
  · refine plain_bind rfl fun first rest _ => ?_
    rw [behind]
    dsimp only
    cases take? (.mark .comma) rest with
    | none => rfl
    | some taken => exact plain_bind rfl fun others rest _ => rfl

/-- Without an arrow the header ends at the closing parenthesis. -/
theorem read_header : read (header eof) = (do
    let name ← read (ident eof)
    let _ ← read (expect eof (.mark .openParen))
    let ps ← read (params eof)
    let close ← read (expect eof (.mark .closeParen))
    behind (.mark .arrow) ⟨name, ps, .unit, name.span.cover close.span⟩ (do
      let written ← read (type eof)
      return ⟨name, ps, written.1, name.span.cover written.2⟩)) := by
  funext tokens
  rw [read, header]
  refine plain_bind rfl fun name rest _ => ?_
  refine plain_bind rfl fun opening rest _ => ?_
  refine plain_bind rfl fun ps rest _ => ?_
  refine plain_bind rfl fun close rest _ => ?_
  rw [behind]
  dsimp only
  cases take? (.mark .arrow) rest with
  | none => rfl
  | some taken => exact plain_bind rfl fun written rest _ => rfl

theorem read_function : read (function eof) = (do
    let word ← read (expect eof (.keyword .fnWord))
    let header ← read (header eof)
    let body ← read (block eof)
    return ⟨header, body, word.span.cover body.span⟩) := by
  funext tokens
  rw [read, function]
  refine plain_bind rfl fun word rest _ => ?_
  refine plain_bind rfl fun header rest _ => ?_
  exact plain_bind rfl fun body rest _ => rfl

/-- The functions of a module, which leave no tokens. -/
def readAll (eof : Span) : Reader (List Function) := fun tokens =>
  (functions eof tokens).map fun fs => (fs, [])

theorem readAll_nil : readAll eof [] = .ok ([], []) := by
  rw [readAll, functions]
  rfl

/-- Only functions stand at the top, so the first other token is an error. -/
theorem readAll_other {token : Token} (kind : token.kind ≠ .keyword .fnWord) (more : List Token) :
    readAll eof (token :: more) = .error ⟨.notAFunction token.text, token.span⟩ := by
  rw [readAll, functions, if_neg kind]
  rfl

/-- The functions are read one by one, and the first failure is that of the module. -/
theorem readAll_function {token : Token} (kind : token.kind = .keyword .fnWord)
    (more : List Token) :
    readAll eof (token :: more) = (do
      let first ← read (function eof)
      let others ← readAll eof
      return first :: others : Reader (List Function)) (token :: more) := by
  rw [readAll, functions, if_pos kind]
  cases outcome : function eof (token :: more) with
  | error error =>
      have failed : read (function eof) (token :: more) = .error error := by
        rw [read, outcome]
        rfl
      rw [bind_of_error failed]
      rfl
  | ok parsed =>
      have done : read (function eof) (token :: more) = .ok (parsed.value, parsed.rest) := by
        rw [read, outcome]
        rfl
      rw [bind_of_ok done]
      show Except.map _ (functions eof parsed.rest >>= fun others => _) = _
      cases others : functions eof parsed.rest with
      | error error =>
          have failed : readAll eof parsed.rest = .error error := by
            rw [readAll, others]
            rfl
          rw [bind_of_error failed]
          rfl
      | ok fs =>
          have done : readAll eof parsed.rest = .ok (fs, []) := by
            rw [readAll, others]
            rfl
          rw [bind_of_ok done]
          rfl

end Rill.Parser
