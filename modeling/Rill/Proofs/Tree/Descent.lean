import Rill.Proofs.Tree.Reading
import Rill.Proofs.Tree.Spans

/-!
# Recursive descent ends

The functions that read call each other and themselves, and a repetition is a function that calls
itself for the next turn. `Phrase.body` is what one function does, with its calls left open, and
`attempt` is the recursion that comes of it if all calls are answered in the same way, to a depth
beyond which it gives up.

That some depth always suffices rests on a property of the bodies. A call is made with fewer
tokens, or with the same tokens by a function of a higher level than the one that is called
(`Phrase.Below`), since every function but the repetitions takes a token if it succeeds. So one
lemma for each body says that it needs no other calls (`Answers`), and the recursion follows by
induction on the depth.

The functions do not look at spans. So the attempt on some tokens is compared with the function on
the same tokens after a change of all spans (`Phrase.ReadBy`), and the one induction also says that
such a change is all that is seen in the outcome.
-/

namespace Rill.Parser

/-- Whatever is read by a function of its own, with the type of what is read. -/
inductive Phrase : Type → Type
  | terminal (kind : TokenKind) : Phrase Token
  | ident : Phrase Ident
  | type : Phrase (Ty × Span)
  | tier (n : Fin (topTier + 1)) : Phrase Expr
  | chain (n : Fin topTier) (lhs : Expr) : Phrase Expr
  | unary : Phrase Expr
  | primary : Phrase Expr
  | arguments : Phrase (List Expr)
  | declaration : Phrase Stmt
  | assignment : Phrase Stmt
  | returning : Phrase Stmt
  | evaluation : Phrase Stmt
  | block : Phrase Stmt
  | statements : Phrase (List Stmt)
  | statement : Phrase Stmt
  | conditional : Phrase Stmt
  | param : Phrase Param
  | params : Phrase (List Param)
  | header : Phrase Header
  | function : Phrase Function
  | functions : Phrase (List Function)

/-- Reading that need not end. -/
abbrev Attempt (α : Type) := StateT (List Token) (ExceptT ParseError Option) α

namespace Attempt

variable {α : Type}

/-- Goes on behind a token of the kind, if there is one. -/
def behind (kind : TokenKind) (absent : α) (present : Attempt α) : Attempt α := fun tokens =>
  match take? kind tokens with
  | none => some (.ok (absent, tokens))
  | some taken => present taken.rest

/-- Has nothing to read before a token of the kind. -/
def upTo (kind : TokenKind) (absent : α) (present : Attempt α) : Attempt α := fun tokens =>
  if peekIs kind tokens then some (.ok (absent, tokens)) else present tokens

end Attempt

namespace Phrase

/-- The function that reads a phrase. -/
def read (eof : Span) : {α : Type} → Phrase α → Reader α
  | _, .terminal kind => Parser.read (expect eof kind)
  | _, .ident => Parser.read (Parser.ident eof)
  | _, .type => Parser.read (Parser.type eof)
  | _, .tier n => Parser.read (Parser.tier eof n)
  | _, .chain n lhs => Parser.read (Parser.chain eof n lhs)
  | _, .unary => Parser.read (Parser.unary eof)
  | _, .primary => Parser.read (Parser.primary eof)
  | _, .arguments => Parser.read (Parser.arguments eof)
  | _, .declaration => Parser.read (Parser.declaration eof)
  | _, .assignment => Parser.read (Parser.assignment eof)
  | _, .returning => Parser.read (Parser.returning eof)
  | _, .evaluation => Parser.read (Parser.evaluation eof)
  | _, .block => Parser.read (Parser.block eof)
  | _, .statements => Parser.read (Parser.statements eof)
  | _, .statement => Parser.read (Parser.statement eof)
  | _, .conditional => Parser.read (Parser.conditional eof)
  | _, .param => Parser.read (Parser.param eof)
  | _, .params => Parser.read (Parser.params eof)
  | _, .header => Parser.read (Parser.header eof)
  | _, .function => Parser.read (Parser.function eof)
  | _, .functions => readAll eof

/-- What the function for a phrase does, if `call` stands for the functions that it calls. -/
def body (eof : Span) (call : {β : Type} → Phrase β → Attempt β) :
    {α : Type} → Phrase α → Attempt α
  | _, .terminal kind => fun tokens =>
    match take? kind tokens with
    | some taken => some (.ok (taken.value, taken.rest))
    | none => some (.error (mismatch eof (.token kind) tokens))
  | _, .ident => do
    let token ← call (.terminal .identifier)
    return ⟨token.text, token.span⟩
  | _, .type => fun
    | [] => some (.error (mismatch eof .type []))
    | token :: rest =>
      match token.kind with
      | .mark .openParen => (do
          let close ← call (.terminal (.mark .closeParen))
          return (.unit, token.span.cover close.span) : Attempt (Ty × Span)) rest
      | .identifier =>
        match Ty.ofName? token.text with
        | some ty => some (.ok ((ty, token.span), rest))
        | none => some (.error ⟨.unknownType token.text, token.span⟩)
      | _ => some (.error (mismatch eof .type (token :: rest)))
  | _, .tier ⟨0, _⟩ => call .unary
  | _, .tier ⟨n + 1, inside⟩ => do
    let first ← call (.tier ⟨n, Nat.lt_of_succ_lt inside⟩)
    call (.chain ⟨n, Nat.lt_of_succ_lt_succ inside⟩ first)
  | _, .chain n lhs => fun
    | [] => some (.ok (lhs, []))
    | token :: rest =>
      match joint? n token.kind with
      | none => some (.ok (lhs, token :: rest))
      | some joint => (do
          let rhs ← call (.tier n.castSucc)
          call (.chain n (joint.join lhs rhs)) : Attempt Expr) rest
  | _, .unary => fun
    | [] => some (.error (mismatch eof .expression []))
    | token :: rest =>
      match unaryOp? token.kind with
      | none => call .primary (token :: rest)
      | some op => (do
          let operand ← call .unary
          return .unary (token.span.cover operand.span) op operand : Attempt Expr) rest
  | _, .primary => fun
    | [] => some (.error (mismatch eof .expression []))
    | token :: rest =>
      match token.kind with
      | .identifier =>
        Attempt.behind (.mark .openParen) (.var token.span ⟨token.text, token.span⟩) (do
          let args ← call .arguments
          let close ← call (.terminal (.mark .closeParen))
          return .call (token.span.cover close.span) ⟨token.text, token.span⟩ args) rest
      | .mark .openParen => (do
          let inner ← call (.tier (Fin.last topTier))
          let close ← call (.terminal (.mark .closeParen))
          return inner.withSpan (token.span.cover close.span) : Attempt Expr) rest
      | _ =>
        match literal? token with
        | some (.ok value) => some (.ok (.literal token.span value, rest))
        | some (.error error) => some (.error error)
        | none => some (.error (mismatch eof .expression (token :: rest)))
  | _, .arguments =>
    Attempt.upTo (.mark .closeParen) [] (do
      let first ← call (.tier (Fin.last topTier))
      Attempt.behind (.mark .comma) [first] (do
        let others ← call .arguments
        return first :: others))
  | _, .declaration => do
    let word ← call (.terminal (.keyword .letWord))
    let name ← call .ident
    let ty ← Attempt.behind (.mark .colon) none (do
      let written ← call .type
      return some written.1)
    let value ← Attempt.behind (.mark .equal) none (do
      let value ← call (.tier (Fin.last topTier))
      return some value)
    let close ← call (.terminal (.mark .semicolon))
    return .decl (word.span.cover close.span) name ty value
  | _, .assignment => do
    let target ← call .ident
    let _ ← call (.terminal (.mark .equal))
    let value ← call (.tier (Fin.last topTier))
    let close ← call (.terminal (.mark .semicolon))
    return .assign (target.span.cover close.span) target value
  | _, .returning => do
    let word ← call (.terminal (.keyword .returnWord))
    let value ← Attempt.upTo (.mark .semicolon) none (do
      let value ← call (.tier (Fin.last topTier))
      return some value)
    let close ← call (.terminal (.mark .semicolon))
    return .ret (word.span.cover close.span) value
  | _, .evaluation => do
    let value ← call (.tier (Fin.last topTier))
    let close ← call (.terminal (.mark .semicolon))
    return .eval (value.span.cover close.span) value
  | _, .block => do
    let opening ← call (.terminal (.mark .openBrace))
    let body ← call .statements
    let close ← call (.terminal (.mark .closeBrace))
    return .block (opening.span.cover close.span) body
  | _, .statements =>
    Attempt.upTo (.mark .closeBrace) [] fun tokens =>
      if tokens.isEmpty then some (.error (mismatch eof .statementOrBrace []))
      else (do
        let first ← call .statement
        let others ← call .statements
        return first :: others : Attempt (List Stmt)) tokens
  | _, .statement => fun
    | [] => some (.error (mismatch eof .statement []))
    | token :: rest =>
      match token.kind with
      | .mark .semicolon => some (.ok (.skip token.span, rest))
      | .mark .openBrace => call .block (token :: rest)
      | .keyword .letWord => call .declaration (token :: rest)
      | .keyword .ifWord => call .conditional (token :: rest)
      | .keyword .whileWord => (do
          let condition ← call (.tier (Fin.last topTier))
          let body ← call .block
          return .loop (token.span.cover body.span) condition body : Attempt Stmt) rest
      | .keyword .returnWord => call .returning (token :: rest)
      | .identifier =>
        if peekIs (.mark .equal) rest then call .assignment (token :: rest)
        else call .evaluation (token :: rest)
      | _ => call .evaluation (token :: rest)
  | _, .conditional => do
    let word ← call (.terminal (.keyword .ifWord))
    let condition ← call (.tier (Fin.last topTier))
    let positive ← call .block
    Attempt.behind (.keyword .elseWord)
      (.ite (word.span.cover positive.span) condition (some positive) none) (do
        let negative ← fun tokens =>
          if peekIs (.keyword .ifWord) tokens then call .conditional tokens
          else call .block tokens
        return .ite ((word.span.cover positive.span).cover negative.span) condition
          (some positive) (some negative))
  | _, .param => do
    let name ← call .ident
    let _ ← call (.terminal (.mark .colon))
    let written ← call .type
    return ⟨name, written.1, name.span.cover written.2⟩
  | _, .params =>
    Attempt.upTo (.mark .closeParen) [] (do
      let first ← call .param
      Attempt.behind (.mark .comma) [first] (do
        let others ← call .params
        return first :: others))
  | _, .header => do
    let name ← call .ident
    let _ ← call (.terminal (.mark .openParen))
    let ps ← call .params
    let close ← call (.terminal (.mark .closeParen))
    Attempt.behind (.mark .arrow) ⟨name, ps, .unit, name.span.cover close.span⟩ (do
      let written ← call .type
      return ⟨name, ps, written.1, name.span.cover written.2⟩)
  | _, .function => do
    let word ← call (.terminal (.keyword .fnWord))
    let header ← call .header
    let body ← call .block
    return ⟨header, body, word.span.cover body.span⟩
  | _, .functions => fun
    | [] => some (.ok ([], []))
    | token :: rest =>
      if token.kind = .keyword .fnWord then
        (do
          let first ← call .function
          let others ← call .functions
          return first :: others : Attempt (List Function)) (token :: rest)
      else
        some (.error ⟨.notAFunction token.text, token.span⟩)

/-- Repetitions may read nothing. -/
def repeats : {α : Type} → Phrase α → Bool
  | _, .chain .. | _, .arguments | _, .statements | _, .params | _, .functions => true
  | _, _ => false

/-- Functions call only lower ones before they have taken a token. -/
def level : {α : Type} → Phrase α → Nat
  | _, .terminal _ | _, .chain .. => 0
  | _, .ident | _, .type | _, .primary | _, .declaration | _, .returning | _, .block
  | _, .conditional | _, .function => 1
  | _, .unary | _, .assignment | _, .param | _, .header | _, .functions => 2
  | _, .params => 3
  | _, .tier n => n + 3
  | _, .arguments | _, .evaluation => 9
  | _, .statement => 10
  | _, .statements => 11

theorem level_lt {α : Type} (p : Phrase α) : p.level < 12 := by
  cases p with
  | tier n =>
      have := n.isLt
      simp only [topTier] at this
      simp only [level]
      omega
  | _ => simp [level]

/-- Tokens have been taken since, or the call goes to a lower level. Only the former will do for a
repetition, so that it takes a token in each turn. -/
def Below {α β : Type} (q : Phrase β) (rest : List Token) (p : Phrase α) (tokens : List Token) :
    Prop :=
  (rest <:+ tokens ∧ rest ≠ tokens) ∨ (rest = tokens ∧ q.repeats = false ∧ q.level < p.level)

instance {α β : Type} (q : Phrase β) (rest : List Token) (p : Phrase α) (tokens : List Token) :
    Decidable (q.Below rest p tokens) :=
  inferInstanceAs (Decidable (_ ∨ _))

/-- Everything but a repetition takes a token. -/
theorem length_read {α : Type} {eof : Span} {p : Phrase α} {tokens rest : List Token} {value : α}
    (h : p.read eof tokens = .ok (value, rest)) :
    rest.length + (if p.repeats then 0 else 1) ≤ tokens.length := by
  cases p with
  | functions =>
      obtain ⟨fs, _, same⟩ := except_map_eq_ok.1 h
      cases same
      exact Nat.zero_le _
  | _ => exact length_of_read h

/-- A change of spans inside a phrase: a chain goes on from an expression. -/
def mapSpans (φ : Span → Span) : {α : Type} → Phrase α → Phrase α
  | _, .chain n lhs => .chain n (lhs.mapSpans φ)
  | _, p => p

theorem repeats_mapSpans {α : Type} (φ : Span → Span) (p : Phrase α) :
    (p.mapSpans φ).repeats = p.repeats := by
  cases p <;> rfl

theorem mapSpans_id {α : Type} (p : Phrase α) : p.mapSpans id = p := by
  cases p with
  | chain n lhs => exact congrArg (Phrase.chain n) lhs.mapSpans_id
  | _ => rfl

/-- A change of spans in what is read. -/
def move (φ : Span → Span) : {α : Type} → Phrase α → α → α
  | _, .terminal _ => Token.mapSpan φ
  | _, .ident => Ident.mapSpan φ
  | _, .type => Prod.map id φ
  | _, .tier _ | _, .chain .. | _, .unary | _, .primary => Expr.mapSpans φ
  | _, .arguments => List.map (Expr.mapSpans φ)
  | _, .declaration | _, .assignment | _, .returning | _, .evaluation | _, .block
  | _, .statement | _, .conditional => Stmt.mapSpans φ
  | _, .statements => List.map (Stmt.mapSpans φ)
  | _, .param => Param.mapSpans φ
  | _, .params => List.map (Param.mapSpans φ)
  | _, .header => Header.mapSpans φ
  | _, .function => Function.mapSpans φ
  | _, .functions => List.map (Function.mapSpans φ)

theorem move_id {α : Type} (p : Phrase α) : p.move id = id := by
  have expr : Expr.mapSpans id = id := funext Expr.mapSpans_id
  have stmt : Stmt.mapSpans id = id := funext Stmt.mapSpans_id
  have function : Function.mapSpans id = id := funext Function.mapSpans_id
  cases p with
  | terminal | ident | type | param => rfl
  | tier | chain | unary | primary => exact expr
  | arguments => rw [move, expr, List.map_id_fun]
  | declaration | assignment | returning | evaluation | block | statement | conditional =>
      exact stmt
  | statements => rw [move, stmt, List.map_id_fun]
  | params => rw [move, Param.mapSpans_id, List.map_id_fun]
  | header => exact funext Header.mapSpans_id
  | function => exact function
  | functions => rw [move, function, List.map_id_fun]

end Phrase

/-- Some tokens have been taken. -/
structure Behind (rest tokens : List Token) : Prop where
  suffix : rest <:+ tokens
  shorter : rest.length < tokens.length

theorem behind_cons (token : Token) (rest : List Token) : Behind rest (token :: rest) :=
  ⟨List.suffix_cons token rest, Nat.lt_succ_self _⟩

theorem Behind.trans {rest more tokens : List Token} (h : Behind more tokens)
    (suffix : rest <:+ more) : Behind rest tokens :=
  ⟨suffix.trans h.suffix, Nat.lt_of_le_of_lt suffix.length_le h.shorter⟩

namespace Attempt

variable {α β : Type} {tokens rest : List Token}

section Steps

variable {x : Attempt α} {f : α → Attempt β}

theorem bind_of_ok {value : α} (h : x tokens = some (.ok (value, rest))) :
    (x >>= f) tokens = f value rest := by
  show Option.bind (x tokens) _ = _
  rw [h]
  rfl

theorem bind_of_error {error : ParseError} (h : x tokens = some (.error error)) :
    (x >>= f) tokens = some (.error error) := by
  show Option.bind (x tokens) _ = _
  rw [h]
  rfl

end Steps

/-- An attempt on `tokens` ends and leaves the last of them. The other outcome is the same with its
spans changed, where `m` is the change in what is read. -/
inductive Agrees (φ : Span → Span) (m : α → α) (tokens : List Token) :
    Option (Except ParseError (α × List Token)) → Except ParseError (α × List Token) → Prop
  | done (value : α) (rest : List Token) (suffix : rest <:+ tokens) :
    Agrees φ m tokens (some (.ok (value, rest))) (.ok (m value, rest.map (Token.mapSpan φ)))
  | fails (error : ParseError) :
    Agrees φ m tokens (some (.error error)) (.error (error.mapSpan φ))

namespace Agrees

variable {φ : Span → Span} {m : α → α} {m' : β → β} {x : Attempt α} {r : Reader α}
  {f : α → Attempt β} {k : α → Reader β}

theorem ok {value value' : α} (moved : value' = m value) (suffix : rest <:+ tokens) :
    Agrees φ m tokens (some (.ok (value, rest)))
      (.ok (value', rest.map (Token.mapSpan φ))) := by
  rw [moved]
  exact done value rest suffix

theorem pure {value value' : α} (moved : value' = m value) :
    Agrees φ m tokens ((Pure.pure value : Attempt α) tokens)
      ((Pure.pure value' : Reader α) (tokens.map (Token.mapSpan φ))) :=
  ok moved List.suffix_rfl

theorem mismatch (eof : Span) (wanted : Expectation) :
    Agrees φ m tokens (some (.error (Parser.mismatch eof wanted tokens)))
      (.error (Parser.mismatch (φ eof) wanted (tokens.map (Token.mapSpan φ)))) := by
  rw [← mapSpan_mismatch]
  exact fails _

theorem mono {attempted : Option (Except ParseError (α × List Token))}
    {outcome : Except ParseError (α × List Token)} (agrees : Agrees φ m rest attempted outcome)
    (suffix : rest <:+ tokens) : Agrees φ m tokens attempted outcome := by
  cases agrees with
  | done value more inside => exact done value more (inside.trans suffix)
  | fails error => exact fails error

theorem bind (first : Agrees φ m tokens (x tokens) (r (tokens.map (Token.mapSpan φ))))
    (next : ∀ value rest, rest <:+ tokens →
      r (tokens.map (Token.mapSpan φ)) = .ok (m value, rest.map (Token.mapSpan φ)) →
      Agrees φ m' rest (f value rest) (k (m value) (rest.map (Token.mapSpan φ)))) :
    Agrees φ m' tokens ((x >>= f) tokens) ((r >>= k) (tokens.map (Token.mapSpan φ))) := by
  generalize attempted : x tokens = a at first
  generalize outcome : r (tokens.map (Token.mapSpan φ)) = o at first
  cases first with
  | done value rest suffix =>
      rw [bind_of_ok attempted, Parser.bind_of_ok outcome]
      exact (next value rest suffix outcome).mono suffix
  | fails error =>
      rw [bind_of_error attempted, Parser.bind_of_error outcome]
      exact fails error

/-- A step behind tokens that have been taken leaves the next one behind them as well. -/
theorem after {front : List Token}
    (first : Agrees φ m rest (x rest) (r (rest.map (Token.mapSpan φ))))
    (behind : Behind rest front)
    (next : ∀ value more, Behind more front →
      Agrees φ m' more (f value more) (k (m value) (more.map (Token.mapSpan φ)))) :
    Agrees φ m' rest ((x >>= f) rest) ((r >>= k) (rest.map (Token.mapSpan φ))) :=
  first.bind fun value more suffix _ => next value more (behind.trans suffix)

theorem behind {kind : TokenKind} {absent absent' : α} (moved : absent' = m absent)
    (present : ∀ more, more <:+ tokens →
      Agrees φ m more (x more) (r (more.map (Token.mapSpan φ)))) :
    Agrees φ m tokens (Attempt.behind kind absent x tokens)
      (Parser.behind kind absent' r (tokens.map (Token.mapSpan φ))) := by
  rw [Attempt.behind]
  cases tokens with
  | nil => exact ok moved List.suffix_rfl
  | cons token more =>
      have inside : more <:+ token :: more := List.suffix_cons token more
      by_cases fits : token.kind = kind
      · have fits' : (token.mapSpan φ).kind = kind := fits
        rw [take?_cons fits, List.map_cons, behind_present fits']
        exact (present more inside).mono inside
      · have other : peekIs kind (token :: more) = false :=
          Bool.eq_false_iff.2 fun next => fits (peekIs_cons.1 next)
        rw [take?_eq_none other, behind_absent ((peekIs_mapSpans kind _).trans other)]
        exact ok moved List.suffix_rfl

theorem upTo {kind : TokenKind} {absent absent' : α} (moved : absent' = m absent)
    (present : Agrees φ m tokens (x tokens) (r (tokens.map (Token.mapSpan φ)))) :
    Agrees φ m tokens (Attempt.upTo kind absent x tokens)
      (Parser.upTo kind absent' r (tokens.map (Token.mapSpan φ))) := by
  rw [Attempt.upTo, Parser.upTo, peekIs_mapSpans]
  split
  · exact ok moved List.suffix_rfl
  · exact present

end Agrees

end Attempt

open Attempt (Agrees)

/-- An attempt at a phrase ends. It agrees with the function for the phrase, which reads the tokens
with their spans changed. -/
def Phrase.ReadBy {α : Type} (φ : Span → Span) (eof : Span) (p : Phrase α) (x : Attempt α)
    (tokens : List Token) : Prop :=
  Agrees φ (p.move φ) tokens (x tokens)
    ((p.mapSpans φ).read (φ eof) (tokens.map (Token.mapSpan φ)))

/-- The calls that may be made while `p` is read are answered by the functions that read. -/
def Answers {α : Type} (φ : Span → Span) (eof : Span) (call : {β : Type} → Phrase β → Attempt β)
    (p : Phrase α) (tokens : List Token) : Prop :=
  ∀ {β : Type} (q : Phrase β) (rest : List Token), q.Below rest p tokens →
    q.ReadBy φ eof (call q) rest

namespace Answers

variable {α β γ : Type} {φ : Span → Span} {eof : Span}
  {call : {β : Type} → Phrase β → Attempt β} {p : Phrase α} {q : Phrase β}
  {tokens rest : List Token} {m : γ → γ} {f : β → Attempt γ} {k : β → Reader γ}

/-- A call of a lower level with all the tokens. -/
theorem here (answers : Answers φ eof call p tokens) (q : Phrase β) (lower : q.level < p.level)
    (once : q.repeats = false) : q.ReadBy φ eof (call q) tokens :=
  answers q tokens (.inr ⟨rfl, once, lower⟩)

/-- A call after tokens have been taken. -/
theorem there (answers : Answers φ eof call p tokens) (q : Phrase β)
    (behind : Behind rest tokens) : q.ReadBy φ eof (call q) rest := by
  refine answers q rest (.inl ⟨behind.suffix, ?_⟩)
  rintro rfl
  exact Nat.lt_irrefl _ behind.shorter

/-- A first call takes tokens for all that follows. -/
theorem first (answers : Answers φ eof call p tokens) (lower : q.level < p.level)
    (once : q.repeats = false)
    (next : ∀ value rest, Behind rest tokens →
      Agrees φ m rest (f value rest) (k (q.move φ value) (rest.map (Token.mapSpan φ)))) :
    Agrees φ m tokens ((call q >>= f) tokens)
      (((q.mapSpans φ).read (φ eof) >>= k) (tokens.map (Token.mapSpan φ))) := by
  refine (answers.here q lower once).bind fun value rest suffix done => ?_
  refine next value rest ⟨suffix, ?_⟩
  have length := Phrase.length_read done
  rw [Phrase.repeats_mapSpans, once, List.length_map, List.length_map] at length
  exact length

theorem later (answers : Answers φ eof call p tokens) (behind : Behind rest tokens)
    (next : ∀ value more, Behind more tokens →
      Agrees φ m more (f value more) (k (q.move φ value) (more.map (Token.mapSpan φ)))) :
    Agrees φ m rest ((call q >>= f) rest)
      (((q.mapSpans φ).read (φ eof) >>= k) (rest.map (Token.mapSpan φ))) :=
  (answers.there q behind).after behind next

/-- Items with commas between them: only the first is read with all the tokens. -/
theorem separated {q : Phrase β} {p : Phrase (List β)} (answers : Answers φ eof call p tokens)
    (lower : q.level < p.level) (once : q.repeats = false) (each : p.move φ = List.map (q.move φ)) :
    Agrees φ (p.move φ) tokens
      (Attempt.upTo (.mark .closeParen) [] (do
        let first ← call q
        Attempt.behind (.mark .comma) [first] (do
          let others ← call p
          return first :: others)) tokens)
      (upTo (.mark .closeParen) [] (do
        let first ← (q.mapSpans φ).read (φ eof)
        behind (.mark .comma) [first] (do
          let others ← (p.mapSpans φ).read (φ eof)
          return first :: others)) (tokens.map (Token.mapSpan φ))) := by
  refine .upTo (by rw [each, List.map_nil]) ?_
  refine answers.first lower once fun first rest taken => ?_
  refine .behind (by rw [each, List.map_cons, List.map_nil]) fun more inside => ?_
  refine answers.later (taken.trans inside) fun others more _ => .pure ?_
  rw [each, List.map_cons]

end Answers

section Bodies

variable {φ : Span → Span} {eof : Span} {call : {β : Type} → Phrase β → Attempt β}
  {tokens : List Token}

theorem readBy_terminal (kind : TokenKind) :
    (Phrase.terminal kind).ReadBy φ eof ((Phrase.terminal kind).body eof call) tokens := by
  show Agrees φ (Token.mapSpan φ) tokens _ (read (expect (φ eof) kind) _)
  rw [Phrase.body]
  dsimp only
  cases tokens with
  | nil => exact .fails _
  | cons token rest =>
      by_cases fits : token.kind = kind
      · have fits' : (token.mapSpan φ).kind = kind := fits
        rw [take?_cons fits, List.map_cons, read_expect fits']
        exact .ok rfl (List.suffix_cons token rest)
      · have other : peekIs kind (token :: rest) = false :=
          Bool.eq_false_iff.2 fun next => fits (peekIs_cons.1 next)
        rw [take?_eq_none other, read_expect_error ((peekIs_mapSpans kind _).trans other)]
        exact .mismatch eof _

theorem readBy_ident (answers : Answers φ eof call .ident tokens) :
    Phrase.ident.ReadBy φ eof (Phrase.ident.body eof call) tokens := by
  show Agrees φ (Ident.mapSpan φ) tokens _ (read (ident (φ eof)) _)
  rw [Phrase.body, read_ident]
  exact answers.first (Nat.lt_succ_self _) rfl fun token rest _ => .pure rfl

theorem readBy_type (keeps : KeepsCovers φ) (answers : Answers φ eof call .type tokens) :
    Phrase.type.ReadBy φ eof (Phrase.type.body eof call) tokens := by
  show Agrees φ (Prod.map id φ) tokens _ (read (type (φ eof)) _)
  rw [Phrase.body]
  cases tokens with
  | nil => exact .mismatch eof _
  | cons token rest =>
      rw [List.map_cons]
      dsimp only
      split
      · next opens =>
        have opens' : (token.mapSpan φ).kind = .mark .openParen := opens
        rw [read_type_unit opens']
        refine .mono ?_ (List.suffix_cons token rest)
        refine answers.later (behind_cons token rest) fun close more _ => .pure ?_
        rw [Prod.map, keeps]
        rfl
      · next named =>
        have named' : (token.mapSpan φ).kind = .identifier := named
        split
        · next ty known =>
          rw [read_type_named named' (show Ty.ofName? (token.mapSpan φ).text = _ from known)]
          exact .ok rfl (List.suffix_cons token rest)
        · next unknown =>
          rw [read_type_unknown named' (show Ty.ofName? (token.mapSpan φ).text = _ from unknown)]
          exact .fails _
      · next opens named =>
        have opens' : (token.mapSpan φ).kind ≠ .mark .openParen := opens
        rw [read_type_other opens' named]
        exact .mismatch eof _

theorem readBy_tier (n : Fin (topTier + 1)) (answers : Answers φ eof call (.tier n) tokens) :
    (Phrase.tier n).ReadBy φ eof ((Phrase.tier n).body eof call) tokens := by
  show Agrees φ (Expr.mapSpans φ) tokens _ (read (tier (φ eof) n) _)
  obtain ⟨n, inside⟩ := n
  cases n with
  | zero =>
      rw [Phrase.body, read_tier_zero]
      exact answers.here .unary (Nat.lt_succ_self _) rfl
  | succ n =>
      rw [Phrase.body, read_tier_succ]
      refine answers.first (Nat.lt_succ_self _) rfl fun first rest behind => ?_
      exact answers.there (.chain ⟨n, Nat.lt_of_succ_lt_succ inside⟩ first) behind

theorem readBy_chain (keeps : KeepsCovers φ) (n : Fin topTier) (lhs : Expr)
    (answers : Answers φ eof call (.chain n lhs) tokens) :
    (Phrase.chain n lhs).ReadBy φ eof ((Phrase.chain n lhs).body eof call) tokens := by
  show Agrees φ (Expr.mapSpans φ) tokens _ (read (chain (φ eof) n (lhs.mapSpans φ)) _)
  rw [Phrase.body]
  cases tokens with
  | nil =>
      rw [read_chain_end _ (by rintro _ ⟨⟩)]
      exact .ok rfl List.suffix_rfl
  | cons token rest =>
      dsimp only
      cases known : joint? n token.kind with
      | none =>
          have ends : ∀ t ∈ ((token :: rest).map (Token.mapSpan φ)).head?,
              joint? n t.kind = none := by
            rintro _ ⟨⟩
            exact known
          rw [read_chain_end _ ends]
          exact .ok rfl List.suffix_rfl
      | some joint =>
          rw [List.map_cons,
            read_chain_joint (show joint? n (token.mapSpan φ).kind = some joint from known)]
          refine .mono ?_ (List.suffix_cons token rest)
          refine answers.later (behind_cons token rest) fun rhs more behind => ?_
          show Agrees φ _ more _ (read (chain _ _ (joint.join _ (rhs.mapSpans φ))) _)
          rw [← joint.mapSpans_join keeps]
          exact answers.there (.chain n (joint.join lhs rhs)) behind

theorem readBy_unary (keeps : KeepsCovers φ) (answers : Answers φ eof call .unary tokens) :
    Phrase.unary.ReadBy φ eof (Phrase.unary.body eof call) tokens := by
  show Agrees φ (Expr.mapSpans φ) tokens _ (read (unary (φ eof)) _)
  rw [Phrase.body]
  cases tokens with
  | nil =>
      rw [List.map_nil, read_unary_nil]
      exact .mismatch eof _
  | cons token rest =>
      rw [List.map_cons]
      dsimp only
      cases known : unaryOp? token.kind with
      | none =>
          rw [read_unary_primary (show unaryOp? (token.mapSpan φ).kind = none from known)]
          exact answers.here .primary (Nat.lt_succ_self _) rfl
      | some op =>
          rw [read_unary_op (show unaryOp? (token.mapSpan φ).kind = some op from known)]
          refine .mono ?_ (List.suffix_cons token rest)
          refine answers.later (behind_cons token rest) fun operand more _ => .pure ?_
          simp only [Phrase.move, Expr.mapSpans, Expr.span_mapSpans, Token.mapSpan,
            keeps token.span]

theorem readBy_primary (keeps : KeepsCovers φ) (answers : Answers φ eof call .primary tokens) :
    Phrase.primary.ReadBy φ eof (Phrase.primary.body eof call) tokens := by
  show Agrees φ (Expr.mapSpans φ) tokens _ (read (primary (φ eof)) _)
  rw [Phrase.body]
  cases tokens with
  | nil =>
      rw [List.map_nil, read_primary_nil]
      exact .mismatch eof _
  | cons token rest =>
      have behind : Behind rest (token :: rest) := behind_cons token rest
      rw [List.map_cons]
      dsimp only
      split
      · next named =>
        have named' : (token.mapSpan φ).kind = .identifier := named
        rw [read_primary_name named']
        refine .mono (.behind ?_ fun more inside => ?_) behind.suffix
        · rw [Expr.mapSpans]
          rfl
        refine answers.later (behind.trans inside) fun args more behind => ?_
        refine answers.later behind fun close more _ => .pure ?_
        rw [Expr.mapSpans, Expr.mapSpansAll_eq_map, keeps]
        rfl
      · next opens =>
        have opens' : (token.mapSpan φ).kind = .mark .openParen := opens
        rw [read_primary_group opens']
        refine .mono ?_ behind.suffix
        refine answers.later behind fun inner more behind => ?_
        refine answers.later behind fun close more _ => .pure ?_
        rw [Expr.mapSpans_withSpan, keeps]
        rfl
      · next named opens =>
        have named' : (token.mapSpan φ).kind ≠ .identifier := named
        rw [read_primary_other named' opens, literal?_mapSpan]
        cases literal? token with
        | none => exact .mismatch eof _
        | some value =>
            cases value with
            | error error => exact .fails error
            | ok value => exact .ok (by rw [Expr.mapSpans]; rfl) behind.suffix

theorem readBy_arguments (answers : Answers φ eof call .arguments tokens) :
    Phrase.arguments.ReadBy φ eof (Phrase.arguments.body eof call) tokens := by
  show Agrees φ (Phrase.arguments.move φ) tokens _ (read (arguments (φ eof)) _)
  rw [Phrase.body, read_arguments]
  exact answers.separated (by decide) rfl rfl

theorem readBy_declaration (keeps : KeepsCovers φ)
    (answers : Answers φ eof call .declaration tokens) :
    Phrase.declaration.ReadBy φ eof (Phrase.declaration.body eof call) tokens := by
  show Agrees φ (Stmt.mapSpans φ) tokens _ (read (declaration (φ eof)) _)
  rw [Phrase.body, read_declaration]
  refine answers.first (Nat.lt_succ_self _) rfl fun word rest behind => ?_
  refine answers.later behind fun name rest behind => ?_
  refine .after (m := id) (.behind rfl fun more inside => ?_) behind fun ty rest behind => ?_
  · exact answers.later (behind.trans inside) fun written more _ => .pure rfl
  refine .after (m := Option.map (Expr.mapSpans φ)) (.behind rfl fun more inside => ?_) behind
    fun value rest behind => ?_
  · exact answers.later (behind.trans inside) fun value more _ => .pure rfl
  refine answers.later behind fun close rest _ => .pure ?_
  rw [Stmt.mapSpans, keeps]
  rfl

theorem readBy_assignment (keeps : KeepsCovers φ)
    (answers : Answers φ eof call .assignment tokens) :
    Phrase.assignment.ReadBy φ eof (Phrase.assignment.body eof call) tokens := by
  show Agrees φ (Stmt.mapSpans φ) tokens _ (read (assignment (φ eof)) _)
  rw [Phrase.body, read_assignment]
  refine answers.first (Nat.lt_succ_self _) rfl fun target rest behind => ?_
  refine answers.later behind fun equal rest behind => ?_
  refine answers.later behind fun value rest behind => ?_
  refine answers.later behind fun close rest _ => .pure ?_
  rw [Stmt.mapSpans, keeps]
  rfl

theorem readBy_returning (keeps : KeepsCovers φ) (answers : Answers φ eof call .returning tokens) :
    Phrase.returning.ReadBy φ eof (Phrase.returning.body eof call) tokens := by
  show Agrees φ (Stmt.mapSpans φ) tokens _ (read (returning (φ eof)) _)
  rw [Phrase.body, read_returning]
  refine answers.first (Nat.lt_succ_self _) rfl fun word rest behind => ?_
  refine .after (m := Option.map (Expr.mapSpans φ)) (.upTo rfl ?_) behind
    fun value rest behind => ?_
  · exact answers.later behind fun value more _ => .pure rfl
  refine answers.later behind fun close rest _ => .pure ?_
  rw [Stmt.mapSpans, keeps]
  rfl

theorem readBy_evaluation (keeps : KeepsCovers φ)
    (answers : Answers φ eof call .evaluation tokens) :
    Phrase.evaluation.ReadBy φ eof (Phrase.evaluation.body eof call) tokens := by
  show Agrees φ (Stmt.mapSpans φ) tokens _ (read (evaluation (φ eof)) _)
  rw [Phrase.body, read_evaluation]
  refine answers.first (by decide) rfl fun value rest behind => ?_
  refine answers.later behind fun close rest _ => .pure ?_
  rw [Stmt.mapSpans, keeps, ← Expr.span_mapSpans φ value]
  rfl

theorem readBy_block (keeps : KeepsCovers φ) (answers : Answers φ eof call .block tokens) :
    Phrase.block.ReadBy φ eof (Phrase.block.body eof call) tokens := by
  show Agrees φ (Stmt.mapSpans φ) tokens _ (read (block (φ eof)) _)
  rw [Phrase.body, read_block]
  refine answers.first (Nat.lt_succ_self _) rfl fun opening rest behind => ?_
  refine answers.later behind fun body rest behind => ?_
  refine answers.later behind fun close rest _ => .pure ?_
  rw [Stmt.mapSpans, Stmt.mapSpansAll_eq_map, keeps]
  rfl

theorem readBy_statements (answers : Answers φ eof call .statements tokens) :
    Phrase.statements.ReadBy φ eof (Phrase.statements.body eof call) tokens := by
  show Agrees φ (List.map (Stmt.mapSpans φ)) tokens _ (read (statements (φ eof)) _)
  rw [Phrase.body, read_statements]
  refine .upTo rfl ?_
  cases tokens with
  | nil => exact .mismatch eof _
  | cons token rest =>
      refine answers.first (Nat.lt_succ_self _) rfl fun first rest behind => ?_
      exact answers.later behind fun others rest _ => .pure rfl

theorem readBy_statement (keeps : KeepsCovers φ) (answers : Answers φ eof call .statement tokens) :
    Phrase.statement.ReadBy φ eof (Phrase.statement.body eof call) tokens := by
  show Agrees φ (Stmt.mapSpans φ) tokens _ (read (statement (φ eof)) _)
  rw [Phrase.body]
  cases tokens with
  | nil =>
      rw [List.map_nil, read_statement_nil]
      exact .mismatch eof _
  | cons token rest =>
      have behind : Behind rest (token :: rest) := behind_cons token rest
      have same : (token.mapSpan φ).kind = token.kind := rfl
      rw [List.map_cons]
      dsimp only
      split
      · next kind =>
        rw [read_statement_skip (same.trans kind)]
        exact .ok (by rw [Stmt.mapSpans]; rfl) behind.suffix
      · next kind =>
        rw [read_statement_block (same.trans kind)]
        exact answers.here .block (by decide) rfl
      · next kind =>
        rw [read_statement_declaration (same.trans kind)]
        exact answers.here .declaration (by decide) rfl
      · next kind =>
        rw [read_statement_conditional (same.trans kind)]
        exact answers.here .conditional (by decide) rfl
      · next kind =>
        rw [read_statement_loop (same.trans kind)]
        refine .mono ?_ behind.suffix
        refine answers.later behind fun condition more behind => ?_
        refine answers.later behind fun body more _ => .pure ?_
        rw [Stmt.mapSpans, keeps, ← Stmt.span_mapSpans φ body]
        rfl
      · next kind =>
        rw [read_statement_returning (same.trans kind)]
        exact answers.here .returning (by decide) rfl
      · next named =>
        split
        · next assigns =>
          rw [read_statement_assignment (same.trans named) ((peekIs_mapSpans _ _).trans assigns)]
          exact answers.here .assignment (by decide) rfl
        · next other =>
          have plain : (token.mapSpan φ).kind ∉ leads := by
            rw [same, named]
            decide
          rw [read_statement_evaluation plain fun _ =>
            (peekIs_mapSpans _ _).trans (Bool.eq_false_iff.2 other)]
          exact answers.here .evaluation (by decide) rfl
      · next named =>
        have plain : (token.mapSpan φ).kind ∉ leads := by simp_all [leads]
        rw [read_statement_evaluation plain fun isNamed => absurd isNamed named]
        exact answers.here .evaluation (by decide) rfl

theorem readBy_conditional (keeps : KeepsCovers φ)
    (answers : Answers φ eof call .conditional tokens) :
    Phrase.conditional.ReadBy φ eof (Phrase.conditional.body eof call) tokens := by
  show Agrees φ (Stmt.mapSpans φ) tokens _ (read (conditional (φ eof)) _)
  rw [Phrase.body, read_conditional]
  refine answers.first (Nat.lt_succ_self _) rfl fun word rest behind => ?_
  refine answers.later behind fun condition rest behind => ?_
  refine answers.later behind fun positive rest behind => ?_
  refine .behind ?_ fun more inside => ?_
  · rw [Stmt.mapSpans, Stmt.mapSpansOpt, Stmt.mapSpansOpt, keeps,
      ← Stmt.span_mapSpans φ positive]
    rfl
  have behind : Behind more tokens := behind.trans inside
  refine .after (m := Stmt.mapSpans φ) ?_ behind fun negative more _ => .pure ?_
  · rw [alternative, peekIs_mapSpans]
    split
    · exact answers.there .conditional behind
    · exact answers.there .block behind
  · rw [Stmt.mapSpans, Stmt.mapSpansOpt, Stmt.mapSpansOpt, keeps, keeps,
      ← Stmt.span_mapSpans φ positive, ← Stmt.span_mapSpans φ negative]
    rfl

theorem readBy_param (keeps : KeepsCovers φ) (answers : Answers φ eof call .param tokens) :
    Phrase.param.ReadBy φ eof (Phrase.param.body eof call) tokens := by
  show Agrees φ (Param.mapSpans φ) tokens _ (read (param (φ eof)) _)
  rw [Phrase.body, read_param]
  refine answers.first (Nat.lt_succ_self _) rfl fun name rest behind => ?_
  refine answers.later behind fun colon rest behind => ?_
  refine answers.later behind fun written rest _ => .pure ?_
  rw [Param.mapSpans, keeps]
  rfl

theorem readBy_params (answers : Answers φ eof call .params tokens) :
    Phrase.params.ReadBy φ eof (Phrase.params.body eof call) tokens := by
  show Agrees φ (Phrase.params.move φ) tokens _ (read (params (φ eof)) _)
  rw [Phrase.body, read_params]
  exact answers.separated (Nat.lt_succ_self _) rfl rfl

theorem readBy_header (keeps : KeepsCovers φ) (answers : Answers φ eof call .header tokens) :
    Phrase.header.ReadBy φ eof (Phrase.header.body eof call) tokens := by
  show Agrees φ (Header.mapSpans φ) tokens _ (read (header (φ eof)) _)
  rw [Phrase.body, read_header]
  refine answers.first (Nat.lt_succ_self _) rfl fun name rest behind => ?_
  refine answers.later behind fun opening rest behind => ?_
  refine answers.later behind fun ps rest behind => ?_
  refine answers.later behind fun close rest behind => ?_
  refine .behind ?_ fun more inside => ?_
  · rw [Header.mapSpans, keeps]
    rfl
  refine answers.later (behind.trans inside) fun written more _ => .pure ?_
  rw [Header.mapSpans, keeps]
  rfl

theorem readBy_function (keeps : KeepsCovers φ) (answers : Answers φ eof call .function tokens) :
    Phrase.function.ReadBy φ eof (Phrase.function.body eof call) tokens := by
  show Agrees φ (Function.mapSpans φ) tokens _ (read (function (φ eof)) _)
  rw [Phrase.body, read_function]
  refine answers.first (Nat.lt_succ_self _) rfl fun word rest behind => ?_
  refine answers.later behind fun header rest behind => ?_
  refine answers.later behind fun body rest _ => .pure ?_
  rw [Function.mapSpans, keeps, ← Stmt.span_mapSpans φ body]
  rfl

theorem readBy_functions (answers : Answers φ eof call .functions tokens) :
    Phrase.functions.ReadBy φ eof (Phrase.functions.body eof call) tokens := by
  show Agrees φ (List.map (Function.mapSpans φ)) tokens _ (readAll (φ eof) _)
  rw [Phrase.body]
  cases tokens with
  | nil =>
      rw [List.map_nil, readAll_nil]
      exact .ok rfl List.suffix_rfl
  | cons token rest =>
      have same : (token.mapSpan φ).kind = token.kind := rfl
      rw [List.map_cons]
      dsimp only
      split
      · next kind =>
        rw [readAll_function (same.trans kind)]
        refine answers.first (Nat.lt_succ_self _) rfl fun first rest behind => ?_
        exact answers.later behind fun others rest _ => .pure rfl
      · next other =>
        rw [readAll_other (same ▸ other)]
        exact .fails _

/-- A body whose calls are answered as far as they descend does what the function does. -/
theorem readBy_body {α : Type} (keeps : KeepsCovers φ) (p : Phrase α)
    (answers : Answers φ eof call p tokens) : p.ReadBy φ eof (p.body eof call) tokens := by
  cases p with
  | terminal kind => exact readBy_terminal kind
  | ident => exact readBy_ident answers
  | type => exact readBy_type keeps answers
  | tier n => exact readBy_tier n answers
  | chain n lhs => exact readBy_chain keeps n lhs answers
  | unary => exact readBy_unary keeps answers
  | primary => exact readBy_primary keeps answers
  | arguments => exact readBy_arguments answers
  | declaration => exact readBy_declaration keeps answers
  | assignment => exact readBy_assignment keeps answers
  | returning => exact readBy_returning keeps answers
  | evaluation => exact readBy_evaluation keeps answers
  | block => exact readBy_block keeps answers
  | statements => exact readBy_statements answers
  | statement => exact readBy_statement keeps answers
  | conditional => exact readBy_conditional keeps answers
  | param => exact readBy_param keeps answers
  | params => exact readBy_params answers
  | header => exact readBy_header keeps answers
  | function => exact readBy_function keeps answers
  | functions => exact readBy_functions answers

end Bodies

/-- Reads with no more than `n` calls inside each other. Nothing is checked on the way: a function
that went round in a circle would use up any `n`. -/
def attempt (eof : Span) : Nat → {α : Type} → Phrase α → Attempt α
  | 0, _, _ => fun _ => none
  | n + 1, _, p => p.body eof (attempt eof n)

/-- Answers the calls made for `p`, but for those that do not descend. -/
def descending {α : Type} (eof : Span) (p : Phrase α) (tokens : List Token) {β : Type}
    (q : Phrase β) : Attempt β := fun rest =>
  if q.Below rest p tokens then some (q.read eof rest) else none

section Recursion

variable {α : Type} {eof : Span}

/-- A token outweighs all levels. -/
theorem Phrase.Below.lt {β : Type} {q : Phrase β} {rest : List Token} {p : Phrase α}
    {tokens : List Token} (below : q.Below rest p tokens) :
    12 * rest.length + q.level < 12 * tokens.length + p.level := by
  rcases below with ⟨suffix, proper⟩ | ⟨rfl, _, lower⟩
  · have shorter : rest.length < tokens.length :=
      Nat.lt_of_le_of_ne suffix.length_le fun same => proper (suffix.eq_of_length same)
    have := q.level_lt
    omega
  · omega

theorem readBy_attempt {φ : Span → Span} (keeps : KeepsCovers φ) (n : Nat) :
    ∀ {α : Type} (p : Phrase α) (tokens : List Token), 12 * tokens.length + p.level < n →
      p.ReadBy φ eof (attempt eof n p) tokens := by
  induction n with
  | zero =>
      intro α p tokens enough
      exact absurd enough (Nat.not_lt_zero _)
  | succ n ih =>
      intro α p tokens enough
      refine readBy_body keeps p fun q rest below => ih q rest ?_
      exact Nat.lt_of_lt_of_le below.lt (Nat.le_of_lt_succ enough)

/-- Without a change of spans, agreement is that the outcomes are the same. -/
theorem Phrase.readBy_id {p : Phrase α} {x : Attempt α} {tokens : List Token} :
    p.ReadBy id eof x tokens ↔ x tokens = some (p.read eof tokens) ∧
      ∀ value rest, p.read eof tokens = .ok (value, rest) → rest <:+ tokens := by
  rw [ReadBy, move_id, mapSpans_id, Token.mapSpan_id, List.map_id, id]
  generalize x tokens = attempted
  generalize p.read eof tokens = outcome
  constructor
  · intro agrees
    cases agrees with
    | done value rest suffix =>
        rw [Token.mapSpan_id, List.map_id]
        refine ⟨rfl, fun _ _ same => ?_⟩
        cases same
        exact suffix
    | fails error => exact ⟨rfl, fun _ _ failed => by cases failed⟩
  · rintro ⟨rfl, suffix⟩
    cases outcome with
    | error error => exact .fails error
    | ok result =>
        have done : Agrees id id tokens _ _ :=
          .done result.1 result.2 (suffix result.1 result.2 rfl)
        rwa [Token.mapSpan_id, List.map_id] at done

theorem attempt_eq {n : Nat} {p : Phrase α} {tokens : List Token}
    (enough : 12 * tokens.length + p.level < n) :
    attempt eof n p tokens = some (p.read eof tokens) :=
  (Phrase.readBy_id.1 (readBy_attempt keepsCovers_id n p tokens enough)).1

theorem suffix_of_read {p : Phrase α} {tokens rest : List Token} {value : α}
    (h : p.read eof tokens = .ok (value, rest)) : rest <:+ tokens :=
  (Phrase.readBy_id.1 (readBy_attempt keepsCovers_id _ p tokens (Nat.lt_succ_self _))).2
    value rest h

theorem ne_of_read {p : Phrase α} {tokens rest : List Token} {value : α}
    (once : p.repeats = false) (h : p.read eof tokens = .ok (value, rest)) : rest ≠ tokens := by
  rintro rfl
  have length := Phrase.length_read h
  rw [once] at length
  exact Nat.lt_irrefl _ length

theorem body_descending (p : Phrase α) (tokens : List Token) :
    p.body eof (descending eof p tokens) tokens = some (p.read eof tokens) := by
  refine (Phrase.readBy_id.1 (readBy_body keepsCovers_id p fun q rest below => ?_)).1
  exact Phrase.readBy_id.2 ⟨if_pos below, fun _ _ done => suffix_of_read done⟩

end Recursion

/-- Reading ends on all tokens. The recursion for the functions of a module, like the one for any
phrase, is no deeper than twelve calls for each token and the level of the phrase. Whatever is
read, the last of the tokens are left, and not all of them unless it is a repetition. And no
function makes a call that does not descend: it has the same outcome with such calls unanswered. -/
theorem descent_ends (eof : Span) (tokens : List Token) :
    (∀ n, 12 * tokens.length + 2 < n →
      attempt eof n .functions tokens = some ((functions eof tokens).map fun fs => (fs, []))) ∧
    ∀ {α : Type} (p : Phrase α),
      (∀ n, 12 * tokens.length + p.level < n →
        attempt eof n p tokens = some (p.read eof tokens)) ∧
      (∀ value rest, p.read eof tokens = .ok (value, rest) →
        rest <:+ tokens ∧ (p.repeats = false → rest ≠ tokens)) ∧
      p.body eof (descending eof p tokens) tokens = some (p.read eof tokens) := by
  refine ⟨fun n enough => attempt_eq enough, fun p => ?_⟩
  refine ⟨fun n enough => attempt_eq enough, ?_, body_descending p tokens⟩
  intro value rest done
  exact ⟨suffix_of_read done, fun once => ne_of_read once done⟩

end Rill.Parser
