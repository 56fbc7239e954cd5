import Rill.Proofs.Token.Scan

/-!
# The grammar

```text
module      -> function*
function    -> "fn" NAME "(" listed(param) ")" ( "->" type )? block
param       -> NAME ":" type
type        -> "(" ")" | "bool" | "int" | "float" | "str"
block       -> "{" statement* "}"
statement   -> ";" | block | "let" NAME ( ":" type )? ( "=" expr )? ";" | conditional
             | "while" expr block | "return" expr? ";" | NAME "=" expr ";" | expr ";"
conditional -> "if" expr block ( "else" ( conditional | block ) )?
expr        -> and ( "||" and )*
and         -> comparison ( "&&" comparison )*
comparison  -> term ( ( "==" | "!=" | "<" | "<=" | ">" | ">=" ) term )*
term        -> factor ( ( "+" | "-" ) factor )*
factor      -> unary ( ( "*" | "/" | "%" ) unary )*
unary       -> ( "!" | "-" ) unary | primary
primary     -> NAME "(" listed(expr) ")" | NAME | LITERAL | "(" expr ")"
listed(x)   -> ( x ( "," x )* ","? )?
```

A derivation is a tree with one node for every use of a rule and the tokens at its leaves. It
has the tokens that it derives, `tokens`, and the tree that it stands for, `tree`. The five
levels of binary operators are one family: `Tier 0` is `unary`, and `Tier (n + 1)` joins
expressions of `Tier n` by the operators of level `n`, from the left.
-/

namespace Rill.Grammar

open Rill.Parser (Joint topTier)

/-- A token of the kind. -/
structure Terminal (kind : TokenKind) where
  token : Token
  fits : token.kind = kind

abbrev Word (word : Keyword) := Terminal (.keyword word)

abbrev Sign (mark : Mark) := Terminal (.mark mark)

abbrev Name := Terminal .identifier

namespace Terminal

variable {kind : TokenKind}

@[ext] theorem ext {a b : Terminal kind} (h : a.token = b.token) : a = b := by
  cases a
  cases b
  cases h
  rfl

@[simp] theorem kind_token (t : Terminal kind) : t.token.kind = kind := t.fits

def span (t : Terminal kind) : Span := t.token.span

def tokens (t : Terminal kind) : List Token := [t.token]

end Terminal

def Name.ident (name : Name) : Ident := ⟨name.token.text, name.token.span⟩

/-- A mark of a table, with what the table has for it. -/
structure Operator {α : Type} (table : List (Mark × α)) where
  token : Token
  op : α
  known : ∃ mark, token.kind = .mark mark ∧ (mark, op) ∈ table

/-- The binary operators of level `n`, from the tightest. -/
def operators : Nat → List (Mark × Joint)
  | 0 => [(.star, .binary .mul), (.slash, .binary .div), (.percent, .binary .rem)]
  | 1 => [(.plus, .binary .add), (.minus, .binary .sub)]
  | 2 => [(.equalEqual, .binary .eq), (.bangEqual, .binary .ne), (.less, .binary .lt),
      (.lessEqual, .binary .le), (.greater, .binary .gt), (.greaterEqual, .binary .ge)]
  | 3 => [(.andAnd, .logic .and)]
  | 4 => [(.orOr, .logic .or)]
  | _ => []

def prefixes : List (Mark × UnaryOp) :=
  [(.bang, .not), (.minus, .neg)]

/-- What a literal stands for. An integer has to fit in 64 bits with its sign. -/
inductive Denotes (token : Token) : Literal → Prop
  | true (kind : token.kind = .boolean) (text : token.text = "true") : Denotes token (.bool true)
  | false (kind : token.kind = .boolean) (text : token.text = "false") : Denotes token (.bool false)
  | int (kind : token.kind = .integer) (digits : IsDigits token.text.toList)
      (fits : Number.ofDigits token.text.toList < 0x8000000000000000) :
      Denotes token (.int (.ofNat (Number.ofDigits token.text.toList)))
  | float (kind : token.kind = .decimal) :
      Denotes token (.float (Number.ofLiteral token.text.toList))
  | str {inner : List Char} (kind : token.kind = .string)
      (text : token.text.toList = '"' :: (inner ++ ['"'])) :
      Denotes token (.str (String.ofList (Parser.unescape inner)))

structure Constant where
  token : Token
  value : Literal
  denotes : Denotes token value

def typeNames : List (String × Ty) :=
  [("bool", .bool), ("int", .int), ("float", .float), ("str", .str)]

inductive TypeName where
  | unit (opening : Sign .openParen) (closing : Sign .closeParen)
  | named (name : Name) (ty : Ty) (known : (name.token.text, ty) ∈ typeNames)

namespace TypeName

def tokens : TypeName → List Token
  | .unit opening closing => [opening.token, closing.token]
  | .named name _ _ => [name.token]

def ty : TypeName → Ty
  | .unit .. => .unit
  | .named _ ty _ => ty

def span : TypeName → Span
  | .unit opening closing => opening.span.cover closing.span
  | .named name _ _ => name.span

end TypeName

/-- Items with a comma between neighbours; one more comma may follow the last. -/
inductive Listed (α : Type) where
  | nil
  | last (item : α)
  | cons (item : α) (comma : Sign .comma) (more : Listed α)

namespace Listed

variable {α β : Type}

def items : Listed α → List α
  | .nil => []
  | .last item => [item]
  | .cons item _ more => item :: more.items

def tokens (of : α → List Token) : Listed α → List Token
  | .nil => []
  | .last item => of item
  | .cons item comma more => of item ++ comma.token :: more.tokens of

end Listed

/-- An item behind a mark, if it is there. -/
abbrev Marked (mark : Mark) (α : Type) := Option (Sign mark × α)

namespace Marked

variable {mark : Mark} {α : Type}

def tokens (of : α → List Token) : Marked mark α → List Token
  | none => []
  | some (sign, item) => sign.token :: of item

theorem tokens_some (of : α → List Token) (sign : Sign mark) (item : α) :
    tokens of (some (sign, item)) = sign.token :: of item := rfl

end Marked

mutual

/-- An operand of level `n`. -/
inductive Tier : Nat → Type where
  | unary (operand : Unary) : Tier 0
  | chain {n : Nat} (first : Tier n) (links : Links n) : Tier (n + 1)

/-- Operators of level `n`, each with an operand behind it. -/
inductive Links : Nat → Type where
  | nil {n : Nat} : Links n
  | cons {n : Nat} (op : Operator (operators n)) (operand : Tier n) (more : Links n) : Links n

inductive Unary : Type where
  | prefixed (op : Operator prefixes) (operand : Unary)
  | primary (operand : Primary)

inductive Primary : Type where
  | call (name : Name) (opening : Sign .openParen) (args : Listed (Tier topTier))
      (closing : Sign .closeParen)
  | var (name : Name)
  | constant (literal : Constant)
  | group (opening : Sign .openParen) (inner : Tier topTier) (closing : Sign .closeParen)

end

abbrev Expr := Tier topTier

mutual

def Tier.tokens : {n : Nat} → Tier n → List Token
  | _, .unary operand => operand.tokens
  | _, .chain first links => first.tokens ++ links.tokens
termination_by structural _ e => e

def Links.tokens : {n : Nat} → Links n → List Token
  | _, .nil => []
  | _, .cons op operand more => op.token :: (operand.tokens ++ more.tokens)
termination_by structural _ links => links

def Unary.tokens : Unary → List Token
  | .prefixed op operand => op.token :: operand.tokens
  | .primary operand => operand.tokens
termination_by structural e => e

def Primary.tokens : Primary → List Token
  | .call name opening args closing =>
    name.token :: opening.token :: (argTokens args ++ [closing.token])
  | .var name => [name.token]
  | .constant literal => [literal.token]
  | .group opening inner closing => opening.token :: (inner.tokens ++ [closing.token])
termination_by structural e => e

def argTokens : Listed Expr → List Token
  | .nil => []
  | .last arg => arg.tokens
  | .cons arg comma more => arg.tokens ++ comma.token :: argTokens more
termination_by structural args => args

end

mutual

def Tier.tree : {n : Nat} → Tier n → Rill.Expr
  | _, .unary operand => operand.tree
  | _, .chain first links => links.join first.tree
termination_by structural _ e => e

/-- The operands are joined from the left. -/
def Links.join : {n : Nat} → Links n → Rill.Expr → Rill.Expr
  | _, .nil, lhs => lhs
  | _, .cons op operand more, lhs => more.join (op.op.join lhs operand.tree)
termination_by structural _ links => links

def Unary.tree : Unary → Rill.Expr
  | .prefixed op operand => .unary (op.token.span.cover operand.tree.span) op.op operand.tree
  | .primary operand => operand.tree
termination_by structural e => e

/-- Parentheses leave no node, but the expression in them gets their span. -/
def Primary.tree : Primary → Rill.Expr
  | .call name _ args closing => .call (name.span.cover closing.span) name.ident (argTrees args)
  | .var name => .var name.span name.ident
  | .constant literal => .literal literal.token.span literal.value
  | .group opening inner closing => inner.tree.withSpan (opening.span.cover closing.span)
termination_by structural e => e

def argTrees : Listed Expr → List Rill.Expr
  | .nil => []
  | .last arg => [arg.tree]
  | .cons arg _ more => arg.tree :: argTrees more
termination_by structural args => args

end

mutual

inductive Stmt : Type where
  | conditional (conditional : Conditional)
  | block (block : Block)
  | decl (word : Word .letWord) (name : Name) (type : Marked .colon TypeName)
      (value : Marked .equal Expr) (semicolon : Sign .semicolon)
  | assign (target : Name) (equal : Sign .equal) (value : Expr) (semicolon : Sign .semicolon)
  | ret (word : Word .returnWord) (value : Option Expr) (semicolon : Sign .semicolon)
  | loop (word : Word .whileWord) (condition : Expr) (body : Block)
  | eval (value : Expr) (semicolon : Sign .semicolon)
  | skip (semicolon : Sign .semicolon)

inductive Block : Type where
  | braces (opening : Sign .openBrace) (body : List Stmt) (closing : Sign .closeBrace)

/-- A conditional without a second branch, with a block for it, or with a further conditional. -/
inductive Conditional : Type where
  | plain (word : Word .ifWord) (condition : Expr) (positive : Block)
  | orBlock (word : Word .ifWord) (condition : Expr) (positive : Block)
      (otherwise : Word .elseWord) (negative : Block)
  | orConditional (word : Word .ifWord) (condition : Expr) (positive : Block)
      (otherwise : Word .elseWord) (negative : Conditional)

end

mutual

def Stmt.tokens : Stmt → List Token
  | .conditional conditional => conditional.tokens
  | .block block => block.tokens
  | .decl word name type value semicolon =>
    word.token :: name.token :: (Marked.tokens TypeName.tokens type ++
      (Marked.tokens Tier.tokens value ++ [semicolon.token]))
  | .assign target equal value semicolon =>
    target.token :: equal.token :: (value.tokens ++ [semicolon.token])
  | .ret word value semicolon => word.token :: (value.elim [] Tier.tokens ++ [semicolon.token])
  | .loop word condition body => word.token :: (condition.tokens ++ body.tokens)
  | .eval value semicolon => value.tokens ++ [semicolon.token]
  | .skip semicolon => [semicolon.token]
termination_by structural s => s

def Block.tokens : Block → List Token
  | .braces opening body closing => opening.token :: (stmtTokens body ++ [closing.token])
termination_by structural b => b

def Conditional.tokens : Conditional → List Token
  | .plain word condition positive => word.token :: (condition.tokens ++ positive.tokens)
  | .orBlock word condition positive otherwise negative =>
    word.token :: (condition.tokens ++ (positive.tokens ++ otherwise.token :: negative.tokens))
  | .orConditional word condition positive otherwise negative =>
    word.token :: (condition.tokens ++ (positive.tokens ++ otherwise.token :: negative.tokens))
termination_by structural c => c

def stmtTokens : List Stmt → List Token
  | [] => []
  | s :: rest => s.tokens ++ stmtTokens rest
termination_by structural body => body

end

mutual

def Stmt.tree : Stmt → Rill.Stmt
  | .conditional conditional => conditional.tree
  | .block block => block.tree
  | .decl word name type value semicolon =>
    .decl (word.span.cover semicolon.span) name.ident (type.map (·.2.ty)) (value.map (·.2.tree))
  | .assign target _ value semicolon =>
    .assign (target.span.cover semicolon.span) target.ident value.tree
  | .ret word value semicolon => .ret (word.span.cover semicolon.span) (value.map Tier.tree)
  | .loop word condition body =>
    .loop (word.span.cover body.tree.span) condition.tree body.tree
  | .eval value semicolon => .eval (value.tree.span.cover semicolon.span) value.tree
  | .skip semicolon => .skip semicolon.span
termination_by structural s => s

def Block.tree : Block → Rill.Stmt
  | .braces opening body closing => .block (opening.span.cover closing.span) (stmtTrees body)
termination_by structural b => b

def Conditional.tree : Conditional → Rill.Stmt
  | .plain word condition positive =>
    .ite (word.span.cover positive.tree.span) condition.tree (some positive.tree) none
  | .orBlock word condition positive _ negative =>
    .ite ((word.span.cover positive.tree.span).cover negative.tree.span) condition.tree
      (some positive.tree) (some negative.tree)
  | .orConditional word condition positive _ negative =>
    .ite ((word.span.cover positive.tree.span).cover negative.tree.span) condition.tree
      (some positive.tree) (some negative.tree)
termination_by structural c => c

def stmtTrees : List Stmt → List Rill.Stmt
  | [] => []
  | s :: rest => s.tree :: stmtTrees rest
termination_by structural body => body

end

structure Param where
  name : Name
  colon : Sign .colon
  type : TypeName

namespace Param

def tokens (p : Param) : List Token :=
  p.name.token :: p.colon.token :: p.type.tokens

def tree (p : Param) : Rill.Param :=
  ⟨p.name.ident, p.type.ty, p.name.span.cover p.type.span⟩

end Param

structure Header where
  name : Name
  opening : Sign .openParen
  params : Listed Param
  closing : Sign .closeParen
  result : Marked .arrow TypeName

namespace Header

def tokens (h : Header) : List Token :=
  h.name.token :: h.opening.token :: (h.params.tokens Param.tokens ++
    h.closing.token :: Marked.tokens TypeName.tokens h.result)

/-- Without an arrow the result is unit. -/
def tree (h : Header) : Rill.Header :=
  ⟨h.name.ident, h.params.items.map Param.tree, h.result.elim .unit (·.2.ty),
    h.name.span.cover (h.result.elim h.closing.span (·.2.span))⟩

end Header

structure Function where
  word : Word .fnWord
  header : Header
  body : Block

namespace Function

def tokens (f : Function) : List Token :=
  f.word.token :: (f.header.tokens ++ f.body.tokens)

def tree (f : Function) : Rill.Function :=
  ⟨f.header.tree, f.body.tree, f.word.span.cover f.body.tree.span⟩

end Function

/-- A derivation of a whole module. -/
structure Module where
  functions : List Function

namespace Module

def tokens (m : Module) : List Token :=
  m.functions.flatMap Function.tokens

def tree (m : Module) : Rill.Module :=
  ⟨m.functions.map Function.tree⟩

end Module

end Rill.Grammar
