import Rill.Scope

/-!
# Types of expressions and return analysis

Types are computed from the tree and the bindings in scope whenever they are
needed. `Stmt.returnType` says what a statement is sure to return, or that some
path falls through it. It works on the context in place, opening a scope for
each block, and the context outlives a failure so that one can say what becomes
of it.
-/

namespace Rill

/-- Checks that work on a context, which is still there when they fail. -/
abbrev CheckM := EStateM CompileError Context

def CheckM.ofExcept {α : Type} : Except CompileError α → CheckM α
  | .ok a => pure a
  | .error e => throw e

/-- Runs a check in a scope of its own and leaves that scope, however the check ends. -/
def CheckM.inScope {α : Type} (check : CheckM α) : CheckM α := fun ctx =>
  match check ctx.push with
  | .ok a ctx => .ok a ctx.pop
  | .error e ctx => .error e ctx.pop

def UnaryOp.accepts : UnaryOp → Ty → Bool
  | .not, ty => ty.isBool
  | .neg, ty => ty.isNumeric

def UnaryOp.usage : UnaryOp → Usage
  | .not => .logicalNot
  | .neg => .negation

def OpClass.accepts : OpClass → Ty → Bool
  | .arithmetic, ty | .comparison, ty => ty.isNumeric
  | .equality, ty => !ty.isUnit

def OpClass.usage : OpClass → Usage
  | .arithmetic => .arithmetic
  | .comparison => .comparison
  | .equality => .equality

/-- The type of the result for operands of type `ty`. -/
def OpClass.result : OpClass → Ty → Ty
  | .arithmetic, ty => ty
  | .comparison, _ | .equality, _ => .bool

namespace Expr

/-- Whether the value can be known without running the program. -/
def isConstant : Expr → Bool
  | .literal .. => true
  | .var .. | .call .. => false
  | .unary _ _ operand => operand.isConstant
  | .binary _ _ lhs rhs | .logic _ _ lhs rhs => lhs.isConstant && rhs.isConstant

mutual

def ty (ctx : Context) : Expr → Except CompileError Ty
  | .literal _ value => .ok value.ty
  | .var _ name => return (← ctx.lookup name).ty
  | .call span target args => do
    let signature ← ctx.signatures.lookup target
    if signature.params.length ≠ args.length then
      throw ⟨.argumentCount signature.params.length args.length, span⟩
    checkArgs ctx args signature.params
    return signature.returnType
  | .unary span op operand => do
    let ty ← operand.ty ctx
    if op.accepts ty then return ty else throw ⟨.invalidOperation op.usage ty, span⟩
  | .binary span op lhs rhs => do
    let left ← lhs.ty ctx
    let right ← rhs.ty ctx
    if left ≠ right then
      throw ⟨.typeMismatch .binaryOperation left right, span⟩
    if op.opClass.accepts left then
      return op.opClass.result left
    else
      throw ⟨.invalidOperation op.opClass.usage left, span⟩
  | .logic _ _ lhs rhs => do
    let left ← lhs.ty ctx
    if left ≠ .bool then
      throw ⟨.typeMismatch .logicalOperand .bool left, lhs.span⟩
    let right ← rhs.ty ctx
    if right ≠ .bool then
      throw ⟨.typeMismatch .logicalOperand .bool right, rhs.span⟩
    return .bool

/-- Arguments have the types of the parameters, one by one. -/
def checkArgs (ctx : Context) : List Expr → List Ty → Except CompileError Unit
  | arg :: args, expected :: params => do
    let actual ← arg.ty ctx
    if actual ≠ expected then
      throw ⟨.typeMismatch .functionArgument expected actual, arg.span⟩
    checkArgs ctx args params
  | _, _ => return

end

end Expr

namespace Stmt

/-- The type that a declaration binds its name with: the written one, that of the initial value, or
both if they agree. -/
def declaredType (ctx : Context) (span : Span) (name : Ident) (written : Option Ty)
    (value : Option Expr) : Except CompileError Ty := do
  let ty ←
    match written, value with
    | some ty, none => pure ty
    | none, some value => value.ty ctx
    | some ty, some value => do
      let actual ← value.ty ctx
      if ty ≠ actual then
        throw ⟨.typeMismatch .letBinding ty actual, value.span⟩
      pure ty
    | none, none => throw ⟨.cannotInfer name.name, name.span⟩
  if ty.isUnit then
    throw ⟨.invalidOperation .binding ty, span⟩
  return ty

/-- Binds the name of a declaration; other statements bind nothing. -/
def bindLocal : Stmt → CheckM Unit
  | .decl span name written value => do
    let ty ← CheckM.ofExcept (declaredType (← get) span name written value)
    let (_, ctx) ← CheckM.ofExcept ((← get).declare name ty)
    set ctx
  | _ => pure ()

mutual

/-- The type that is returned on every path through the statement, or `none` if a path falls
through. -/
def returnType : Stmt → CheckM (Option Ty)
  | .ite _ _ _ none => pure none
  | .ite span _ none (some _) => throw ⟨.malformedTree .elseWithoutThen, span⟩
  | .ite span _ (some positive) (some negative) => do
    let first ← positive.returnType
    let second ← negative.returnType
    match first, second with
    | some a, some b =>
      if a ≠ b then
        throw ⟨.typeMismatch .ifBranches a b, span⟩
      return some a
    | _, _ => return none
  | .block _ body => CheckM.inScope (returnTypeAll body)
  | .ret _ (some value) => do
    return some (← CheckM.ofExcept (value.ty (← get)))
  | .ret _ none => pure (some .unit)
  | .decl .. | .assign .. | .loop .. | .eval .. | .skip _ => pure none

/-- The type of the first statement that is sure to return; what follows it never runs. -/
def returnTypeAll : List Stmt → CheckM (Option Ty)
  | [] => pure none
  | s :: rest => do
    s.bindLocal
    match ← s.returnType with
    | some ty => return some ty
    | none => returnTypeAll rest

end

end Stmt

end Rill
