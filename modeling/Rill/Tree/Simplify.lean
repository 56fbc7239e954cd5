import Rill.Tree.Arithmetic
import Rill.Typing

/-!
# Simplified trees

Operators on literals are folded, branches and loops that a constant condition
rules out are dropped, a conditional whose only content is a second conditional
becomes one conditional on both, and blocks lose empty statements and the braces
of nested blocks that declare nothing. Ill-typed trees keep their shape: they
are reported when they are lowered.
-/

namespace Rill

namespace Expr

mutual

/-- Folds the operators whose operands are literals. -/
def simplify : Expr → Except CompileError Expr
  | .literal span value => .ok (.literal span value)
  | .var span name => .ok (.var span name)
  | .call span target args => return .call span target (← simplifyAll args)
  | .unary span op operand => do
    let operand ← operand.simplify
    match operand.literal?.bind op.apply? with
    | some value => return .literal span value
    | none => return .unary span op operand
  | .binary span op lhs rhs => do
    let lhs ← lhs.simplify
    let rhs ← rhs.simplify
    match lhs.literal?, rhs.literal? with
    | some a, some b =>
      match op.apply a b with
      | .value value => return .literal span value
      | .zeroDivisor => throw ⟨.divisionByZero, span⟩
      | .illTyped => return .binary span op lhs rhs
    | _, _ => return .binary span op lhs rhs
  | .logic span op lhs rhs => do
    let lhs ← lhs.simplify
    let rhs ← rhs.simplify
    match lhs.literal?, rhs.literal? with
    | some (.bool a), some (.bool b) => return .literal span (.bool (op.apply a b))
    | _, _ => return .logic span op lhs rhs

def simplifyAll : List Expr → Except CompileError (List Expr)
  | [] => .ok []
  | e :: es => return (← e.simplify) :: (← simplifyAll es)

end

def simplifyOpt : Option Expr → Except CompileError (Option Expr)
  | none => .ok none
  | some e => return some (← e.simplify)

/-- The value of a simplified condition if it is constant and of type bool. -/
def constantCondition (ctx : Context) (e : Expr) : Except CompileError (Option Bool) :=
  if e.isConstant then
    match e.ty ctx with
    | .ok .bool =>
      match e.literal? with
      | some (.bool b) => .ok (some b)
      | _ => .error ⟨.unfoldedConstant, e.span⟩
    | _ => .ok none
  else
    .ok none

end Expr

namespace Stmt

/-- A conditional of simplified parts: `if a { if b { p } }` turns into `if a && b { p }` where
neither has a second branch. -/
def collapse (span : Span) (condition : Expr) : Option Stmt → Option Stmt → Stmt
  | some (.block _ [.ite _ inner (some positive) none]), none =>
    .ite span (.logic (condition.span.cover inner.span) .and condition inner) (some positive) none
  | positive, negative => .ite span condition positive negative

/-- What a simplified statement contributes to the block around it. -/
def spliced : Stmt → List Stmt
  | .skip _ => []
  | .block span body => if body.any isDecl then [.block span body] else body
  | s => [s]

mutual

def simplify (ctx : Context) : Stmt → Except CompileError Stmt
  | .ite span condition positive negative => do
    let condition ← condition.simplify
    match ← condition.constantCondition ctx with
    | some true => return (← simplifyOpt ctx positive).getD (.skip span)
    | some false => return (← simplifyOpt ctx negative).getD (.skip span)
    | none =>
      let positive ← simplifyOpt ctx positive
      let negative ← simplifyOpt ctx negative
      return collapse span condition positive negative
  | .block span body => return .block span (← simplifyAll ctx body)
  | .decl span name ty value => return .decl span name ty (← Expr.simplifyOpt value)
  | .assign span target value => return .assign span target (← value.simplify)
  | .ret span value => return .ret span (← Expr.simplifyOpt value)
  | .loop span condition body => do
    let condition ← condition.simplify
    if (← condition.constantCondition ctx) = some false then
      return .skip span
    else
      return .loop span condition (← body.simplify ctx)
  | .eval span value => return .eval span (← value.simplify)
  | .skip span => .ok (.skip span)

def simplifyOpt (ctx : Context) : Option Stmt → Except CompileError (Option Stmt)
  | none => .ok none
  | some s => return some (← s.simplify ctx)

def simplifyAll (ctx : Context) : List Stmt → Except CompileError (List Stmt)
  | [] => .ok []
  | s :: rest => return (← s.simplify ctx).spliced ++ (← simplifyAll ctx rest)

end

/-- Simplifies until nothing changes, at most `n` times. -/
def simplifyTimes (ctx : Context) : Nat → Stmt → Except CompileError Stmt
  | 0, s => .ok s
  | n + 1, s => do
    let next ← s.simplify ctx
    if next.same s then return next else simplifyTimes ctx n next

end Stmt

/-- How often a body is simplified at most, unless told otherwise. -/
def defaultPasses : Nat := 8

/-- Simplifies the body at least once. No binding is in scope while that is done. -/
def Function.simplify (signatures : SignatureTable) (passes : Nat) (f : Function) :
    Except CompileError Function := do
  let ctx := Context.ofFunction f signatures
  return { f with body := ← f.body.simplifyTimes ctx (max passes 1) }

end Rill
