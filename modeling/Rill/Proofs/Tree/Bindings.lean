import Rill.Proofs.Computation
import Rill.Tree.Simplify

/-!
# Simplification without bindings

Simplification asks for types only to decide on a condition that is constant, and a constant
names neither a variable nor a function. So its type, or its error, is the same in every context,
and the context that a function is simplified in makes no difference. In particular nothing is
lost by binding no parameter and no local: `Stmt.simplifyBound` has them all bound where they are
visible, and comes to the same.
-/

namespace Rill

namespace Expr

/-- Literals alone have the same type whatever is visible. -/
theorem ty_eq_of_isConstant (ctx ctx' : Context) : (e : Expr) → e.isConstant = true →
    e.ty ctx = e.ty ctx'
  | .literal .., _ => by
    simp only [ty]
  | .var .., constant | .call .., constant => by
    simp only [isConstant, Bool.false_eq_true] at constant
  | .unary _ op operand, constant => by
    simp only [isConstant] at constant
    simp only [ty, ty_eq_of_isConstant ctx ctx' operand constant]
  | .binary _ op lhs rhs, constant | .logic _ op lhs rhs, constant => by
    simp only [isConstant, Bool.and_eq_true] at constant
    simp only [ty, ty_eq_of_isConstant ctx ctx' lhs constant.1,
      ty_eq_of_isConstant ctx ctx' rhs constant.2]

/-- The context is asked for a type only where the condition is constant. -/
theorem constantCondition_eq (ctx ctx' : Context) (e : Expr) :
    e.constantCondition ctx = e.constantCondition ctx' := by
  rw [constantCondition, constantCondition]
  by_cases constant : e.isConstant = true
  · rw [ty_eq_of_isConstant ctx ctx' e constant]
  · rw [if_neg constant, if_neg constant]

end Expr

/-- The context with one more binding, if it takes one. -/
def Context.binding (ctx : Context) (name : Ident) (ty : Ty) : Context :=
  match ctx.declare name ty with
  | .ok (_, ctx') => ctx'
  | .error _ => ctx

/-- The context of a body, with the parameters bound. -/
def Function.boundContext (f : Function) (signatures : SignatureTable) : Context :=
  f.header.params.foldl (fun ctx param => ctx.binding param.name param.ty)
    (.ofFunction f signatures)

namespace Stmt

mutual

/-- Simplification that goes through the scopes of a statement: every block has one of its own, and
every declaration is in force for the statements that follow it. -/
def simplifyBound (ctx : Context) : Stmt → Except CompileError Stmt
  | .ite span condition positive negative => do
    let condition ← condition.simplify
    match ← condition.constantCondition ctx with
    | some true => return (← simplifyBoundOpt ctx positive).getD (.skip span)
    | some false => return (← simplifyBoundOpt ctx negative).getD (.skip span)
    | none =>
      let positive ← simplifyBoundOpt ctx positive
      let negative ← simplifyBoundOpt ctx negative
      return collapse span condition positive negative
  | .block span body => return .block span (← simplifyBoundAll ctx.push body)
  | .decl span name ty value => return .decl span name ty (← Expr.simplifyOpt value)
  | .assign span target value => return .assign span target (← value.simplify)
  | .ret span value => return .ret span (← Expr.simplifyOpt value)
  | .loop span condition body => do
    let condition ← condition.simplify
    if (← condition.constantCondition ctx) = some false then
      return .skip span
    else
      return .loop span condition (← body.simplifyBound ctx)
  | .eval span value => return .eval span (← value.simplify)
  | .skip span => .ok (.skip span)

def simplifyBoundOpt (ctx : Context) : Option Stmt → Except CompileError (Option Stmt)
  | none => .ok none
  | some s => return some (← s.simplifyBound ctx)

def simplifyBoundAll (ctx : Context) : List Stmt → Except CompileError (List Stmt)
  | [] => .ok []
  | s :: rest =>
    return (← s.simplifyBound ctx).spliced ++
      (← simplifyBoundAll (stateAfter (s.bindLocal ctx)) rest)

end

mutual

/-- Binding the locals on the way comes to the same as not doing so. -/
theorem simplifyBound_eq (ctx ctx' : Context) : (s : Stmt) → s.simplifyBound ctx = s.simplify ctx'
  | .ite span condition positive negative => by
    have positive_eq := simplifyBoundOpt_eq ctx ctx' positive
    have negative_eq := simplifyBoundOpt_eq ctx ctx' negative
    rw [simplifyBound, simplify]
    refine bind_congr fun condition => ?_
    rw [Expr.constantCondition_eq ctx ctx']
    refine bind_congr fun value => ?_
    rcases value with _ | _ | _
    · dsimp only
      rw [positive_eq, negative_eq]
    · dsimp only
      rw [negative_eq]
    · dsimp only
      rw [positive_eq]
  | .block span body => by
    simp only [simplifyBound, simplify, simplifyBoundAll_eq ctx.push ctx' body]
  | .loop span condition body => by
    simp only [simplifyBound, simplify, simplifyBound_eq ctx ctx' body,
      Expr.constantCondition_eq ctx ctx']
  | .decl .. | .assign .. | .ret .. | .eval .. | .skip _ => by
    simp only [simplifyBound, simplify]

theorem simplifyBoundOpt_eq (ctx ctx' : Context) : (s : Option Stmt) →
    simplifyBoundOpt ctx s = simplifyOpt ctx' s
  | none => by
    simp only [simplifyBoundOpt, simplifyOpt]
  | some s => by
    simp only [simplifyBoundOpt, simplifyOpt, simplifyBound_eq ctx ctx' s]

theorem simplifyBoundAll_eq (ctx ctx' : Context) : (ss : List Stmt) →
    simplifyBoundAll ctx ss = simplifyAll ctx' ss
  | [] => by
    simp only [simplifyBoundAll, simplifyAll]
  | s :: rest => by
    simp only [simplifyBoundAll, simplifyAll, simplifyBound_eq ctx ctx' s,
      simplifyBoundAll_eq (stateAfter (s.bindLocal ctx)) ctx' rest]

end

theorem simplify_eq (ctx ctx' : Context) (s : Stmt) : s.simplify ctx = s.simplify ctx' :=
  (simplifyBound_eq ctx ctx s).symm.trans (simplifyBound_eq ctx ctx' s)

theorem simplifyTimes_eq (ctx ctx' : Context) (n : Nat) (s : Stmt) :
    s.simplifyTimes ctx n = s.simplifyTimes ctx' n := by
  induction n generalizing s with
  | zero => rfl
  | succ n ih => simp only [simplifyTimes, simplify_eq ctx ctx' s, ih]

end Stmt

/-- Simplification gives the same tree or the same error in every context. So it does no harm that
functions are simplified with nothing bound: to have all parameters and locals bound wherever they
are visible would change nothing in any round. -/
theorem Function.simplify_unbound :
    (∀ (s : Stmt) (ctx ctx' : Context), s.simplify ctx = s.simplify ctx') ∧
      (∀ (f : Function) (signatures : SignatureTable) (s : Stmt),
        s.simplify (.ofFunction f signatures) = s.simplifyBound (f.boundContext signatures)) ∧
      ∀ (f : Function) (signatures : SignatureTable) (passes : Nat) (ctx : Context),
        f.simplify signatures passes =
          (f.body.simplifyTimes ctx (max passes 1)).map fun body => { f with body } := by
  refine ⟨fun s ctx ctx' => s.simplify_eq ctx ctx', fun f signatures s => ?_,
    fun f signatures passes ctx => ?_⟩
  · exact (s.simplifyBound_eq _ _).symm
  · rw [simplify, Stmt.simplifyTimes_eq _ ctx]
    cases f.body.simplifyTimes ctx (max passes 1) <;> rfl

end Rill
