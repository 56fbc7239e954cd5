import Rill.Lir.Lowering
import Rill.Proofs.Scope

/-!
# Scopes are left as they are entered

What becomes of the context when a tree is lowered, also when this fails halfway. Nothing
is asked of the state it starts from, and lowering may even end in a fault. Expressions and
blocks leave the context as it was; other statements may widen its innermost scope.
-/

namespace Rill

open Lir Lir.LowerM

/-- A relation between contexts, for states of lowering. -/
def Lir.LowerState.OnContext (R : Context → Context → Prop) (S T : LowerState) : Prop :=
  R S.context T.context

open Lir.LowerState

variable {R : Context → Context → Prop} [IsPreorder Context R]

instance : IsPreorder LowerState (OnContext R) where
  refl := fun S => refl_of R S.context
  trans := fun _ _ _ => trans_of R

namespace Lir.LowerM

variable {α : Type}

theorem leaves_ofExcept (x : Except CompileError α) : Leaves (OnContext R) (ofExcept x) := by
  cases x with
  | ok a => exact .pure a
  | error e => exact .throw _

theorem leaves_context : Leaves (OnContext R) context :=
  .bind .get fun _ => .pure _

theorem leaves_check {c : CheckM α} (h : Leaves Eq c) : Leaves (OnContext R) (check c) := by
  intro S
  have same := h S.context
  rw [check]
  cases outcome : c S.context with
  | ok a ctx | error e ctx =>
      rw [outcome] at same
      obtain rfl : S.context = ctx := same
      exact refl_of R _

theorem leaves_inScope {x : LowerM α} (h : Leaves (OnContext Context.Widens) x) :
    Leaves (OnContext R) (inScope x) := by
  intro S
  have widened := h { S with context := S.context.push }
  rw [inScope]
  cases outcome : x { S with context := S.context.push } with
  | ok a T | error e T =>
      rw [outcome] at widened
      have same : T.context.pop = S.context := Context.Widens.pop_eq widened
      change R S.context T.context.pop
      rw [same]
      exact refl_of R _

theorem leaves_emit (step : Emitter → Except Fault Emitter) :
    Leaves (OnContext R) (emit step) := by
  intro S
  rw [emit]
  split <;> exact refl_of R S.context

theorem leaves_newBlock (function : Nat) (label : String) :
    Leaves (OnContext R) (newBlock function label) := by
  intro S
  rw [newBlock]
  split <;> exact refl_of R S.context

theorem leaves_newRegister (ty : Ty) : Leaves (OnContext R) (newRegister ty) :=
  fun S => refl_of R S.context

theorem leaves_moveTo (block : Nat) : Leaves (OnContext R) (moveTo block) :=
  fun S => refl_of R S.context

theorem leaves_typeOf (e : Expr) : Leaves (OnContext R) (typeOf e) :=
  .bind leaves_context fun _ => leaves_ofExcept _

theorem leaves_functionAt (span : Span) : Leaves (OnContext R) (functionAt span) :=
  .bind leaves_context fun _ => leaves_ofExcept _

end Lir.LowerM

namespace Expr

mutual

/-- Lowering an expression leaves the context alone, however it ends. -/
theorem leaves_lower : (e : Expr) → Leaves (OnContext R) e.lower
  | .literal _ _ => by
    rw [lower]
    exact .pure _
  | .var _ _ => by
    rw [lower]
    exact .bind leaves_context fun _ => .bind (leaves_ofExcept _) fun _ =>
      .bind (leaves_ofExcept _) fun _ => .pure _
  | .call _ _ args => by
    rw [lower]
    refine .bind (leaves_typeOf _) fun ty => .bind .get fun _ => ?_
    split
    · exact .throw _
    · refine .bind (leaves_lowerAll args) fun _ => ?_
      split
      · exact .bind (leaves_emit _) fun _ => .pure _
      · exact .bind (leaves_newRegister ty) fun _ => .bind (leaves_emit _) fun _ => .pure _
  | .unary _ _ operand => by
    rw [lower]
    refine .bind (leaves_typeOf _) fun ty => .bind (leaves_lower operand) fun _ => ?_
    exact .bind (leaves_newRegister ty) fun _ => .bind (leaves_emit _) fun _ => .pure _
  | .binary _ _ lhs rhs => by
    rw [lower]
    refine .bind (leaves_typeOf _) fun ty => .bind (leaves_lower lhs) fun _ =>
      .bind (leaves_lower rhs) fun _ => ?_
    exact .bind (leaves_newRegister ty) fun _ => .bind (leaves_emit _) fun _ => .pure _
  | .logic span op lhs rhs => by
    rw [lower]
    refine .bind (leaves_typeOf _) fun _ => .bind (leaves_newRegister _) fun _ =>
      .bind (leaves_lower lhs) fun _ => .bind (leaves_emit _) fun _ =>
      .bind (leaves_functionAt span) fun _ => .bind (leaves_newBlock _ _) fun _ =>
      .bind (leaves_newBlock _ _) fun _ => ?_
    cases op <;>
    exact .bind (leaves_emit _) fun _ => .bind (leaves_moveTo _) fun _ =>
      .bind (leaves_lower rhs) fun _ => .bind (leaves_emit _) fun _ =>
      .bind (leaves_emit _) fun _ => .bind (leaves_moveTo _) fun _ => .pure _

theorem leaves_lowerAll : (es : List Expr) → Leaves (OnContext R) (lowerAll es)
  | [] => by
    rw [lowerAll]
    exact .pure _
  | e :: es => by
    rw [lowerAll]
    exact .bind (leaves_lower e) fun _ => .bind (leaves_lowerAll es) fun _ => .pure _

end

theorem leaves_lowerOpt (e : Option Expr) : Leaves (OnContext R) (lowerOpt e) := by
  cases e with
  | none => exact .pure _
  | some e => exact .bind (leaves_lower e) fun _ => .pure _

end Expr

namespace Stmt

theorem leaves_checkCondition (boundary : Boundary) (condition : Expr) :
    Leaves (OnContext R) (checkCondition boundary condition) := by
  rw [checkCondition]
  refine .bind (leaves_typeOf condition) fun ty => ?_
  split
  · exact .throw _
  · exact .pure _

theorem leaves_jumpAfter (s : Stmt) (target : Nat) : Leaves (OnContext R) (s.jumpAfter target) := by
  rw [jumpAfter]
  refine .bind (leaves_check s.leaves_returnType) fun r => ?_
  split
  · exact leaves_emit _
  · exact .pure _

/-- A name is bound and gets a register, unless it has both. -/
theorem leaves_allot (name : Ident) (ty : Ty) {next : Nat → LowerM Unit}
    (h : ∀ dest, Leaves (OnContext Context.Widens) (next dest)) :
    Leaves (OnContext Context.Widens) (do
      let (binding, ctx) ← ofExcept ((← context).declare name ty)
      setContext ctx
      match binding.register with
      | some register => next register
      | none =>
        let register ← newRegister ty
        setContext ((← context).setRegister name.name register)
        next register) := by
  intro S
  change OnContext _ S (stateAfter ((ofExcept (S.context.declare name ty) >>= _) S))
  cases declared : S.context.declare name ty with
  | error e => exact refl_of (OnContext Context.Widens) S
  | ok result =>
      obtain ⟨⟨_, register, _⟩, ctx⟩ := result
      have bound : S.context.Widens ctx := .declare declared
      cases register with
      | some register => exact bound.trans (h register { S with context := ctx })
      | none =>
          have given : ctx.Widens (ctx.setRegister name.name S.emitter.registers.size) :=
            .setRegister (Context.get?_of_declare declared) rfl _
          exact (bound.trans given).trans (h _ ⟨_, (S.emitter.addRegister ty .whole).2⟩)

theorem leaves_lowerDecl (span : Span) (name : Ident) (written : Option Ty)
    (value : Option Expr) :
    Leaves (OnContext Context.Widens) (lowerDecl span name written value) := by
  rw [lowerDecl]
  refine .bind leaves_context fun _ => .bind (leaves_ofExcept _) fun ty =>
    .bind (Expr.leaves_lowerOpt value) fun source => ?_
  cases source with
  | none => exact leaves_allot name ty fun _ => .pure ()
  | some source => exact leaves_allot name ty fun dest => leaves_emit (·.push (.move dest source))

/-- The type of a returned value. -/
def returnedType (ctx : Context) : Option Expr → Except CompileError Ty
  | some value => value.ty ctx
  | none => .ok .unit

theorem lowerReturn_eq (span : Span) (value : Option Expr) :
    lowerReturn span value = (do
      let ty ← LowerM.ofExcept (returnedType (← context) value)
      let declared := (← context).returnType
      if ty ≠ declared then
        throw (.error ⟨.typeMismatch .returned declared ty, span⟩)
      let operand ← Expr.lowerOpt value
      push (.ret (if ty.isUnit then none else operand))) := by
  cases value <;> rfl

mutual

/-- Lowering a statement at most widens the context, however it ends. -/
theorem leaves_lower : (s : Stmt) → Leaves (OnContext Context.Widens) s.lower
  | .ite _ condition none _ => by
    rw [lower]
    exact .bind (leaves_checkCondition _ condition) fun _ => .throw _
  | .ite span condition (some positive) none => by
    rw [lower]
    exact .bind (leaves_checkCondition _ condition) fun _ =>
      .bind (Expr.leaves_lower condition) fun _ => .bind (leaves_functionAt span) fun _ =>
      .bind (leaves_newBlock _ _) fun _ => .bind (leaves_newBlock _ _) fun _ =>
      .bind (leaves_emit _) fun _ => .bind (leaves_moveTo _) fun _ =>
      .bind (leaves_lower positive) fun _ => .bind (positive.leaves_jumpAfter _) fun _ =>
      leaves_moveTo _
  | .ite span condition (some positive) (some negative) => by
    rw [lower]
    exact .bind (leaves_checkCondition _ condition) fun _ =>
      .bind (Expr.leaves_lower condition) fun _ => .bind (leaves_functionAt span) fun _ =>
      .bind (leaves_newBlock _ _) fun _ => .bind (leaves_newBlock _ _) fun _ =>
      .bind (leaves_newBlock _ _) fun _ => .bind (leaves_emit _) fun _ =>
      .bind (leaves_moveTo _) fun _ => .bind (leaves_lower positive) fun _ =>
      .bind (positive.leaves_jumpAfter _) fun _ => .bind (leaves_moveTo _) fun _ =>
      .bind (leaves_lower negative) fun _ => .bind (negative.leaves_jumpAfter _) fun _ =>
      leaves_moveTo _
  | .block _ body => by
    rw [lower]
    exact leaves_inScope (leaves_lowerAll body)
  | .decl span name written value => by
    rw [lower]
    exact leaves_lowerDecl span name written value
  | .assign _ _ value => by
    rw [lower, lowerAssign]
    refine .bind leaves_context fun _ => .bind (leaves_ofExcept _) fun binding =>
      .bind (leaves_typeOf value) fun ty => ?_
    split
    · exact .bind (.throw _) fun _ => .bind (leaves_ofExcept _) fun _ =>
        .bind (Expr.leaves_lower value) fun _ => leaves_emit _
    · exact .bind (leaves_ofExcept _) fun _ => .bind (Expr.leaves_lower value) fun _ =>
        leaves_emit _
  | .ret _ value => by
    rw [lower, lowerReturn_eq]
    refine .bind leaves_context fun _ => .bind (leaves_ofExcept _) fun ty =>
      .bind leaves_context fun ctx => ?_
    by_cases mismatch : ty ≠ ctx.returnType
    · rw [if_pos mismatch]
      exact .bind (.throw _) fun _ => .bind (Expr.leaves_lowerOpt value) fun _ => leaves_emit _
    · rw [if_neg mismatch]
      exact .bind (Expr.leaves_lowerOpt value) fun _ => leaves_emit _
  | .loop span condition body => by
    rw [lower]
    exact .bind (leaves_checkCondition _ condition) fun _ =>
      .bind (leaves_functionAt span) fun _ => .bind (leaves_newBlock _ _) fun _ =>
      .bind (leaves_newBlock _ _) fun _ => .bind (leaves_newBlock _ _) fun _ =>
      .bind (leaves_emit _) fun _ => .bind (leaves_moveTo _) fun _ =>
      .bind (Expr.leaves_lower condition) fun _ => .bind (leaves_emit _) fun _ =>
      .bind (leaves_moveTo _) fun _ => .bind (leaves_lower body) fun _ =>
      .bind (body.leaves_jumpAfter _) fun _ => leaves_moveTo _
  | .eval _ value => by
    rw [lower]
    exact .bind (Expr.leaves_lower value) fun _ => .pure _
  | .skip _ => by
    rw [lower]
    exact .pure _

theorem leaves_lowerAll : (body : List Stmt) → Leaves (OnContext Context.Widens) (lowerAll body)
  | [] => by
    rw [lowerAll]
    exact .pure _
  | s :: rest => by
    rw [lowerAll]
    refine .bind (leaves_lower s) fun _ => .bind (leaves_check s.leaves_returnType) fun r => ?_
    split
    · exact leaves_lowerAll rest
    · exact .pure _

end

/-- Scopes are restored, however checking and lowering end: return analysis and the lowering of a
block leave the context as it was, and the lowering of any statement at most widens it. -/
theorem scopes_restored :
    (∀ (s : Stmt) ctx, stateAfter (s.returnType ctx) = ctx) ∧
      (∀ span body S, (stateAfter ((block span body).lower S)).context = S.context) ∧
      ∀ (s : Stmt) (S : LowerState), S.context.Widens (stateAfter (s.lower S)).context := by
  refine ⟨fun s ctx => (s.leaves_returnType ctx).symm, fun span body S => ?_, leaves_lower⟩
  have same : OnContext Eq S (stateAfter ((block span body).lower S)) := by
    rw [lower]
    exact leaves_inScope (leaves_lowerAll body) S
  exact same.symm

end Stmt

end Rill
