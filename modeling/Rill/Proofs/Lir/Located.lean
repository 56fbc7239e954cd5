import Rill.Lir.Lowering
import Rill.Proofs.Signature
import Rill.Proofs.Tree.Located

/-!
# Lowering fails at nodes

An error of lowering stands at a span of the tree that is lowered. Every step of lowering keeps
to this, whatever the state it starts from is.
-/

namespace Rill

open Lir Lir.LowerM

/-- An error stands at a good place. A fault has none. -/
def Lir.Failure.At (P : Span → Prop) : Failure → Prop
  | .error e => P e.span
  | .fault _ => True

variable {P : Span → Prop}

namespace Lir.LowerM

variable {α : Type}

theorem failsWith_ofExcept {good : α → Prop} {x : Except CompileError α} (h : Located P good x) :
    FailsWith (Failure.At P) (ofExcept x) := by
  cases x with
  | ok a => exact .pure a
  | error e => exact .throw h

theorem failsWith_context : FailsWith (Failure.At P) context :=
  .bind .get fun _ => .pure _

/-- A failed check of types is passed on as it is. -/
theorem failsWith_check {c : CheckM α} (h : FailsWith (P ·.span) c) :
    FailsWith (Failure.At P) (check c) := by
  intro s e t failed
  rw [check] at failed
  split at failed
  · cases failed
  · next e' ctx before =>
    cases failed
    exact h _ e' ctx before

/-- The scope is left before the error is passed on, which does not change the error. -/
theorem failsWith_inScope {x : LowerM α} (h : FailsWith (Failure.At P) x) :
    FailsWith (Failure.At P) (inScope x) := by
  intro s e t failed
  rw [inScope] at failed
  split at failed
  · cases failed
  · next e' t' before =>
    cases failed
    exact h _ e t' before

/-- Emitting reports no errors. All that can go wrong in it is a fault. -/
theorem failsWith_emit (step : Emitter → Except Fault Emitter) :
    FailsWith (Failure.At P) (emit step) := by
  intro s e t failed
  rw [emit] at failed
  split at failed
  · cases failed
  · cases failed
    trivial

theorem failsWith_newBlock (function : Nat) (label : String) :
    FailsWith (Failure.At P) (newBlock function label) := by
  intro s e t failed
  rw [newBlock] at failed
  split at failed
  · cases failed
  · cases failed
    trivial

theorem failsWith_newRegister (ty : Ty) : FailsWith (Failure.At P) (newRegister ty) := by
  rintro _ _ _ ⟨⟩

theorem failsWith_newArgument (ty : Ty) : FailsWith (Failure.At P) (newArgument ty) := by
  rintro _ _ _ ⟨⟩

theorem failsWith_typeOf {e : Expr} (all : (Node.expr e).All P) :
    FailsWith (Failure.At P) (typeOf e) :=
  .bind failsWith_context fun ctx => failsWith_ofExcept (e.located_ty ctx all)

/-- Outside of a function the error stands at the node that asked for one. -/
theorem failsWith_functionAt {span : Span} (here : P span) :
    FailsWith (Failure.At P) (functionAt span) := by
  refine .bind failsWith_context fun ctx => ?_
  rw [Context.handleAt]
  split
  · exact .pure _
  · exact .throw here

theorem failsWith_registerOf {span : Span} (here : P span) (binding : Binding) :
    FailsWith (Failure.At P) (ofExcept (registerOf binding span)) := by
  rw [registerOf]
  split
  · exact .pure _
  · exact .throw here

end Lir.LowerM

namespace Expr

mutual

/-- Lowering an expression fails at one of its nodes, which may be the name of a local or of a
callee. -/
theorem failsWith_lower : (e : Expr) → (Node.expr e).All P → FailsWith (Failure.At P) e.lower
  | .literal _ _, _ => by
    rw [lower]
    exact .pure _
  | .var _ name, all => by
    rw [lower]
    have here := (all.child (.head _)).here
    refine .bind failsWith_context fun ctx => .bind ?_ fun binding => .bind ?_ fun _ => .pure _
    · exact failsWith_ofExcept (ctx.located_lookup here)
    · exact failsWith_registerOf here binding
  | .call span target args, all => by
    rw [lower]
    have below : ∀ arg ∈ args, (Node.expr arg).All P :=
      fun arg mem => all.child (.tail _ (List.mem_map_of_mem mem))
    refine .bind (failsWith_typeOf all) fun ty => .bind .get fun s => ?_
    split
    · exact .throw (all.child (.head _)).here
    · refine .bind (failsWith_lowerAll args below) fun operands => ?_
      split
      · exact .bind (failsWith_emit _) fun _ => .pure _
      · exact .bind (failsWith_newRegister ty) fun _ => .bind (failsWith_emit _) fun _ => .pure _
  | .unary span op operand, all => by
    rw [lower]
    refine .bind (failsWith_typeOf all) fun ty => ?_
    refine .bind (operand.failsWith_lower (all.child (.head _))) fun _ => ?_
    exact .bind (failsWith_newRegister ty) fun _ => .bind (failsWith_emit _) fun _ => .pure _
  | .binary span op lhs rhs, all => by
    rw [lower]
    refine .bind (failsWith_typeOf all) fun ty => ?_
    refine .bind (lhs.failsWith_lower (all.child (.head _))) fun _ => ?_
    refine .bind (rhs.failsWith_lower (all.child (.tail _ (.head _)))) fun _ => ?_
    exact .bind (failsWith_newRegister ty) fun _ => .bind (failsWith_emit _) fun _ => .pure _
  | .logic span op lhs rhs, all => by
    rw [lower]
    refine .bind (failsWith_typeOf all) fun _ => .bind (failsWith_newRegister _) fun _ => ?_
    refine .bind (lhs.failsWith_lower (all.child (.head _))) fun _ => ?_
    refine .bind (failsWith_emit _) fun _ => .bind (failsWith_functionAt all.here) fun _ => ?_
    refine .bind (failsWith_newBlock _ _) fun _ => .bind (failsWith_newBlock _ _) fun _ => ?_
    -- What comes after the branch does not depend on the operator.
    have rest : ∀ dest last middle : Nat, FailsWith (Failure.At P) (do
        moveTo middle
        let rhs ← rhs.lower
        push (.move dest rhs)
        jump last
        moveTo last
        return Operand.reg dest) := by
      intro dest last middle
      refine .bind (.update _) fun _ => ?_
      refine .bind (rhs.failsWith_lower (all.child (.tail _ (.head _)))) fun _ => ?_
      exact .bind (failsWith_emit _) fun _ => .bind (failsWith_emit _) fun _ =>
        .bind (.update _) fun _ => .pure _
    cases op with
    | and => exact .bind (failsWith_emit _) fun _ => rest _ _ _
    | or => exact .bind (failsWith_emit _) fun _ => rest _ _ _

theorem failsWith_lowerAll : (es : List Expr) → (∀ e ∈ es, (Node.expr e).All P) →
    FailsWith (Failure.At P) (lowerAll es)
  | [], _ => by
    rw [lowerAll]
    exact .pure _
  | e :: es, all => by
    rw [lowerAll]
    refine .bind (e.failsWith_lower (all e List.mem_cons_self)) fun _ => ?_
    exact .bind (failsWith_lowerAll es fun e mem => all e (List.mem_cons_of_mem _ mem))
      fun _ => .pure _

end

theorem failsWith_lowerOpt {e : Option Expr} (all : ∀ e' ∈ e.toList, (Node.expr e').All P) :
    FailsWith (Failure.At P) (lowerOpt e) := by
  cases e with
  | none => exact .pure _
  | some e => exact .bind (e.failsWith_lower (all e (.head _))) fun _ => .pure _

end Expr

namespace Stmt

/-- A condition of another type is an error at the condition, not at its statement. -/
theorem failsWith_checkCondition {condition : Expr} (all : (Node.expr condition).All P)
    (boundary : Boundary) : FailsWith (Failure.At P) (checkCondition boundary condition) := by
  refine .bind (failsWith_typeOf all) fun ty => ?_
  split
  · exact .throw all.here
  · exact .pure _

/-- Return analysis is run once more behind a branch, on the same tree. -/
theorem failsWith_jumpAfter {s : Stmt} (all : (Node.stmt s).All P) (target : Nat) :
    FailsWith (Failure.At P) (s.jumpAfter target) := by
  refine .bind (failsWith_check (s.failsWith_returnType all)) fun returned => ?_
  split
  · exact failsWith_emit _
  · exact .pure _

theorem failsWith_lowerDecl {span : Span} {name : Ident} {written : Option Ty}
    {value : Option Expr} (all : (Node.stmt (.decl span name written value)).All P) :
    FailsWith (Failure.At P) (lowerDecl span name written value) := by
  have initial : ∀ e ∈ value.toList, (Node.expr e).All P :=
    fun e mem => all.child (.tail _ (List.mem_map_of_mem mem))
  refine .bind failsWith_context fun ctx => ?_
  refine .bind (failsWith_ofExcept (located_declaredType ctx all)) fun ty => ?_
  refine .bind (Expr.failsWith_lowerOpt initial) fun source => ?_
  refine .bind failsWith_context fun ctx' => ?_
  refine .bind (failsWith_ofExcept (ctx'.located_declare (all.child (.head _)).here ty)) ?_
  rintro ⟨binding, next⟩
  refine .bind (.update _) fun _ => ?_
  dsimp only
  split
  · refine .bind (.pure _) fun dest => ?_
    split
    · exact failsWith_emit _
    · exact .pure _
  · refine .bind (failsWith_newRegister ty) fun register => .bind failsWith_context fun _ => ?_
    refine .bind (.update _) fun _ => .bind (.pure _) fun dest => ?_
    split
    · exact failsWith_emit _
    · exact .pure _

theorem failsWith_lowerAssign {target : Ident} {value : Expr} (here : P target.span)
    (all : (Node.expr value).All P) : FailsWith (Failure.At P) (lowerAssign target value) := by
  refine .bind failsWith_context fun ctx => ?_
  refine .bind (failsWith_ofExcept (ctx.located_lookup here)) fun binding => ?_
  refine .bind (failsWith_typeOf all) fun ty => ?_
  by_cases same : ty = binding.ty
  · rw [if_neg (not_not_intro same)]
    exact .bind (failsWith_registerOf here binding) fun _ =>
      .bind (value.failsWith_lower all) fun _ => failsWith_emit _
  · rw [if_pos same]
    refine .throw_bind ?_ _
    exact all.here

/-- A value of another type than the declared one is an error at the statement. -/
theorem failsWith_lowerReturn {span : Span} {value : Option Expr} (here : P span)
    (all : ∀ e ∈ value.toList, (Node.expr e).All P) :
    FailsWith (Failure.At P) (lowerReturn span value) := by
  have typed : ∀ ty : Ty, FailsWith (Failure.At P) (do
      let declared := (← context).returnType
      if ty ≠ declared then
        throw (.error ⟨.typeMismatch .returned declared ty, span⟩)
      let operand ← Expr.lowerOpt value
      push (.ret (if ty.isUnit then none else operand))) := by
    intro ty
    refine .bind failsWith_context fun ctx => ?_
    by_cases same : ty = ctx.returnType
    · rw [if_neg (not_not_intro same)]
      exact .bind (Expr.failsWith_lowerOpt all) fun _ => failsWith_emit _
    · rw [if_pos same]
      refine .throw_bind ?_ _
      exact here
  cases value with
  | none => exact .bind (.pure _) typed
  | some value => exact .bind (failsWith_typeOf (all value (.head _))) typed

mutual

/-- Lowering a statement fails at one of its nodes. -/
theorem failsWith_lower : (s : Stmt) → (Node.stmt s).All P → FailsWith (Failure.At P) s.lower
  | .ite span condition none _, all => by
    rw [lower]
    exact .bind (failsWith_checkCondition (all.child (.head _)) _) fun _ => .throw all.here
  | .ite span condition (some positive) none, all => by
    rw [lower]
    have first := all.child (.head _)
    have second := all.child (.tail _ (.head _))
    refine .bind (failsWith_checkCondition first _) fun _ => ?_
    refine .bind (condition.failsWith_lower first) fun _ => ?_
    refine .bind (failsWith_functionAt all.here) fun _ => ?_
    refine .bind (failsWith_newBlock _ _) fun _ => .bind (failsWith_newBlock _ _) fun _ => ?_
    refine .bind (failsWith_emit _) fun _ => .bind (.update _) fun _ => ?_
    refine .bind (positive.failsWith_lower second) fun _ => ?_
    exact .bind (failsWith_jumpAfter second _) fun _ => .update _
  | .ite span condition (some positive) (some negative), all => by
    rw [lower]
    have first := all.child (.head _)
    have second := all.child (.tail _ (.head _))
    have third := all.child (.tail _ (.tail _ (.head _)))
    refine .bind (failsWith_checkCondition first _) fun _ => ?_
    refine .bind (condition.failsWith_lower first) fun _ => ?_
    refine .bind (failsWith_functionAt all.here) fun _ => ?_
    refine .bind (failsWith_newBlock _ _) fun _ => .bind (failsWith_newBlock _ _) fun _ =>
      .bind (failsWith_newBlock _ _) fun _ => ?_
    refine .bind (failsWith_emit _) fun _ => .bind (.update _) fun _ => ?_
    refine .bind (positive.failsWith_lower second) fun _ => ?_
    refine .bind (failsWith_jumpAfter second _) fun _ => .bind (.update _) fun _ => ?_
    refine .bind (negative.failsWith_lower third) fun _ => ?_
    exact .bind (failsWith_jumpAfter third _) fun _ => .update _
  | .block _ body, all => by
    rw [lower]
    exact failsWith_inScope
      (failsWith_lowerAll body fun s mem => all.child (List.mem_map_of_mem mem))
  | .decl span name ty value, all => by
    rw [lower]
    exact failsWith_lowerDecl all
  | .assign _ target value, all => by
    rw [lower]
    exact failsWith_lowerAssign (all.child (.head _)).here (all.child (.tail _ (.head _)))
  | .ret span value, all => by
    rw [lower]
    exact failsWith_lowerReturn all.here fun e mem => all.child (List.mem_map_of_mem mem)
  | .loop span condition body, all => by
    rw [lower]
    have first := all.child (.head _)
    have second := all.child (.tail _ (.head _))
    refine .bind (failsWith_checkCondition first _) fun _ => ?_
    refine .bind (failsWith_functionAt all.here) fun _ => ?_
    refine .bind (failsWith_newBlock _ _) fun _ => .bind (failsWith_newBlock _ _) fun _ =>
      .bind (failsWith_newBlock _ _) fun _ => ?_
    refine .bind (failsWith_emit _) fun _ => .bind (.update _) fun _ => ?_
    refine .bind (condition.failsWith_lower first) fun _ => ?_
    refine .bind (failsWith_emit _) fun _ => .bind (.update _) fun _ => ?_
    refine .bind (body.failsWith_lower second) fun _ => ?_
    exact .bind (failsWith_jumpAfter second _) fun _ => .update _
  | .eval _ value, all => by
    rw [lower]
    exact .bind (value.failsWith_lower (all.child (.head _))) fun _ => .pure _
  | .skip _, _ => by
    rw [lower]
    exact .pure _

theorem failsWith_lowerAll : (body : List Stmt) → (∀ s ∈ body, (Node.stmt s).All P) →
    FailsWith (Failure.At P) (lowerAll body)
  | [], _ => by
    rw [lowerAll]
    exact .pure _
  | s :: rest, all => by
    rw [lowerAll]
    have first := all s List.mem_cons_self
    refine .bind (s.failsWith_lower first) fun _ => ?_
    refine .bind (failsWith_check (s.failsWith_returnType first)) fun returned => ?_
    split
    · exact failsWith_lowerAll rest fun s mem => all s (List.mem_cons_of_mem _ mem)
    · exact .pure _

end

end Stmt

namespace Function

theorem failsWith_bindParam {param : Param} (all : (Node.param param).All P) :
    FailsWith (Failure.At P) (bindParam param) := by
  rw [bindParam]
  split
  · refine .throw_bind ?_ _
    exact all.here
  · refine .bind (failsWith_newArgument _) fun _ => .bind failsWith_context fun ctx => ?_
    refine .bind (failsWith_ofExcept (ctx.located_declare (all.child (.head _)).here _)) ?_
    exact fun _ => .update _

theorem failsWith_forM_bindParam {params : List Param}
    (all : ∀ param ∈ params, (Node.param param).All P) :
    FailsWith (Failure.At P) (params.forM bindParam) := by
  induction params with
  | nil => exact .pure _
  | cons param params ih =>
      refine .bind (failsWith_bindParam (all param List.mem_cons_self)) fun _ => ?_
      exact ih fun param mem => all param (List.mem_cons_of_mem _ mem)

variable {f : Function}

/-- A body that comes to its end without a value is an error at the header. -/
theorem failsWith_lowerBody (all : (Node.function f).All P) :
    FailsWith (Failure.At P) f.lowerBody := by
  have body := all.child (.tail _ (.head _))
  refine .bind (failsWith_check (f.body.failsWith_returnType body)) fun returned => ?_
  refine .bind (f.body.failsWith_lower body) fun _ => .bind .get fun s => ?_
  split
  · exact .pure _
  · split
    · exact failsWith_emit _
    · split
      · exact .throw (all.child (.head _)).here
      · exact failsWith_emit _

/-- An error of lowering a function stands at a node of its tree, the function itself included. -/
theorem at_of_lower {signatures : SignatureTable} {failure : Failure}
    (all : (Node.function f).All P) (failed : f.lower signatures = .error failure) :
    failure.At P := by
  have header := all.child (.head _)
  rw [lower] at failed
  split at failed
  · cases failed
    exact (header.child (.head _)).here
  · next id found =>
    have steps : FailsWith (Failure.At P) (do
        let entry ← newBlock id "entry"
        moveTo entry
        f.header.params.forM bindParam
        f.lowerBody) := by
      refine .bind (failsWith_newBlock _ _) fun _ => .bind (.update _) fun _ => ?_
      refine .bind (failsWith_forM_bindParam fun param mem => ?_) fun _ => failsWith_lowerBody all
      exact header.child (.tail _ (List.mem_map_of_mem mem))
    dsimp only at failed
    split at failed
    · cases failed
    · next failure' s before =>
      cases failed
      exact steps _ _ s before

end Function

end Rill
