import Mathlib.Logic.Basic
import Rill.Proofs.Lir.Emitter
import Rill.Proofs.Lir.Scoping
import Rill.Proofs.Tree.Shape

/-!
# How a lowering goes

When the lowering of a tree succeeds, so have the lowerings of its parts, and what was
emitted between them is known. There is one lemma for every kind of expression and
statement, and proofs about lowering go through these. New blocks and registers have
the next free numbers, so they are written out here.
-/

namespace Rill

open Lir

namespace Lir

namespace LowerM

variable {α : Type} {S S' : LowerState}

theorem ofExcept_eq_ok {r : Except CompileError α} {a : α} :
    ofExcept r S = .ok a S' ↔ r = .ok a ∧ S = S' := by
  cases r with
  | ok b => simp only [ofExcept, pure_eq_ok, Except.ok.injEq]
  | error e => simp only [ofExcept, throw_eq_ok, reduceCtorEq, false_and]

theorem context_eq_ok {ctx : Context} : context S = .ok ctx S' ↔ S.context = ctx ∧ S = S' := by
  simp only [context, bind_eq_ok, get_eq_ok, pure_eq_ok]
  constructor
  · rintro ⟨_, _, ⟨rfl, rfl⟩, rfl, rfl⟩
    exact ⟨rfl, rfl⟩
  · rintro ⟨rfl, rfl⟩
    exact ⟨S, S, ⟨rfl, rfl⟩, rfl, rfl⟩

theorem setContext_eq_ok {ctx : Context} {u : Unit} :
    setContext ctx S = .ok u S' ↔ S' = { S with context := ctx } := by
  rw [setContext, modify_eq_ok, eq_comm]

theorem check_eq_ok {c : CheckM α} {a : α} :
    check c S = .ok a S' ↔ ∃ ctx, c S.context = .ok a ctx ∧ S' = { S with context := ctx } := by
  rw [check]
  cases c S.context with
  | ok b ctx =>
      simp only [EStateM.Result.ok.injEq]
      grind
  | error e ctx => simp

theorem inScope_eq_ok {x : LowerM α} {a : α} :
    inScope x S = .ok a S' ↔ ∃ T, x { S with context := S.context.push } = .ok a T ∧
      S' = { T with context := T.context.pop } := by
  rw [inScope]
  cases x { S with context := S.context.push } with
  | ok b T =>
      simp only [EStateM.Result.ok.injEq]
      grind
  | error e T => simp

theorem emit_eq_ok {step : Emitter → Except Fault Emitter} {u : Unit} :
    emit step S = .ok u S' ↔ ∃ e, step S.emitter = .ok e ∧ { S with emitter := e } = S' := by
  rw [emit]
  cases step S.emitter with
  | ok e =>
      simp only [EStateM.Result.ok.injEq, Except.ok.injEq]
      grind
  | error f => simp

theorem newBlock_eq_ok {function id : Nat} {label : String} :
    newBlock function label S = .ok id S' ↔ function = S.emitter.id ∧
      id = S.emitter.blocks.size ∧ S' = { S with emitter := S.emitter.withBlock label } := by
  rw [newBlock]
  cases added : S.emitter.addBlock function label .whole with
  | ok result =>
      obtain ⟨added_, e⟩ := result
      obtain ⟨rfl, rfl, rfl⟩ := Emitter.addBlock_eq_ok.1 added
      simp only [EStateM.Result.ok.injEq, true_and]
      exact and_congr eq_comm eq_comm
  | error f =>
      simp only [reduceCtorEq, false_iff, not_and]
      intro same
      simp [Emitter.addBlock, same] at added

theorem newRegister_eq_ok {ty : Ty} {id : Nat} :
    newRegister ty S = .ok id S' ↔ id = S.emitter.registers.size ∧
      S' = { S with emitter := S.emitter.withRegister ty } := by
  change EStateM.Result.ok S.emitter.registers.size
    { S with emitter := S.emitter.withRegister ty } = .ok id S' ↔ _
  rw [EStateM.Result.ok.injEq]
  exact and_congr eq_comm eq_comm

theorem newArgument_eq_ok {ty : Ty} {id : Nat} :
    newArgument ty S = .ok id S' ↔ id = S.emitter.registers.size ∧
      S' = { S with emitter := { S.emitter.withRegister ty with
        arguments := S.emitter.arguments ++ [S.emitter.registers.size] } } := by
  change EStateM.Result.ok S.emitter.registers.size
    { S with emitter := { S.emitter.withRegister ty with
      arguments := S.emitter.arguments ++ [S.emitter.registers.size] } } = .ok id S' ↔ _
  rw [EStateM.Result.ok.injEq]
  exact and_congr eq_comm eq_comm

theorem moveTo_eq_ok {block : Nat} {u : Unit} :
    moveTo block S = .ok u S' ↔ S' = { S with emitter := S.emitter.moveTo block } := by
  rw [moveTo, modify_eq_ok, eq_comm]

theorem typeOf_eq_ok {e : Expr} {ty : Ty} :
    typeOf e S = .ok ty S' ↔ e.ty S.context = .ok ty ∧ S = S' := by
  simp only [typeOf, bind_eq_ok, context_eq_ok, ofExcept_eq_ok]
  grind

theorem functionAt_eq_ok {span : Span} {id : Nat} :
    functionAt span S = .ok id S' ↔ S.context.handleAt span = .ok id ∧ S = S' := by
  simp only [functionAt, bind_eq_ok, context_eq_ok, ofExcept_eq_ok]
  grind

end LowerM

theorem registerOf_eq_ok {binding : Binding} {span : Span} {r : Nat} :
    registerOf binding span = .ok r ↔ binding.register = some r := by
  rw [registerOf]
  cases binding.register <;> simp

end Lir

open Lir.LowerM

variable {S S' : LowerState}

/-- The branch after the left side of a logical operator. -/
def LogicOp.branch (op : LogicOp) (condition : Operand) (rhs join : Nat) : Instruction :=
  match op with
  | .and => .branch condition rhs join
  | .or => .branch condition join rhs

namespace Expr

-- The equations are derived here, once for all the cases below.
attribute [local simp] lower lowerAll

variable {span : Span} {operand : Operand}

theorem lower_literal {value : Literal} (h : (literal span value).lower S = .ok operand S') :
    operand = .imm value.immediate ∧ S' = S := by
  simp only [lower, pure_eq_ok] at h
  exact ⟨h.1.symm, h.2.symm⟩

theorem lower_var {name : Ident} (h : (var span name).lower S = .ok operand S') :
    ∃ binding r, S.context.lookup name = .ok binding ∧ binding.register = some r ∧
      operand = .reg r ∧ S' = S := by
  simp only [lower, bind_eq_ok, context_eq_ok, ofExcept_eq_ok, registerOf_eq_ok, pure_eq_ok] at h
  obtain ⟨_, _, ⟨rfl, rfl⟩, binding, _, ⟨found, rfl⟩, r, _, ⟨register, rfl⟩, rfl, rfl⟩ := h
  exact ⟨binding, r, found, register, rfl, rfl⟩

theorem lower_call {target : Ident} {args : List Expr}
    (h : (call span target args).lower S = .ok operand S') :
    ∃ ty function operands S₁ e₂, (call span target args).ty S.context = .ok ty ∧
      S.emitter.handle? target.name = some function ∧ lowerAll args S = .ok operands S₁ ∧
      ((ty.isUnit = true ∧ operand = .imm .unit ∧
          S₁.emitter.Emits (.call function operands none) e₂) ∨
        (ty.isUnit = false ∧ operand = .reg S₁.emitter.registers.size ∧
          (S₁.emitter.withRegister ty).Emits
            (.call function operands (some S₁.emitter.registers.size)) e₂)) ∧
      S' = { S₁ with emitter := e₂ } := by
  simp only [lower, bind_eq_ok, typeOf_eq_ok, get_eq_ok, and_assoc, exists_and_left,
    exists_eq_left'] at h
  obtain ⟨ty, typed, h⟩ := h
  cases handle : S.emitter.handle? target.name with
  | none => simp only [handle, throw_eq_ok] at h
  | some function =>
      simp only [handle, bind_eq_ok] at h
      obtain ⟨operands, S₁, lowered, h⟩ := h
      split at h
      · next unit =>
        simp only [bind_eq_ok, push, emit_eq_ok, pure_eq_ok, exists_const,
          exists_exists_and_eq_and] at h
        obtain ⟨e₂, pushed, rfl, rfl⟩ := h
        exact ⟨ty, function, operands, S₁, e₂, typed, rfl, lowered,
          .inl ⟨unit, rfl, Emitter.emits_push rfl pushed⟩, rfl⟩
      · next value =>
        simp only [bind_eq_ok, newRegister_eq_ok, push, emit_eq_ok, pure_eq_ok, and_assoc,
          exists_and_left, exists_eq_left, exists_const, exists_exists_and_eq_and] at h
        obtain ⟨e₂, pushed, rfl, rfl⟩ := h
        exact ⟨ty, function, operands, S₁, e₂, typed, rfl, lowered,
          .inr ⟨by simpa using value, rfl, Emitter.emits_push rfl pushed⟩, rfl⟩

theorem lower_unary {op : UnaryOp} {arg : Expr}
    (h : (unary span op arg).lower S = .ok operand S') :
    ∃ ty a S₁ e₂, (unary span op arg).ty S.context = .ok ty ∧ arg.lower S = .ok a S₁ ∧
      (S₁.emitter.withRegister ty).Emits (.unary op S₁.emitter.registers.size a) e₂ ∧
      operand = .reg S₁.emitter.registers.size ∧ S' = { S₁ with emitter := e₂ } := by
  simp only [lower, bind_eq_ok, typeOf_eq_ok, newRegister_eq_ok, push, emit_eq_ok, pure_eq_ok,
    and_assoc, exists_and_left, exists_eq_left, exists_eq_left', exists_const,
    exists_exists_and_eq_and] at h
  obtain ⟨ty, typed, a, S₁, lowered, e₂, pushed, rfl, rfl⟩ := h
  exact ⟨ty, a, S₁, e₂, typed, lowered, Emitter.emits_push rfl pushed, rfl, rfl⟩

theorem lower_binary {op : BinaryOp} {lhs rhs : Expr}
    (h : (binary span op lhs rhs).lower S = .ok operand S') :
    ∃ ty a S₁ b S₂ e₃, (binary span op lhs rhs).ty S.context = .ok ty ∧
      lhs.lower S = .ok a S₁ ∧ rhs.lower S₁ = .ok b S₂ ∧
      (S₂.emitter.withRegister ty).Emits (.binary op S₂.emitter.registers.size a b) e₃ ∧
      operand = .reg S₂.emitter.registers.size ∧ S' = { S₂ with emitter := e₃ } := by
  simp only [lower, bind_eq_ok, typeOf_eq_ok, newRegister_eq_ok, push, emit_eq_ok, pure_eq_ok,
    and_assoc, exists_and_left, exists_eq_left, exists_eq_left', exists_const,
    exists_exists_and_eq_and] at h
  obtain ⟨ty, typed, a, S₁, left, b, S₂, right, e₃, pushed, rfl, rfl⟩ := h
  exact ⟨ty, a, S₁, b, S₂, e₃, typed, left, right, Emitter.emits_push rfl pushed, rfl, rfl⟩

/-- The two new blocks are the one of the right side and the one after it. -/
theorem lower_logic {op : LogicOp} {lhs rhs : Expr}
    (h : (logic span op lhs rhs).lower S = .ok operand S') :
    ∃ ty a S₁ e₂ e₃ b S₄ e₅ e₆, (logic span op lhs rhs).ty S.context = .ok ty ∧
      lhs.lower { S with emitter := S.emitter.withRegister .bool } = .ok a S₁ ∧
      S₁.emitter.Emits (.move S.emitter.registers.size a) e₂ ∧
      ((e₂.withBlock op.rhsLabel).withBlock op.endLabel).Emits
        (op.branch a e₂.blocks.size (e₂.blocks.size + 1)) e₃ ∧
      rhs.lower { S₁ with emitter := e₃.moveTo e₂.blocks.size } = .ok b S₄ ∧
      S₄.emitter.Emits (.move S.emitter.registers.size b) e₅ ∧
      e₅.Emits (.jump (e₂.blocks.size + 1)) e₆ ∧
      operand = .reg S.emitter.registers.size ∧
      S' = { S₄ with emitter := e₆.moveTo (e₂.blocks.size + 1) } := by
  -- Both operators go the same way but for the order of the targets.
  cases op
  all_goals
    simp only [lower, bind_eq_ok, typeOf_eq_ok, newRegister_eq_ok, functionAt_eq_ok, newBlock_eq_ok,
      moveTo_eq_ok, push, branch, jump, emit_eq_ok, pure_eq_ok, Emitter.size_withBlock, and_assoc,
      exists_and_left, exists_eq_left, exists_eq_left', exists_const, exists_exists_and_eq_and] at h
    obtain ⟨ty, typed, a, S₁, left, e₂, pushed, _, _, _, _, e₃, branched, b, S₄, right, e₅, pushed',
      e₆, jumped, rfl, rfl⟩ := h
    exact ⟨ty, a, S₁, e₂, e₃, b, S₄, e₅, e₆, typed, left, Emitter.emits_push rfl pushed,
      Emitter.emits_branch branched, right, Emitter.emits_push rfl pushed',
      Emitter.emits_jump jumped, rfl, rfl⟩

theorem lowerAll_nil {operands : List Operand} (h : lowerAll [] S = .ok operands S') :
    operands = [] ∧ S' = S := by
  simp only [lowerAll, pure_eq_ok] at h
  exact ⟨h.1.symm, h.2.symm⟩

theorem lowerAll_cons {e : Expr} {es : List Expr} {operands : List Operand}
    (h : lowerAll (e :: es) S = .ok operands S') :
    ∃ a S₁ rest, e.lower S = .ok a S₁ ∧ lowerAll es S₁ = .ok rest S' ∧ operands = a :: rest := by
  simp only [lowerAll, bind_eq_ok, pure_eq_ok] at h
  obtain ⟨a, S₁, first, rest, _, others, rfl, rfl⟩ := h
  exact ⟨a, S₁, rest, first, others, rfl⟩

/-- An expression that has been lowered has a type. -/
theorem exists_ty_of_lower {e : Expr}
    (h : e.lower S = .ok operand S') : ∃ ty, e.ty S.context = .ok ty := by
  cases e with
  | literal span value => exact ⟨value.ty, by rw [Expr.ty]⟩
  | var span name =>
      obtain ⟨binding, _, found, _⟩ := lower_var h
      exact ⟨binding.ty, by rw [Expr.ty, found]; rfl⟩
  | call span target args =>
      obtain ⟨ty, _, _, _, _, typed, _⟩ := lower_call h
      exact ⟨ty, typed⟩
  | unary span op arg =>
      obtain ⟨ty, _, _, _, typed, _⟩ := lower_unary h
      exact ⟨ty, typed⟩
  | binary span op lhs rhs =>
      obtain ⟨ty, _, _, _, _, _, typed, _⟩ := lower_binary h
      exact ⟨ty, typed⟩
  | logic span op lhs rhs =>
      obtain ⟨ty, _, _, _, _, _, _, _, _, typed, _⟩ := lower_logic h
      exact ⟨ty, typed⟩

end Expr

/-- Control goes on at `target`, unless it never comes to this point. -/
def Lir.Emitter.GoesOn (e : Emitter) (returns : Bool) (target : Nat) (e' : Emitter) : Prop :=
  if returns then e' = e else e.Emits (.jump target) e'

namespace Expr

theorem lowerOpt_none {operand : Option Operand} (h : lowerOpt none S = .ok operand S') :
    operand = none ∧ S' = S := by
  simp only [lowerOpt, pure_eq_ok] at h
  exact ⟨h.1.symm, h.2.symm⟩

theorem lowerOpt_some {e : Expr} {operand : Option Operand}
    (h : lowerOpt (some e) S = .ok operand S') :
    ∃ a, e.lower S = .ok a S' ∧ operand = some a := by
  simp only [lowerOpt, bind_eq_ok, pure_eq_ok] at h
  obtain ⟨a, _, lowered, rfl, rfl⟩ := h
  exact ⟨a, lowered, rfl⟩

end Expr

namespace Stmt

attribute [local simp] lower lowerAll

variable {span : Span} {u : Unit}

theorem checkCondition_eq_ok {boundary : Boundary} {condition : Expr} :
    checkCondition boundary condition S = .ok u S' ↔
      condition.ty S.context = .ok .bool ∧ S = S' := by
  simp only [checkCondition, bind_eq_ok, typeOf_eq_ok]
  constructor
  · rintro ⟨ty, _, ⟨typed, rfl⟩, h⟩
    split at h
    · simp only [throw_eq_ok] at h
    · next isBool =>
      simp only [pure_eq_ok] at h
      exact ⟨Decidable.not_not.1 isBool ▸ typed, h.2⟩
  · rintro ⟨typed, rfl⟩
    exact ⟨.bool, S, ⟨typed, rfl⟩, rfl⟩

theorem jumpAfter_eq_ok {s : Stmt} {target : Nat} (h : s.jumpAfter target S = .ok u S') :
    ∃ e, S.emitter.GoesOn s.returns target e ∧ S' = { S with emitter := e } := by
  simp only [jumpAfter, bind_eq_ok, check_eq_ok] at h
  obtain ⟨r, _, ⟨ctx, analysed, rfl⟩, h⟩ := h
  obtain ⟨rfl, found⟩ := returnType_eq_ok s analysed
  simp only [Emitter.GoesOn, ← found]
  cases r with
  | none =>
      simp only [Option.isNone_none, if_true, jump, emit_eq_ok] at h
      obtain ⟨e, jumped, rfl⟩ := h
      exact ⟨e, Emitter.emits_jump jumped, rfl⟩
  | some ty =>
      simp only [Option.isNone_some, Bool.false_eq_true, if_false, pure_eq_ok] at h
      exact ⟨S.emitter, rfl, h.2.symm⟩

theorem not_lower_ite_none {condition : Expr} {negative : Option Stmt} :
    (ite span condition none negative).lower S ≠ .ok u S' := by
  simp only [lower, ne_eq, bind_eq_ok, throw_eq_ok, and_false, exists_false, not_false_eq_true]

/-- The new blocks are that of the branch and the one after the conditional. -/
theorem lower_ite {condition : Expr} {positive : Stmt}
    (h : (ite span condition (some positive) none).lower S = .ok u S') :
    ∃ a S₁ e₂ S₃ e₄, condition.ty S.context = .ok .bool ∧ condition.lower S = .ok a S₁ ∧
      ((S₁.emitter.withBlock "then").withBlock "cont").Emits
        (.branch a S₁.emitter.blocks.size (S₁.emitter.blocks.size + 1)) e₂ ∧
      positive.lower { S₁ with emitter := e₂.moveTo S₁.emitter.blocks.size } = .ok () S₃ ∧
      S₃.emitter.GoesOn positive.returns (S₁.emitter.blocks.size + 1) e₄ ∧
      S' = { S₃ with emitter := e₄.moveTo (S₁.emitter.blocks.size + 1) } := by
  simp only [lower, bind_eq_ok, checkCondition_eq_ok, functionAt_eq_ok, newBlock_eq_ok,
    moveTo_eq_ok, branch, emit_eq_ok, Emitter.size_withBlock, and_assoc, exists_and_left,
    exists_eq_left, exists_eq_left', exists_const, exists_exists_and_eq_and] at h
  obtain ⟨typed, a, S₁, tested, _, _, _, _, e₂, branched, _, S₃, lowered, _, _, jumped, rfl⟩ := h
  obtain ⟨e₄, goes, rfl⟩ := jumpAfter_eq_ok jumped
  exact ⟨a, S₁, e₂, S₃, e₄, typed, tested, Emitter.emits_branch branched, lowered, goes, rfl⟩

/-- The new blocks are those of the branches and the one after the conditional. -/
theorem lower_ite_else {condition : Expr} {positive negative : Stmt}
    (h : (ite span condition (some positive) (some negative)).lower S = .ok u S') :
    ∃ a S₁ e₂ S₃ e₄ S₅ e₆, condition.ty S.context = .ok .bool ∧ condition.lower S = .ok a S₁ ∧
      (((S₁.emitter.withBlock "then").withBlock "else").withBlock "cont").Emits
        (.branch a S₁.emitter.blocks.size (S₁.emitter.blocks.size + 1)) e₂ ∧
      positive.lower { S₁ with emitter := e₂.moveTo S₁.emitter.blocks.size } = .ok () S₃ ∧
      S₃.emitter.GoesOn positive.returns (S₁.emitter.blocks.size + 2) e₄ ∧
      negative.lower { S₃ with emitter := e₄.moveTo (S₁.emitter.blocks.size + 1) } = .ok () S₅ ∧
      S₅.emitter.GoesOn negative.returns (S₁.emitter.blocks.size + 2) e₆ ∧
      S' = { S₅ with emitter := e₆.moveTo (S₁.emitter.blocks.size + 2) } := by
  simp only [lower, bind_eq_ok, checkCondition_eq_ok, functionAt_eq_ok, newBlock_eq_ok,
    moveTo_eq_ok, branch, emit_eq_ok, Emitter.size_withBlock, and_assoc, exists_and_left,
    exists_eq_left, exists_eq_left', exists_const, exists_exists_and_eq_and] at h
  obtain ⟨typed, a, S₁, tested, _, _, _, _, _, e₂, branched, _, S₃, first, _, _, jumped, _, S₅,
    second, _, _, jumped', rfl⟩ := h
  obtain ⟨e₄, goes, rfl⟩ := jumpAfter_eq_ok jumped
  obtain ⟨e₆, goes', rfl⟩ := jumpAfter_eq_ok jumped'
  exact ⟨a, S₁, e₂, S₃, e₄, S₅, e₆, typed, tested, Emitter.emits_branch branched, first, goes,
    second, goes', rfl⟩

/-- The new blocks are that of the condition, which control comes back to, that of the body and the
one after the loop. -/
theorem lower_loop {condition : Expr} {body : Stmt}
    (h : (loop span condition body).lower S = .ok u S') :
    ∃ e₁ a S₂ e₃ S₄ e₅, condition.ty S.context = .ok .bool ∧
      (((S.emitter.withBlock "while_cond").withBlock "while_body").withBlock "while_end").Emits
        (.jump S.emitter.blocks.size) e₁ ∧
      condition.lower { S with emitter := e₁.moveTo S.emitter.blocks.size } = .ok a S₂ ∧
      S₂.emitter.Emits
        (.branch a (S.emitter.blocks.size + 1) (S.emitter.blocks.size + 2)) e₃ ∧
      body.lower { S₂ with emitter := e₃.moveTo (S.emitter.blocks.size + 1) } = .ok () S₄ ∧
      S₄.emitter.GoesOn body.returns S.emitter.blocks.size e₅ ∧
      S' = { S₄ with emitter := e₅.moveTo (S.emitter.blocks.size + 2) } := by
  simp only [lower, bind_eq_ok, checkCondition_eq_ok, functionAt_eq_ok, newBlock_eq_ok,
    moveTo_eq_ok, branch, jump, emit_eq_ok, Emitter.size_withBlock, and_assoc, exists_and_left,
    exists_eq_left, exists_eq_left', exists_const, exists_exists_and_eq_and] at h
  obtain ⟨typed, _, _, _, _, _, e₁, jumped, a, S₂, tested, e₃, branched, _, S₄, lowered, _, _,
    back, rfl⟩ := h
  obtain ⟨e₅, goes, rfl⟩ := jumpAfter_eq_ok back
  exact ⟨e₁, a, S₂, e₃, S₄, e₅, typed, Emitter.emits_jump jumped, tested,
    Emitter.emits_branch branched, lowered, goes, rfl⟩

/-- The register of a declared local: its binding has one already, or gets a new one. -/
def Allots (name : Ident) (ty : Ty) (S : LowerState) (dest : Nat) (S' : LowerState) : Prop :=
  ∃ binding ctx, S.context.declare name ty = .ok (binding, ctx) ∧
    ((binding.register = some dest ∧ S' = { S with context := ctx }) ∨
      (binding.register = none ∧ dest = S.emitter.registers.size ∧
        S' = ⟨ctx.setRegister name.name dest, S.emitter.withRegister ty⟩))

theorem lower_decl {name : Ident} {written : Option Ty} {value : Option Expr}
    (h : (decl span name written value).lower S = .ok u S') :
    ∃ ty source S₁ dest S₂, declaredType S.context span name written value = .ok ty ∧
      Expr.lowerOpt value S = .ok source S₁ ∧ Allots name ty S₁ dest S₂ ∧
      match source with
      | none => S' = S₂
      | some a => ∃ e₃, S₂.emitter.Emits (.move dest a) e₃ ∧ S' = { S₂ with emitter := e₃ } := by
  simp only [lower, lowerDecl, bind_eq_ok, context_eq_ok, ofExcept_eq_ok, setContext_eq_ok,
    and_assoc, exists_and_left, exists_eq_left, exists_eq_left', exists_const] at h
  obtain ⟨ty, typed, source, S₁, lowered, ⟨binding, ctx⟩, declared, h⟩ := h
  have allotted : ∃ dest S₂, Allots name ty S₁ dest S₂ ∧ (source = none → S' = S₂) ∧
      ∀ a, source = some a → push (.move dest a) S₂ = .ok u S' := by
    cases register : binding.register with
    | some dest =>
        simp only [register] at h
        refine ⟨dest, _, ⟨binding, ctx, declared, .inl ⟨register, rfl⟩⟩, ?_, ?_⟩
        · rintro rfl
          exact (pure_eq_ok.1 h).2.symm
        · rintro a rfl
          exact h
    | none =>
        simp only [register, bind_eq_ok, newRegister_eq_ok, context_eq_ok, setContext_eq_ok,
          pure_eq_ok, and_assoc, exists_and_left, exists_eq_left, exists_eq_left',
          exists_const] at h
        refine ⟨_, _, ⟨binding, ctx, declared, .inr ⟨register, rfl, rfl⟩⟩, ?_, ?_⟩
        · rintro rfl
          exact (pure_eq_ok.1 h).2.symm
        · rintro a rfl
          exact h
  obtain ⟨dest, S₂, allots, nothing, move⟩ := allotted
  refine ⟨ty, source, S₁, dest, S₂, typed, lowered, allots, ?_⟩
  cases source with
  | none => exact nothing rfl
  | some a =>
      have moved := move a rfl
      simp only [push, emit_eq_ok] at moved
      obtain ⟨e₃, pushed, rfl⟩ := moved
      exact ⟨e₃, Emitter.emits_push rfl pushed, rfl⟩

theorem lower_assign {target : Ident} {value : Expr}
    (h : (assign span target value).lower S = .ok u S') :
    ∃ binding dest a S₁ e₂, S.context.lookup target = .ok binding ∧
      value.ty S.context = .ok binding.ty ∧ binding.register = some dest ∧
      value.lower S = .ok a S₁ ∧ S₁.emitter.Emits (.move dest a) e₂ ∧
      S' = { S₁ with emitter := e₂ } := by
  simp only [lower, lowerAssign, bind_eq_ok, context_eq_ok, ofExcept_eq_ok, typeOf_eq_ok,
    and_assoc, exists_and_left, exists_eq_left'] at h
  obtain ⟨binding, found, ty, typed, h⟩ := h
  split at h
  · simp only [bind_eq_ok, throw_eq_ok, false_and, exists_false] at h
  · next same =>
    simp only [bind_eq_ok, ofExcept_eq_ok, registerOf_eq_ok, push, emit_eq_ok, and_assoc,
      exists_and_left, exists_eq_left'] at h
    obtain ⟨dest, register, a, S₁, lowered, e₂, pushed, rfl⟩ := h
    exact ⟨binding, dest, a, S₁, e₂, found, Decidable.not_not.1 same ▸ typed, register, lowered,
      Emitter.emits_push rfl pushed, rfl⟩

theorem lower_ret {value : Option Expr} (h : (ret span value).lower S = .ok u S') :
    ∃ source S₁ e₂, returnedType S.context value = .ok S.context.returnType ∧
      Expr.lowerOpt value S = .ok source S₁ ∧
      S₁.emitter.Emits (.ret (if S.context.returnType.isUnit then none else source)) e₂ ∧
      S' = { S₁ with emitter := e₂ } := by
  simp only [lower, lowerReturn_eq, bind_eq_ok, context_eq_ok, LowerM.ofExcept_eq_ok, and_assoc,
    exists_and_left, exists_eq_left'] at h
  obtain ⟨ty, typed, h⟩ := h
  split at h
  · simp only [bind_eq_ok, throw_eq_ok, false_and, exists_false] at h
  · next same =>
    obtain rfl := Decidable.not_not.1 same
    simp only [bind_eq_ok, push, emit_eq_ok] at h
    obtain ⟨source, S₁, lowered, e₂, pushed, rfl⟩ := h
    exact ⟨source, S₁, e₂, typed, lowered, Emitter.emits_push rfl pushed, rfl⟩

theorem lower_eval {value : Expr} (h : (eval span value).lower S = .ok u S') :
    ∃ a, value.lower S = .ok a S' := by
  simp only [lower, bind_eq_ok, pure_eq_ok] at h
  obtain ⟨a, _, lowered, _, rfl⟩ := h
  exact ⟨a, lowered⟩

theorem lower_skip (h : (skip span).lower S = .ok u S') : S' = S := by
  simp only [lower, pure_eq_ok] at h
  exact h.2.symm

theorem lower_block {body : List Stmt} (h : (block span body).lower S = .ok u S') :
    ∃ T, lowerAll body { S with context := S.context.push } = .ok () T ∧
      S' = { T with context := T.context.pop } := by
  simp only [lower, inScope_eq_ok] at h
  exact h

theorem lowerAll_nil (h : lowerAll [] S = .ok u S') : S' = S := by
  simp only [lowerAll, pure_eq_ok] at h
  exact h.2.symm

theorem lowerAll_cons {s : Stmt} {rest : List Stmt} (h : lowerAll (s :: rest) S = .ok u S') :
    ∃ S₁, s.lower S = .ok () S₁ ∧
      if s.returns then S' = S₁ else lowerAll rest S₁ = .ok () S' := by
  simp only [lowerAll, bind_eq_ok, check_eq_ok] at h
  obtain ⟨_, S₁, lowered, r, _, ⟨ctx, analysed, rfl⟩, h⟩ := h
  obtain ⟨rfl, found⟩ := returnType_eq_ok s analysed
  refine ⟨S₁, lowered, ?_⟩
  rw [← found]
  cases r with
  | none =>
      simp only [Option.isNone_none, if_true] at h
      simpa using h
  | some ty =>
      simp only [Option.isNone_some, Bool.false_eq_true, if_false, pure_eq_ok] at h
      exact h.2.symm

end Stmt

namespace Expr

variable {operand : Operand}

/-- Lowering an expression leaves the context alone. -/
theorem lower_context (e : Expr) (h : e.lower S = .ok operand S') : S'.context = S.context :=
  Eq.symm ((leaves_lower (R := Eq) e).of_ok h)

theorem lowerOpt_context {e : Option Expr} {operand : Option Operand}
    (h : lowerOpt e S = .ok operand S') : S'.context = S.context :=
  Eq.symm ((leaves_lowerOpt (R := Eq) e).of_ok h)

end Expr

namespace Stmt

theorem Allots.context {name : Ident} {ty : Ty} {dest : Nat} (h : Allots name ty S dest S') :
    S'.context = { S.context with current := S'.context.current } := by
  obtain ⟨binding, ctx, declared, h⟩ := h
  have outer := Context.declare_outer declared
  rcases h with ⟨_, rfl⟩ | ⟨_, _, rfl⟩
  · exact outer
  · rw [outer]
    rfl

/-- A statement changes the context only if declarations escape from branches, or if it is a
declaration itself. -/
theorem lower_context_of_contained {S S' : LowerState} {u : Unit} : (s : Stmt) →
    s.lower S = .ok u S' → s.contained = true → s.isDecl = false → S'.context = S.context
  | .ite _ _ none _, h, _, _ => absurd h not_lower_ite_none
  | .ite _ condition (some positive) none, h, contained, _ => by
    obtain ⟨_, S₁, _, S₃, _, _, tested, _, lowered, _, rfl⟩ := lower_ite h
    simp only [Stmt.contained, containedOpt, Bool.and_eq_true, Bool.not_eq_true'] at contained
    have same := Expr.lower_context condition tested
    have kept := lower_context_of_contained positive lowered contained.1.2 contained.1.1
    exact kept.trans same
  | .ite _ condition (some positive) (some negative), h, contained, _ => by
    obtain ⟨_, S₁, _, S₃, _, S₅, _, _, tested, _, first, _, second, _, rfl⟩ := lower_ite_else h
    simp only [Stmt.contained, containedOpt, Bool.and_eq_true, Bool.not_eq_true'] at contained
    have same := Expr.lower_context condition tested
    have kept := lower_context_of_contained positive first contained.1.2 contained.1.1
    have kept' := lower_context_of_contained negative second contained.2.2 contained.2.1
    exact (kept'.trans kept).trans same
  | .block _ body, h, _, _ => by
    rw [lower] at h
    exact Eq.symm ((leaves_inScope (R := Eq) (leaves_lowerAll body)).of_ok h)
  | .assign _ _ value, h, _, _ => by
    obtain ⟨_, _, _, _, _, _, _, _, lowered, _, rfl⟩ := lower_assign h
    have same := Expr.lower_context value lowered
    exact same
  | .ret .., h, _, _ => by
    obtain ⟨_, _, _, _, lowered, _, rfl⟩ := lower_ret h
    have same := Expr.lowerOpt_context lowered
    exact same
  | .loop _ condition body, h, contained, _ => by
    obtain ⟨_, _, S₂, _, S₄, _, _, _, tested, _, lowered, _, rfl⟩ := lower_loop h
    simp only [Stmt.contained, Bool.and_eq_true, Bool.not_eq_true'] at contained
    have same := Expr.lower_context condition tested
    have kept := lower_context_of_contained body lowered contained.2 contained.1
    exact kept.trans same
  | .eval _ value, h, _, _ => by
    obtain ⟨_, lowered⟩ := lower_eval h
    exact Expr.lower_context value lowered
  | .skip _, h, _, _ => by
    rw [lower_skip h]

/-- Lowering a statement changes no scope but the innermost. It changes that one only if
declarations escape from branches, or if it is a declaration itself. -/
theorem lower_context (s : Stmt) (h : s.lower S = .ok u S') :
    S'.context = { S.context with current := S'.context.current } ∧
      (s.contained = true → s.isDecl = false → S'.context = S.context) :=
  ⟨((leaves_lower s).of_ok h).rest, lower_context_of_contained s h⟩

theorem lowerAll_context (ss : List Stmt) (h : lowerAll ss S = .ok u S') :
    S'.context = { S.context with current := S'.context.current } :=
  ((leaves_lowerAll ss).of_ok h).rest

end Stmt

namespace Function

/-- The block that the body ends in gets an end of its own unless it has one. -/
theorem lowerBody_eq_ok {f : Function} {u : Unit} (h : f.lowerBody S = .ok u S') :
    ∃ S₁, f.body.lower S = .ok () S₁ ∧
      if S₁.emitter.isTerminated then S' = S₁
      else ∃ i e, S₁.emitter.Emits i e ∧ S' = { S₁ with emitter := e } ∧
        if f.header.returnType.isUnit then i = .ret none
        else i = .unreachable ∧ f.body.returns = true := by
  simp only [lowerBody, bind_eq_ok, check_eq_ok, get_eq_ok, and_assoc, exists_and_left,
    exists_eq_left'] at h
  obtain ⟨r, _, ⟨ctx, analysed, rfl⟩, _, S₁, lowered, h⟩ := h
  obtain ⟨rfl, found⟩ := Stmt.returnType_eq_ok f.body analysed
  refine ⟨S₁, lowered, ?_⟩
  cases terminated : S₁.emitter.isTerminated with
  | true =>
      simp only [terminated, if_true, pure_eq_ok] at h
      exact h.2.symm
  | false =>
      simp only [terminated, Bool.false_eq_true, if_false] at h
      simp only [Bool.false_eq_true, if_false]
      split at h
      · next unit =>
        simp only [push, emit_eq_ok] at h
        obtain ⟨e, pushed, rfl⟩ := h
        exact ⟨.ret none, e, Emitter.emits_push rfl pushed, rfl, by rw [if_pos unit]⟩
      · next value =>
        cases r with
        | none =>
            simp only [Option.isNone_none, if_true, throw_eq_ok] at h
        | some ty =>
            simp only [Option.isNone_some, Bool.false_eq_true, if_false, push, emit_eq_ok] at h
            obtain ⟨e, pushed, rfl⟩ := h
            refine ⟨.unreachable, e, Emitter.emits_push rfl pushed, rfl, ?_⟩
            rw [if_neg value]
            exact ⟨rfl, found.symm⟩

/-- Before the parameters are bound. -/
def entered (f : Function) (signatures : SignatureTable) (id : Nat) : LowerState where
  context := { Context.ofFunction f signatures with handle := some id }
  emitter :=
    let start : Emitter :=
      { signatures, id, name := f.header.name.name, returnType := f.header.returnType }
    start.withBlock "entry"

theorem lower_eq_ok {f : Function} {signatures : SignatureTable} {g : Lir.Function}
    (h : f.lower signatures = .ok g) :
    ∃ id S₁ S₂, signatures.handle? f.header.name.name = some id ∧
      f.header.params.forM bindParam (f.entered signatures id) = .ok () S₁ ∧
      f.lowerBody S₁ = .ok () S₂ ∧ g = S₂.emitter.finish := by
  simp only [lower] at h
  cases handle : signatures.handle? f.header.name.name with
  | none => simp only [handle, reduceCtorEq] at h
  | some id =>
      simp only [handle] at h
      split at h
      · next S₂ lowered =>
        simp only [bind_eq_ok, newBlock_eq_ok, moveTo_eq_ok, and_assoc, true_and, exists_and_left,
          exists_eq_left, exists_const] at lowered
        obtain ⟨_, S₁, bound, body⟩ := lowered
        exact ⟨id, S₁, S₂, rfl, bound, body, (Except.ok.inj h).symm⟩
      · cases h

theorem bindParam_eq_ok {param : Param} {u : Unit} (h : bindParam param S = .ok u S') :
    ∃ binding ctx, param.ty.isUnit = false ∧
      S.context.declare param.name param.ty = .ok (binding, ctx) ∧
      S' = ⟨ctx.setRegister param.name.name S.emitter.registers.size,
        { S.emitter.withRegister param.ty with
          arguments := S.emitter.arguments ++ [S.emitter.registers.size] }⟩ := by
  rw [bindParam] at h
  split at h
  · simp only [bind_eq_ok, throw_eq_ok, false_and, exists_false] at h
  · next value =>
    simp only [bind_eq_ok, newArgument_eq_ok, context_eq_ok, ofExcept_eq_ok, setContext_eq_ok,
      and_assoc, exists_and_left, exists_eq_left, exists_eq_left'] at h
    obtain ⟨⟨binding, ctx⟩, declared, rfl⟩ := h
    exact ⟨binding, ctx, by simpa using value, declared, rfl⟩

end Function

end Rill
