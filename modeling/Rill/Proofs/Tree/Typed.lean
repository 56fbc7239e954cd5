import Rill.Proofs.Tree.Locals
import Rill.Typing

/-!
# Types at run time

The locals of a program have values of the types that they are bound with (`Types`). An
expression of some type then evaluates to a value of that type, or ends early because
it divides an integer by zero or reads a local that has not been assigned. It never
meets a value of another type. Answers to calls have to be of the declared types.
-/

namespace Rill

/-- How an expression can end early if its types are right. -/
inductive Ending.Trap : Ending → Prop
  | zeroDivision {op : BinaryOp} (dividend : Int64) (divides : op = .div ∨ op = .rem) :
    Trap (.zeroDivision op (.int dividend))
  | unassigned (name : Ident) : Trap (.unassigned name)

/-- Locals have values of the types that they are bound with. -/
abbrev Types (scopes : List Scope) (env : Env) : Prop :=
  Matches (fun b v => v.ty = b.ty) scopes env

theorem SignatureTable.lookup_eq_ok {t : SignatureTable} {name : Ident} {signature : Signature} :
    t.lookup name = .ok signature ↔
      ∃ id, t.handle? name.name = some id ∧ t.signatures.get? id = some signature := by
  rw [lookup]
  cases t.handle? name.name with
  | none => simp
  | some id =>
      simp only [Option.bind_some, Option.some.injEq, exists_eq_left']
      cases t.signatures.get? id <;> simp

theorem Lir.Immediate.eq_bool {v : Value} (h : v.ty = .bool) : ∃ b, v = .bool b := by
  cases v <;> first | exact ⟨_, rfl⟩ | cases h

theorem UnaryOp.onValue_eq_ok {op : UnaryOp} {a : Value} (accepts : op.accepts a.ty = true) :
    ∃ v, op.onValue a = .ok v ∧ v.ty = a.ty := by
  cases op <;> cases a <;> first | exact ⟨_, rfl, rfl⟩ | cases accepts

namespace BinaryOp

/-- Operations on integers have a result of the right type, except for divisions by zero. -/
theorem onInts_cases (op : BinaryOp) (a b : Int64) :
    (∃ result, op.onInts a b = .value result ∧ result.ty = op.opClass.result .int) ∨
      ((op = .div ∨ op = .rem) ∧ op.onInts a b = .zeroDivisor) := by
  cases op with
  | div =>
      by_cases zero : b = 0
      · exact .inr ⟨.inl rfl, if_pos zero⟩
      · exact .inl ⟨.int (a / b), if_neg zero, rfl⟩
  | rem =>
      by_cases zero : b = 0
      · exact .inr ⟨.inr rfl, if_pos zero⟩
      · exact .inl ⟨.int (a % b), if_neg zero, rfl⟩
  | _ => exact .inl ⟨_, rfl, rfl⟩

/-- Operands of one type that the operator accepts have a result, unless an integer is divided by
zero. -/
theorem onValues_cases {op : BinaryOp} {a b : Value} (same : b.ty = a.ty)
    (accepts : op.opClass.accepts a.ty = true) :
    (∃ v, op.onValues a b = .ok v ∧ v.ty = op.opClass.result a.ty) ∨
      ∃ e, op.onValues a b = .error e ∧ e.Trap := by
  cases a <;> cases b <;> cases same
  case unit => cases op <;> cases accepts
  case int m n =>
    simp only [onValues, Lir.Immediate.literal?, apply]
    rcases op.onInts_cases m n with ⟨result, computed, typed⟩ | ⟨divides, zero⟩
    · exact .inl ⟨result.immediate, by rw [computed], by rw [Literal.ty_immediate, typed]; rfl⟩
    · exact .inr ⟨.zeroDivision op (.int m), by rw [zero], .zeroDivision m divides⟩
  case float => cases op <;> exact .inl ⟨_, rfl, rfl⟩
  case bool => cases op <;> first | exact .inl ⟨_, rfl, rfl⟩ | cases accepts
  case str => cases op <;> first | exact .inl ⟨_, rfl, rfl⟩ | cases accepts

end BinaryOp

namespace EvalM

variable {α β : Type} {P : α → Prop} {Q : β → Prop}

/-- Every result is as promised, and without a result there is a trap. -/
def Safe (x : EvalM α) (P : α → Prop) : Prop :=
  ∀ calls, match x calls with
    | .ok a _ => P a
    | .error e _ => e.Trap

namespace Safe

theorem pure {a : α} (h : P a) : Safe (Pure.pure a) P :=
  fun _ => h

theorem throw {e : Ending} (h : e.Trap) : Safe (MonadExcept.throw e : EvalM α) P :=
  fun _ => h

theorem bind {x : EvalM α} {f : α → EvalM β} (first : x.Safe P) (next : ∀ a, P a → (f a).Safe Q) :
    (x >>= f).Safe Q := by
  intro calls
  have reached := first calls
  rw [bind_apply]
  cases outcome : x calls with
  | ok a calls' =>
      rw [outcome] at reached
      exact next a reached calls'
  | error e calls' =>
      rw [outcome] at reached
      exact reached

end Safe

end EvalM

namespace Expr

variable {ctx : Context} {ty : Ty} {span : Span}

theorem ty_var {name : Ident} (h : (var span name).ty ctx = .ok ty) :
    ∃ binding, ctx.lookup name = .ok binding ∧ binding.ty = ty := by
  simp only [Expr.ty, except_bind_eq_ok, except_pure_eq_ok] at h
  exact h

theorem ty_call {target : Ident} {args : List Expr} (h : (call span target args).ty ctx = .ok ty) :
    ∃ signature, ctx.signatures.lookup target = .ok signature ∧
      signature.params.length = args.length ∧
      checkArgs ctx args signature.params = .ok () ∧ signature.returnType = ty := by
  simp only [Expr.ty, except_bind_eq_ok] at h
  obtain ⟨signature, declared, h⟩ := h
  split at h
  · simp only [except_bind_eq_ok, except_throw_eq_ok, false_and, exists_false] at h
  · next count =>
    simp only [except_bind_eq_ok, except_pure_eq_ok] at h
    obtain ⟨_, checked, returned⟩ := h
    exact ⟨signature, declared, Decidable.not_not.1 count, checked, returned⟩

theorem ty_unary {op : UnaryOp} {operand : Expr} (h : (unary span op operand).ty ctx = .ok ty) :
    operand.ty ctx = .ok ty ∧ op.accepts ty = true := by
  simp only [Expr.ty, except_bind_eq_ok] at h
  obtain ⟨_, typed, h⟩ := h
  split at h
  · next accepts =>
    rw [except_pure_eq_ok] at h
    exact ⟨h ▸ typed, h ▸ accepts⟩
  · simp only [except_throw_eq_ok] at h

theorem ty_binary {op : BinaryOp} {lhs rhs : Expr} (h : (binary span op lhs rhs).ty ctx = .ok ty) :
    ∃ common, lhs.ty ctx = .ok common ∧ rhs.ty ctx = .ok common ∧
      op.opClass.accepts common = true ∧ op.opClass.result common = ty := by
  simp only [Expr.ty, except_bind_eq_ok] at h
  obtain ⟨left, typed, right, typed', h⟩ := h
  split at h
  · simp only [except_bind_eq_ok, except_throw_eq_ok, false_and, exists_false] at h
  · next same =>
    obtain rfl := Decidable.not_not.1 same
    split at h
    · next accepts => exact ⟨left, typed, typed', accepts, except_pure_eq_ok.1 h⟩
    · simp only [except_throw_eq_ok] at h

theorem ty_logic {op : LogicOp} {lhs rhs : Expr} (h : (logic span op lhs rhs).ty ctx = .ok ty) :
    lhs.ty ctx = .ok .bool ∧ rhs.ty ctx = .ok .bool ∧ ty = .bool := by
  simp only [Expr.ty, except_bind_eq_ok] at h
  obtain ⟨left, typed, h⟩ := h
  split at h
  · simp only [except_bind_eq_ok, except_throw_eq_ok, false_and, exists_false] at h
  · next same =>
    obtain rfl := Decidable.not_not.1 same
    simp only [except_bind_eq_ok] at h
    obtain ⟨right, typed', h⟩ := h
    split at h
    · simp only [except_bind_eq_ok, except_throw_eq_ok, false_and, exists_false] at h
    · next same' =>
      obtain rfl := Decidable.not_not.1 same'
      exact ⟨typed, typed', (except_pure_eq_ok.1 h).symm⟩

theorem checkArgs_cons {arg : Expr} {args : List Expr} {param : Ty} {params : List Ty}
    (h : checkArgs ctx (arg :: args) (param :: params) = .ok ()) :
    arg.ty ctx = .ok param ∧ checkArgs ctx args params = .ok () := by
  simp only [checkArgs, except_bind_eq_ok] at h
  obtain ⟨actual, typed, h⟩ := h
  split at h
  · simp only [except_bind_eq_ok, except_throw_eq_ok, false_and, exists_false] at h
  · next same =>
    exact ⟨Decidable.not_not.1 same ▸ typed, h⟩

variable {oracle : Oracle} {env : Env}

mutual

/-- An expression of a type evaluates to values of that type. -/
theorem eval_safe (obeys : oracle.Obeys ctx.signatures) (types : Types ctx.scopes env) {ty : Ty} :
    (e : Expr) → e.ty ctx = .ok ty → (e.eval ctx.signatures oracle env).Safe (·.ty = ty)
  | .literal _ value, h => by
    simp only [Expr.ty, Except.ok.injEq] at h
    simp only [eval]
    exact .pure (by rw [Literal.ty_immediate, h])
  | .var _ name, h => by
    obtain ⟨binding, found, rfl⟩ := ty_var h
    obtain ⟨entry, here, typed⟩ := types.lookup (Context.lookup_eq_ok.1 found)
    simp only [eval, here]
    cases entry with
    | none => exact .throw (.unassigned name)
    | some v => exact .pure (typed v rfl)
  | .call _ target args, h => by
    obtain ⟨signature, declared, count, checked, rfl⟩ := ty_call h
    obtain ⟨id, handle, row⟩ := SignatureTable.lookup_eq_ok.1 declared
    simp only [eval]
    refine (evalAll_safe obeys types args count checked).bind fun values _ => ?_
    simp only [EvalM.call, handle, declared]
    intro calls
    change Lir.Immediate.ty (if signature.returnType.isUnit then .unit
      else oracle id values calls) = signature.returnType
    split
    · next unit => exact (eq_of_beq unit).symm
    · exact obeys id signature row values calls
  | .unary _ op operand, h => by
    obtain ⟨typed, accepts⟩ := ty_unary h
    simp only [eval]
    refine (eval_safe obeys types operand typed).bind fun a same => ?_
    obtain ⟨v, computed, typed'⟩ := UnaryOp.onValue_eq_ok (same ▸ accepts)
    rw [computed]
    exact .pure (typed'.trans same)
  | .binary _ op lhs rhs, h => by
    obtain ⟨common, left, right, accepts, rfl⟩ := ty_binary h
    simp only [eval]
    refine (eval_safe obeys types lhs left).bind fun a same => ?_
    refine (eval_safe obeys types rhs right).bind fun b same' => ?_
    rcases BinaryOp.onValues_cases (same'.trans same.symm) (same ▸ accepts) with
      ⟨v, computed, typed⟩ | ⟨e, trapped, trap⟩
    · rw [computed]
      exact .pure (same ▸ typed)
    · rw [trapped]
      exact .throw trap
  | .logic _ op lhs rhs, h => by
    obtain ⟨left, right, rfl⟩ := ty_logic h
    simp only [eval]
    refine (eval_safe obeys types lhs left).bind fun a same => ?_
    obtain ⟨b, rfl⟩ := Lir.Immediate.eq_bool same
    simp only [EvalM.truth, pure_bind]
    split
    · exact .pure rfl
    · exact eval_safe obeys types rhs right

theorem evalAll_safe (obeys : oracle.Obeys ctx.signatures) (types : Types ctx.scopes env) :
    (args : List Expr) → {params : List Ty} → params.length = args.length →
    checkArgs ctx args params = .ok () →
    (evalAll ctx.signatures oracle env args).Safe (fun values => values.map (·.ty) = params)
  | [], [], _, _ => by
    simp only [evalAll]
    exact .pure rfl
  | arg :: args, param :: params, count, checked => by
    obtain ⟨typed, rest⟩ := checkArgs_cons checked
    simp only [evalAll]
    refine (eval_safe obeys types arg typed).bind fun v same => ?_
    refine (evalAll_safe obeys types args (Nat.succ.inj count) rest).bind fun vs typed' => ?_
    exact .pure (by rw [List.map_cons, same, typed'])

end

theorem evalOpt_safe {e : Option Expr} (obeys : oracle.Obeys ctx.signatures)
    (types : Types ctx.scopes env) (h : ∀ value, e = some value → value.ty ctx = .ok ty) :
    (evalOpt ctx.signatures oracle env e).Safe
      fun v => v.isSome = e.isSome ∧ ∀ w, v = some w → w.ty = ty := by
  cases e with
  | none => exact .pure ⟨rfl, fun _ => nofun⟩
  | some e =>
      refine (eval_safe obeys types e (h e rfl)).bind fun v same => .pure ⟨rfl, ?_⟩
      rintro w ⟨⟩
      exact same

theorem test_safe {condition : Expr} (obeys : oracle.Obeys ctx.signatures)
    (types : Types ctx.scopes env) (h : condition.ty ctx = .ok .bool) :
    (condition.test ctx.signatures oracle env).Safe fun _ => True := by
  refine (eval_safe obeys types condition h).bind fun a same => ?_
  obtain ⟨b, rfl⟩ := Lir.Immediate.eq_bool same
  exact .pure trivial

end Expr

/-- A declaration binds its name with the type of the initial value, if there is one. -/
theorem Stmt.ty_of_declaredType {ctx : Context} {span : Span} {name : Ident} {written : Option Ty}
    {value : Option Expr} {ty : Ty} (h : declaredType ctx span name written value = .ok ty) :
    ∀ e, value = some e → e.ty ctx = .ok ty := by
  rintro e rfl
  cases written with
  | none =>
      simp only [declaredType, except_bind_eq_ok] at h
      obtain ⟨actual, typed, h⟩ := h
      split at h
      · simp only [except_bind_eq_ok, except_throw_eq_ok, false_and, exists_false] at h
      · rw [← except_pure_eq_ok.1 h]
        exact typed
  | some written =>
      simp only [declaredType, except_bind_eq_ok] at h
      obtain ⟨actual, typed, h⟩ := h
      split at h
      · simp only [except_bind_eq_ok, except_throw_eq_ok, false_and, exists_false] at h
      · next same =>
        obtain rfl := Decidable.not_not.1 same
        rw [pure_bind] at h
        split at h
        · simp only [except_bind_eq_ok, except_throw_eq_ok, false_and, exists_false] at h
        · rw [← except_pure_eq_ok.1 h]
          exact typed

end Rill
