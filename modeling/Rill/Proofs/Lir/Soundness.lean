import Rill.Proofs.Lir.Layout
import Rill.Proofs.Lir.WellFormed
import Rill.Proofs.Tree.Typed

/-!
# What lowering accepts is safe to run

Types are checked where a tree is lowered, and only as far as control can come. A tree
that has been lowered is therefore safe: it returns values of the declared type, and
ends in no other way than by a trap. Code after a statement that is sure to return is
not checked, and not run either.
-/

namespace Rill

open Lir

namespace ExecM

variable {α β : Type} {ty : Ty} {P P' : Env → Prop} {Q Q' : α → Env → Prop}

/-- From locals with property `P`, every result and the locals after it are as promised, values of
type `ty` are returned, and nothing else happens but traps. -/
def Safe (ty : Ty) (P : Env → Prop) (x : ExecM α) (Q : α → Env → Prop) : Prop :=
  ∀ frame, P frame.env → match x frame with
    | .ok a after => Q a after.env
    | .error (.ended e) _ => e.Trap
    | .error (.returned v) _ => v.ty = ty
    | .error .exhausted _ => True

namespace Safe

theorem pure {a : α} (h : ∀ env, P env → Q a env) : Safe ty P (Pure.pure a) Q :=
  fun frame start => h frame.env start

theorem imp {x : ExecM α} (h : Safe ty P x Q) (pre : ∀ env, P' env → P env)
    (post : ∀ a env, Q a env → Q' a env) : Safe ty P' x Q' := by
  intro frame start
  have reached := h frame (pre frame.env start)
  cases outcome : x frame with
  | ok a after =>
      rw [outcome] at reached
      exact post a after.env reached
  | error halt after =>
      rw [outcome] at reached
      cases halt <;> exact reached

theorem of_never {x : ExecM α} (h : Safe ty P x Q)
    (never : ∀ frame a after, x frame ≠ .ok a after) : Safe ty P x Q' := by
  intro frame start
  have reached := h frame start
  cases outcome : x frame with
  | ok a after => exact absurd outcome (never frame a after)
  | error halt after =>
      rw [outcome] at reached
      cases halt <;> exact reached

theorem bind {R : β → Env → Prop} {x : ExecM α} {f : α → ExecM β} (first : Safe ty P x Q)
    (next : ∀ a, Safe ty (Q a) (f a) R) : Safe ty P (x >>= f) R := by
  intro frame start
  have reached := first frame start
  rw [bind_apply]
  cases outcome : x frame with
  | ok a after =>
      rw [outcome] at reached
      exact next a after reached
  | error halt after =>
      rw [outcome] at reached
      cases halt <;> exact reached

/-- An expression leaves the locals alone. -/
theorem ofEval {R : α → Prop} {x : Env → EvalM α} (h : ∀ env, P env → (x env).Safe R) :
    Safe ty P (ExecM.ofEval x) (fun a env => P env ∧ R a) := by
  intro frame start
  have reached := h frame.env start frame.calls
  rw [ExecM.ofEval]
  cases outcome : x frame.env frame.calls with
  | ok a calls =>
      rw [outcome] at reached
      exact ⟨start, reached⟩
  | error e calls =>
      rw [outcome] at reached
      exact reached

theorem inScope {x : ExecM α} (h : Safe ty P x (fun a env => Q a env.tail))
    (opened : ∀ env, P' env → P ([] :: env)) : Safe ty P' (ExecM.inScope x) Q := by
  intro frame start
  have reached := h { frame with env := [] :: frame.env } (opened frame.env start)
  rw [ExecM.inScope]
  cases outcome : x { frame with env := [] :: frame.env } with
  | ok a after =>
      rw [outcome] at reached
      exact reached
  | error halt after =>
      rw [outcome] at reached
      cases halt <;> exact reached

/-- What both the test and the body of a loop keep is kept by the loop. -/
theorem loop {test : ExecM Bool} {body : ExecM Unit} (tested : Safe ty P test fun _ => P)
    (run : Safe ty P body fun _ => P) (rounds : Nat) :
    Safe ty P (ExecM.loop test body rounds) fun _ => P := by
  induction rounds with
  | zero =>
      rw [ExecM.loop]
      refine .bind tested fun again => ?_
      cases again with
      | false => exact .pure fun _ start => start
      | true => exact fun _ _ => trivial
  | succ rounds ih =>
      rw [ExecM.loop]
      refine .bind tested fun again => ?_
      cases again with
      | false => exact .pure fun _ start => start
      | true => exact .bind run fun _ => ih

end Safe

end ExecM

namespace Stmt

variable {signatures : SignatureTable} {oracle : Oracle} {rounds : Nat} {ty : Ty}

mutual

theorem exec_safe (obeys : oracle.Obeys signatures) {S S' : LowerState} {u : Unit} :
    (s : Stmt) → s.lower S = .ok u S' → s.contained = true →
    S.context.signatures = signatures ∧ S.context.returnType = ty →
    ExecM.Safe ty (Types S.context.scopes) (s.exec signatures oracle rounds)
      fun _ => Types S'.context.scopes
  | .ite _ _ none _, h, _, _ => absurd h not_lower_ite_none
  | .ite _ condition (some positive) none, h, contained, declared => by
    obtain ⟨_, S₁, _, S₃, _, typed, tested, _, lowered, _, rfl⟩ := lower_ite h
    simp only [Stmt.contained, containedOpt, Bool.and_eq_true, Bool.not_eq_true'] at contained
    have same := Expr.lower_context condition tested
    have kept := (lower_context positive lowered).2 contained.1.2 contained.1.1
    have arm := exec_safe obeys positive lowered contained.1.2 (same ▸ declared)
    obtain ⟨rfl, rfl⟩ := declared
    simp only [kept, same] at arm ⊢
    simp only [exec]
    refine .bind (.ofEval fun env types => Expr.test_safe obeys types typed) fun b => ?_
    cases b with
    | true =>
        simp only [execOpt]
        exact arm.imp (fun _ start => start.1) fun _ _ after => after
    | false =>
        simp only [execOpt]
        exact .pure fun _ start => start.1
  | .ite _ condition (some positive) (some negative), h, contained, declared => by
    obtain ⟨_, S₁, _, S₃, _, S₅, _, typed, tested, _, first, _, second, _, rfl⟩ :=
      lower_ite_else h
    simp only [Stmt.contained, containedOpt, Bool.and_eq_true, Bool.not_eq_true'] at contained
    have same := Expr.lower_context condition tested
    have kept := (lower_context positive first).2 contained.1.2 contained.1.1
    have kept' := (lower_context negative second).2 contained.2.2 contained.2.1
    have arm := exec_safe obeys positive first contained.1.2 (same ▸ declared)
    have arm' := exec_safe obeys negative second contained.2.2 (by rw [kept, same]; exact declared)
    obtain ⟨rfl, rfl⟩ := declared
    simp only [kept', kept, same] at arm arm' ⊢
    simp only [exec]
    refine .bind (.ofEval fun env types => Expr.test_safe obeys types typed) fun b => ?_
    cases b with
    | true =>
        simp only [execOpt]
        exact arm.imp (fun _ start => start.1) fun _ _ after => after
    | false =>
        simp only [execOpt]
        exact arm'.imp (fun _ start => start.1) fun _ _ after => after
  | .block _ body, h, contained, declared => by
    obtain ⟨T, lowered, rfl⟩ := lower_block h
    simp only [Stmt.contained] at contained
    have inner := execAll_safe obeys body lowered contained declared
    have outer := lowerAll_context body lowered
    simp only [exec]
    refine .inScope (inner.imp (fun _ start => start) fun _ env after => ?_) fun _ => Matches.push
    rw [outer] at after ⊢
    exact after.tail
  | .decl _ name _ value, h, _, declared => by
    obtain ⟨_, source, S₁, dest, S₂, typed, lowered, allots, h⟩ := lower_decl h
    have same := Expr.lowerOpt_context lowered
    have binds := allots.binds
    rw [same] at binds
    have context : S'.context = S₂.context := by
      cases source with
      | none => rw [h]
      | some a =>
          obtain ⟨_, _, rfl⟩ := h
          rfl
    obtain ⟨rfl, rfl⟩ := declared
    simp only [exec]
    refine .bind (.ofEval fun env types =>
      Expr.evalOpt_safe obeys types (ty_of_declaredType typed)) fun v => ?_
    rintro frame ⟨types, _, valued⟩
    rw [context]
    refine binds.declare types fun b w typed' _ assigned => ?_
    rw [typed', valued w assigned]
  | .assign _ target value, h, _, declared => by
    obtain ⟨binding, _, _, S₁, _, found, typed, _, lowered, _, rfl⟩ := lower_assign h
    have same := Expr.lower_context value lowered
    obtain ⟨rfl, rfl⟩ := declared
    simp only [same, exec]
    refine .bind (.ofEval fun env types => Expr.eval_safe obeys types value typed) fun v => ?_
    rintro frame ⟨types, typed'⟩
    obtain ⟨env', assigned, types'⟩ := types.assign (Context.lookup_eq_ok.1 found) typed'
    simp only [ExecM.assign, assigned]
    exact types'
  | .ret _ value, h, _, declared => by
    obtain ⟨_, _, _, typed, _, _, rfl⟩ := lower_ret h
    obtain ⟨rfl, rfl⟩ := declared
    have typed' : ∀ e, value = some e → e.ty S.context = .ok S.context.returnType := by
      rintro e rfl
      exact typed
    simp only [exec]
    refine .bind (.ofEval fun env types => Expr.evalOpt_safe obeys types typed') fun v => ?_
    rintro frame ⟨_, isSome, valued⟩
    change Immediate.ty (v.getD .unit) = S.context.returnType
    cases v with
    | some w => exact valued w rfl
    | none =>
        cases value with
        | some e => cases isSome
        | none => exact Except.ok.inj typed
  | .loop _ condition body, h, contained, declared => by
    obtain ⟨_, _, S₂, _, S₄, _, typed, _, tested, _, lowered, _, rfl⟩ := lower_loop h
    simp only [Stmt.contained, Bool.and_eq_true, Bool.not_eq_true'] at contained
    have same := Expr.lower_context condition tested
    have kept := (lower_context body lowered).2 contained.2 contained.1
    have arm := exec_safe obeys body lowered contained.2 (same ▸ declared)
    obtain ⟨rfl, rfl⟩ := declared
    simp only [kept, same] at arm ⊢
    simp only [exec]
    refine .loop (.imp (.ofEval fun env types => Expr.test_safe obeys types typed)
      (fun _ start => start) fun _ _ after => after.1) arm rounds
  | .eval _ value, h, _, declared => by
    obtain ⟨_, lowered⟩ := lower_eval h
    obtain ⟨_, typed⟩ := Expr.exists_ty_of_lower lowered
    have same := Expr.lower_context value lowered
    obtain ⟨rfl, rfl⟩ := declared
    simp only [same, exec]
    exact .bind (.ofEval fun env types => Expr.eval_safe obeys types value typed) fun _ =>
      .pure fun _ start => start.1
  | .skip _, h, _, _ => by
    rw [lower_skip h]
    simp only [exec]
    exact .pure fun _ start => start

theorem execAll_safe (obeys : oracle.Obeys signatures) {S S' : LowerState} {u : Unit} :
    (ss : List Stmt) → lowerAll ss S = .ok u S' → containedAll ss = true →
    S.context.signatures = signatures ∧ S.context.returnType = ty →
    ExecM.Safe ty (Types S.context.scopes) (execAll signatures oracle rounds ss)
      fun _ => Types S'.context.scopes
  | [], h, _, _ => by
    rw [lowerAll_nil h]
    simp only [execAll]
    exact .pure fun _ start => start
  | s :: rest, h, contained, declared => by
    obtain ⟨S₁, first, h⟩ := lowerAll_cons h
    simp only [containedAll, Bool.and_eq_true] at contained
    have one := exec_safe obeys s first contained.1 declared
    simp only [execAll]
    cases returned : s.returns with
    | true =>
        exact .bind (Q := fun _ _ => False) (one.of_never fun _ _ _ => exec_ne_ok s returned)
          fun _ _ never => never.elim
    | false =>
        rw [returned, if_neg Bool.false_ne_true] at h
        have declared' : S₁.context.signatures = signatures ∧ S₁.context.returnType = ty := by
          rw [(lower_context s first).1]
          exact declared
        exact .bind one fun _ => execAll_safe obeys rest h contained.2 declared'

end

end Stmt

/-- How a function that returns `ty` can end. -/
inductive Ending.Regular (ty : Ty) : Ending → Prop
  | nothing (unit : ty = .unit) : Regular ty (.returned none)
  | value {v : Value} (typed : v.ty = ty) (given : ty ≠ .unit) : Regular ty (.returned (some v))
  | zeroDivision {op : BinaryOp} (dividend : Int64) (divides : op = .div ∨ op = .rem) :
    Regular ty (.zeroDivision op (.int dividend))

theorem Ending.Trap.regular {e : Ending} (h : e.Trap) (ty : Ty) :
    e.Regular ty ∨ ∃ name, e = .unassigned name := by
  cases h with
  | zeroDivision dividend divides => exact .inl (.zeroDivision dividend divides)
  | unassigned name => exact .inr ⟨name, rfl⟩

namespace Function

variable {f : Function} {signatures : SignatureTable} {oracle : Oracle}

/-- A function that has been lowered returns what it declares or divides an integer by zero, as long
as its locals are assigned before they are read. -/
theorem regular_of_ends {g : Lir.Function} {args : List Value} (contained : f.body.contained = true)
    (h : f.lower signatures = .ok g) (typed : args.map (·.ty) = f.header.params.map (·.ty))
    (obeys : oracle.Obeys signatures) {calls : List Call} {ending : Ending}
    (ends : (f.run signatures oracle args).Ends calls ending) :
    ending.Regular f.header.returnType ∨ ∃ name, ending = .unassigned name := by
  obtain ⟨id, S₁, S₂, _, bound, body, rfl⟩ := lower_eq_ok h
  obtain ⟨ready, _, _, declared, named⟩ := ready_bound bound
  obtain ⟨S₃, lowered, _, _, falls⟩ := lowerBody_later body ready declared
  have count : args.length = f.header.params.length := by
    simpa using congrArg List.length typed
  have table : S₁.context.signatures = signatures := by
    obtain ⟨_, _, _, rfl⟩ := bindParams_eq_ok bound
    rfl
  have types : Types S₁.context.scopes (f.enter args).env := by
    refine matches_enter bound count fun i param v there found b typed' _ => ?_
    have same := congrArg (·[i]?) typed
    simp only [List.getElem?_map, there, found, Option.map_some, Option.some.injEq] at same
    rw [same, typed']
  obtain ⟨n, seen⟩ := ends
  have safe : ExecM.Safe f.header.returnType _ (f.body.exec signatures oracle n) _ :=
    f.body.exec_safe obeys lowered contained ⟨table, declared.trans named⟩
  have reached := safe (f.enter args) types
  have ended : (f.moment (f.body.exec signatures oracle n (f.enter args))).ending = some ending :=
    congrArg Moment.ending seen
  cases outcome : f.body.exec signatures oracle n (f.enter args) with
  | ok a frame =>
      rw [outcome] at ended
      obtain rfl := Option.some.inj ended
      cases returned : f.body.returns with
      | true => exact absurd outcome (Stmt.exec_ne_ok f.body returned)
      | false => exact .inl (.nothing (eq_of_beq (falls returned).1))
  | error halt frame =>
      rw [outcome] at reached ended
      cases halt with
      | ended e =>
          obtain rfl := Option.some.inj ended
          exact Ending.Trap.regular reached _
      | returned v =>
          obtain rfl := Option.some.inj ended
          split
          · next unit => exact .inl (.nothing (eq_of_beq unit))
          · next given => exact .inl (.value reached fun unit => given (beq_of_eq unit))
      | exhausted => cases ended

end Function

end Rill
