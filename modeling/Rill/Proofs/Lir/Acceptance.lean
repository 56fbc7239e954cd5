import Rill.Proofs.Lir.Progress

/-!
# Accepted functions

A tree that is lowered without an error is well typed, as long as its declarations stand
in blocks. `Function.Accepted` says what makes a function acceptable without speaking of
blocks and instructions, and lowering accepts just these functions.
-/

namespace Rill

open Lir Lir.LowerM

namespace Stmt

mutual

/-- A statement that has been lowered is well typed, if its declarations stand in blocks. -/
theorem wellTyped_of_lower {S S' : LowerState} {u : Unit} : (s : Stmt) → s.contained = true →
    s.lower S = .ok u S' → s.WellTyped S.context
  | .ite _ _ none _, _, h => absurd h not_lower_ite_none
  | .ite _ condition (some positive) none, contained, h => by
    simp only [Stmt.contained, containedOpt, Bool.and_eq_true, Bool.not_eq_true'] at contained
    obtain ⟨plain, contained⟩ := contained.1
    obtain ⟨_, S₁, _, S₃, _, typed, tested, _, lowered, _, rfl⟩ := lower_ite h
    have first := wellTyped_of_lower positive contained lowered
    have same := Expr.lower_context condition tested
    exact .ite typed plain (same ▸ first)
  | .ite _ condition (some positive) (some negative), contained, h => by
    simp only [Stmt.contained, containedOpt, Bool.and_eq_true, Bool.not_eq_true'] at contained
    obtain ⟨⟨plain, contained⟩, plain', contained'⟩ := contained
    obtain ⟨_, S₁, _, S₃, _, S₅, _, typed, tested, _, lowered, _, lowered', _, rfl⟩ :=
      lower_ite_else h
    have first := wellTyped_of_lower positive contained lowered
    have second := wellTyped_of_lower negative contained' lowered'
    have same := Expr.lower_context condition tested
    have kept := (lower_context positive lowered).2 contained plain
    have same' : S₃.context = S.context := kept.trans same
    exact .iteElse typed plain (same ▸ first) plain' (same' ▸ second)
  | .block _ body, contained, h => by
    simp only [Stmt.contained] at contained
    obtain ⟨T, lowered, _⟩ := lower_block h
    exact .block (wellTypedAll_of_lower body contained lowered)
  | .decl .., _, h => by
    obtain ⟨ty, source, S₁, dest, S₂, typed, lowered, ⟨binding, ctx, declared, _⟩, _⟩ :=
      lower_decl h
    rw [Expr.lowerOpt_context lowered] at declared
    exact .decl (bindLocal_decl.2 ⟨ty, binding, typed, declared⟩)
  | .assign .., _, h => by
    obtain ⟨binding, _, _, _, _, found, typed, _⟩ := lower_assign h
    exact .assign (Context.typeOf?_eq_some_iff.2 ⟨binding, found, rfl⟩) typed
  | .ret _ none, _, h => by
    obtain ⟨_, _, _, typed, _⟩ := lower_ret h
    exact .retUnit (Except.ok.inj typed).symm
  | .ret _ (some value), _, h => by
    obtain ⟨_, _, _, typed, _⟩ := lower_ret h
    exact .ret typed
  | .loop _ condition body, contained, h => by
    simp only [Stmt.contained, Bool.and_eq_true, Bool.not_eq_true'] at contained
    obtain ⟨_, _, S₂, _, S₄, _, typed, _, tested, _, lowered, _, _⟩ := lower_loop h
    have inside := wellTyped_of_lower body contained.2 lowered
    have same : S₂.context = S.context := by
      have same := Expr.lower_context condition tested
      exact same
    exact .loop typed contained.1 (same ▸ inside)
  | .eval _ value, _, h => by
    obtain ⟨_, lowered⟩ := lower_eval h
    obtain ⟨ty, typed⟩ := Expr.exists_ty_of_lower lowered
    exact .eval typed
  | .skip _, _, _ => .skip

theorem wellTypedAll_of_lower {S S' : LowerState} {u : Unit} : (ss : List Stmt) →
    containedAll ss = true → lowerAll ss S = .ok u S' → WellTypedAll S.context ss
  | [], _, _ => .nil
  | s :: rest, contained, h => by
    simp only [containedAll, Bool.and_eq_true] at contained
    obtain ⟨S₁, lowered, h⟩ := lowerAll_cons h
    have first := wellTyped_of_lower s contained.1 lowered
    cases returns : s.returns with
    | true => exact .last first returns
    | false =>
        simp only [returns, Bool.false_eq_true, if_false] at h
        have others := wellTypedAll_of_lower rest contained.2 h
        obtain ⟨ctx, bound⟩ := first.exists_bindLocal
        have agrees := lower_agrees ((lower_context s lowered).2 contained.1) lowered bound
        have others' := WellTypedAll.congr agrees.symm rest (fun _ _ _ => rfl) others
        exact .cons first returns bound others'

end

end Stmt

namespace Function

variable {P : Prop} {S : LowerState}

/-- What makes a function acceptable: it is declared, its parameters can be bound, its body is well
typed, and there is a value to return on every path if there must be one. -/
def Accepted (f : Function) (signatures : SignatureTable) : Prop :=
  ∃ id S, signatures.handle? f.header.name.name = some id ∧
    f.header.params.forM bindParam (f.entered signatures id) = .ok () S ∧
    f.body.WellTyped S.context ∧ (f.header.returnType.isUnit = true ∨ f.body.returns = true)

theorem bindParams_safe {params : List Param} (h : P → ∃ T, params.forM bindParam S = .ok () T) :
    LowerM.Safe P (params.forM bindParam) S := by
  have noFault : LowerM.Safe False (params.forM bindParam) S := by
    clear h
    induction params generalizing S with
    | nil => exact .pure ()
    | cons param params ih =>
        rw [List.forM]
        refine LowerM.Safe.bind ?_ fun _ _ _ => ih
        rw [bindParam]
        split
        · exact .throw_bind id
        · refine .bind_of_ok (newArgument_eq_ok.2 ⟨rfl, rfl⟩) (.context_bind ?_)
          refine .ofExcept_bind False.elim fun pair _ => ?_
          exact .of_ok (a := ()) (setContext_eq_ok.2 rfl)
  rcases noFault with done | ⟨_, e, T, failed⟩
  · exact .inl done
  · refine .inr ⟨fun p => ?_, e, T, failed⟩
    obtain ⟨T, done⟩ := h p
    rw [done] at failed
    cases failed

theorem lowerBody_safe {f : Function} (prepared : S.Prepared) :
    LowerM.Safe (f.body.WellTyped S.context ∧
      (f.header.returnType.isUnit = true ∨ f.body.returns = true)) f.lowerBody S := by
  rw [lowerBody]
  refine .check_bind (fun h => ?_) fun r ctx analysed => ?_
  · obtain ⟨r, analysed, _⟩ := Stmt.WellTyped.returnType_eq f.body h.1
    exact ⟨r, S.context, analysed⟩
  obtain ⟨rfl, found⟩ := Stmt.returnType_eq_ok f.body analysed
  refine ((f.body.lower_safe prepared).imp And.left).bind fun _ S₁ lowered => ?_
  have grown := f.body.lower_extends lowered prepared.ready prepared.typed.returnType
  refine .bind_of_ok (get_eq_ok.2 ⟨rfl, rfl⟩) ?_
  cases terminated : S₁.emitter.isTerminated with
  | true => exact .pure ()
  | false =>
      have isOpen := grown.isOpen terminated
      simp only [Bool.false_eq_true, if_false]
      split
      · exact .push isOpen
      · next value =>
        cases r with
        | none =>
            refine .throw fun h => ?_
            rcases h.2 with unit | returns
            · exact value unit
            · rw [← found] at returns
              cases returns
        | some ty => exact .push isOpen

theorem prepared_bound {f : Function} {signatures : SignatureTable} {id : Nat} {u : Unit}
    (h : f.header.params.forM bindParam (f.entered signatures id) = .ok u S) : S.Prepared := by
  refine ⟨(ready_bound h).1, (bindParams_typed h (f.typed_entered signatures id)).1, ?_⟩
  obtain ⟨_, _, _, rfl⟩ := bindParams_eq_ok h
  rfl

/-- Lowering makes a function of every accepted tree, and otherwise reports an error. -/
theorem lower_cases (f : Function) (signatures : SignatureTable) :
    (∃ g, f.lower signatures = .ok g) ∨
      ¬ f.Accepted signatures ∧ ∃ e, f.lower signatures = .error (.error e) := by
  rw [lower]
  cases handle : signatures.handle? f.header.name.name with
  | none =>
      refine .inr ⟨?_, _, rfl⟩
      rintro ⟨id, _, handle', _⟩
      rw [handle] at handle'
      cases handle'
  | some id =>
      have safe : LowerM.Safe (f.Accepted signatures) (do
          f.header.params.forM bindParam
          f.lowerBody) (f.entered signatures id) := by
        refine (bindParams_safe ?_).bind fun _ S bound =>
          (lowerBody_safe (prepared_bound bound)).imp ?_
        all_goals
          rintro ⟨id', S', handle', bound', typed⟩
          obtain rfl := Option.some.inj (handle.symm.trans handle')
        · exact ⟨S', bound'⟩
        · obtain ⟨_, rfl⟩ := EStateM.Result.ok.inj (bound.symm.trans bound')
          exact typed
      have whole : LowerM.Safe (f.Accepted signatures) (do
          let entry ← newBlock id "entry"
          moveTo entry
          f.header.params.forM bindParam
          f.lowerBody)
          { context := { Context.ofFunction f signatures with handle := some id }
            emitter :=
              { signatures, id, name := f.header.name.name, returnType := f.header.returnType } } :=
        .newBlock_bind (.moveTo_bind safe)
      rcases whole with ⟨_, T, done⟩ | ⟨wrong, e, T, failed⟩
      · refine .inl ⟨T.emitter.finish, ?_⟩
        simp only [done]
      · refine .inr ⟨wrong, e, ?_⟩
        simp only [failed]

/-- A function whose declarations stand in blocks is accepted if it has been lowered. -/
theorem accepted_of_lower {f : Function} {signatures : SignatureTable} {g : Lir.Function}
    (contained : f.body.contained = true) (h : f.lower signatures = .ok g) :
    f.Accepted signatures := by
  obtain ⟨id, S₁, S₂, handle, bound, body, rfl⟩ := lower_eq_ok h
  obtain ⟨ready, _, _, declared, named⟩ := ready_bound bound
  obtain ⟨S₃, lowered, _, _, falls⟩ := lowerBody_later body ready declared
  refine ⟨id, S₁, handle, bound, f.body.wellTyped_of_lower contained lowered, ?_⟩
  cases returns : f.body.returns with
  | true => exact .inr rfl
  | false => exact .inl (falls returns).1

end Function

end Rill
