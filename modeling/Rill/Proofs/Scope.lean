import Rill.Proofs.Computation
import Rill.Typing

/-!
# What declaring changes

A declaration concerns the innermost scope only: it finds a binding of the same
type there, or adds one that has no register yet. `Context.Widens` is what any number
of declarations can do to a context, whether or not their names get registers. Return
analysis declares names in scopes of its own, so it leaves the context as it was, also
when it fails.
-/

namespace Rill

namespace Scope

theorem get?_cons (name : String) (binding : Binding) (scope : Scope) (n : String) :
    get? ((name, binding) :: scope) n = if n = name then some binding else scope.get? n := by
  simp only [get?, List.lookup_cons]
  split <;> simp_all

theorem get?_setRegister (scope : Scope) (name : String) (register : Nat) (n : String) :
    (scope.setRegister name register).get? n =
      if n = name then (scope.get? n).map fun b => { b with register := some register }
      else scope.get? n := by
  induction scope with
  | nil => simp [setRegister, get?]
  | cons entry scope ih =>
      obtain ⟨m, b⟩ := entry
      have tail : setRegister ((m, b) :: scope) name register =
          (m, if m = name then { b with register := some register } else b) ::
            setRegister scope name register := by
        simp only [setRegister, List.map_cons]
        split <;> rfl
      rw [tail, get?_cons, get?_cons, ih]
      by_cases same : n = m
      · subst same
        by_cases target : n = name <;> simp [target]
      · simp [same]

end Scope

namespace Context

variable {ctx ctx' ctx'' : Context}

/-- A name is new in the innermost scope or was declared there with the same type. -/
theorem declare_cases {name : Ident} {ty : Ty} {binding : Binding}
    (h : ctx.declare name ty = .ok (binding, ctx')) :
    (ctx.current.get? name.name = some binding ∧ binding.ty = ty ∧ ctx' = ctx) ∨
    (ctx.current.get? name.name = none ∧ binding = ⟨ty, none, name.span⟩ ∧
      ctx' = { ctx with current := (name.name, binding) :: ctx.current }) := by
  simp only [declare] at h
  split at h
  next known found =>
    split at h
    next same =>
      cases h
      exact .inl ⟨found, same, rfl⟩
    next => cases h
  next found =>
    cases h
    exact .inr ⟨found, rfl, rfl⟩

theorem get?_of_declare {name : Ident} {ty : Ty} {binding : Binding}
    (h : ctx.declare name ty = .ok (binding, ctx')) :
    ctx'.current.get? name.name = some binding := by
  obtain ⟨found, _, rfl⟩ | ⟨_, _, rfl⟩ := declare_cases h
  · exact found
  · rw [Scope.get?_cons, if_pos rfl]

/-- At most the innermost scope has changed. Its names are still bound as they were, except that a
binding without a register may have got one. -/
structure Widens (ctx ctx' : Context) : Prop where
  rest : ctx' = { ctx with current := ctx'.current }
  kept : ∀ name b, ctx.current.get? name = some b →
    ctx'.current.get? name = some b ∨
      b.register = none ∧ ∃ r, ctx'.current.get? name = some { b with register := some r }

namespace Widens

theorem refl (ctx : Context) : ctx.Widens ctx where
  rest := rfl
  kept := fun _ _ found => .inl found

theorem trans (first : ctx.Widens ctx') (second : ctx'.Widens ctx'') : ctx.Widens ctx'' where
  rest := by
    have rest := second.rest
    rw [first.rest] at rest
    exact rest
  kept := by
    intro name b found
    rcases first.kept name b found with same | ⟨unset, r, given⟩
    · exact second.kept name b same
    · -- A register that has been given stays.
      rcases second.kept name _ given with same | ⟨unset', _⟩
      · exact .inr ⟨unset, r, same⟩
      · cases unset'

theorem declare {name : Ident} {ty : Ty} {binding : Binding}
    (h : ctx.declare name ty = .ok (binding, ctx')) : ctx.Widens ctx' := by
  obtain ⟨_, _, rfl⟩ | ⟨fresh, _, rfl⟩ := declare_cases h
  · exact .refl ctx'
  · refine ⟨rfl, fun n b found => .inl ?_⟩
    have other : n ≠ name.name := by
      rintro rfl
      rw [fresh] at found
      cases found
    rw [Scope.get?_cons, if_neg other]
    exact found

/-- A register is set once, for a name that had none. -/
theorem setRegister {name : String} {binding : Binding}
    (found : ctx.current.get? name = some binding) (unset : binding.register = none) (r : Nat) :
    ctx.Widens (ctx.setRegister name r) := by
  refine ⟨rfl, fun n b bound => ?_⟩
  rw [Context.setRegister, Scope.get?_setRegister]
  by_cases this : n = name
  · subst this
    obtain rfl := Option.some.inj (found.symm.trans bound)
    rw [if_pos rfl, found]
    exact .inr ⟨unset, r, rfl⟩
  · rw [if_neg this]
    exact .inl bound

/-- Leaving a scope forgets what it was widened by. -/
theorem pop_eq (h : ctx.push.Widens ctx') : ctx'.pop = ctx := by
  rw [h.rest]
  rfl

end Widens

theorem declare_outer {name : Ident} {ty : Ty} {binding : Binding}
    (h : ctx.declare name ty = .ok (binding, ctx')) :
    ctx' = { ctx with current := ctx'.current } :=
  (Widens.declare h).rest

end Context

instance : IsPreorder Context Context.Widens where
  refl := .refl
  trans := fun _ _ _ => .trans

namespace CheckM

variable {α : Type}

theorem leaves_ofExcept {R : Context → Context → Prop} [IsPreorder Context R]
    (x : Except CompileError α) : Leaves R (ofExcept x) := by
  cases x with
  | ok a => exact .pure a
  | error e => exact .throw e

/-- What was declared inside is gone, also if the inside fails. -/
theorem leaves_inScope {x : CheckM α} (h : Leaves Context.Widens x) :
    Leaves Eq (inScope x) := by
  intro ctx
  have widened := h ctx.push
  rw [inScope]
  cases outcome : x ctx.push with
  | ok a ctx' | error e ctx' =>
      -- Whatever has happened in the inner scope, it goes with that scope.
      rw [outcome] at widened
      exact widened.pop_eq.symm

end CheckM

namespace Stmt

theorem leaves_bindLocal (s : Stmt) : Leaves Context.Widens s.bindLocal := by
  cases s with
  | decl span name written value =>
      rw [bindLocal]
      refine .bind .get fun ctx => .bind (CheckM.leaves_ofExcept _) fun ty => ?_
      intro ctx
      change ctx.Widens (stateAfter ((CheckM.ofExcept (ctx.declare name ty) >>= fun declared =>
        set declared.2) ctx))
      cases declared : ctx.declare name ty with
      | ok result => exact .declare declared
      | error e => exact .refl ctx
  | _ => exact .pure ()

mutual

/-- The context is what it was, however return analysis ends. -/
theorem leaves_returnType : (s : Stmt) → Leaves Eq s.returnType
  | .ite _ _ _ none => by
    rw [returnType]
    exact .pure _
  | .ite _ _ none (some _) => by
    rw [returnType]
    exact .throw _
  | .ite _ _ (some positive) (some negative) => by
    rw [returnType]
    refine .bind (leaves_returnType positive) fun first =>
      .bind (leaves_returnType negative) fun second => ?_
    split
    · split
      · exact .bind (.throw _) fun _ => .pure _
      · exact .pure _
    · exact .pure _
  | .block _ body => by
    rw [returnType]
    exact CheckM.leaves_inScope (leaves_returnTypeAll body)
  | .ret _ (some value) => by
    rw [returnType]
    exact .bind .get fun _ => .bind (CheckM.leaves_ofExcept _) fun _ => .pure _
  | .ret _ none => by
    rw [returnType]
    exact .pure _
  | .decl .. | .assign .. | .loop .. | .eval .. | .skip _ => by
    rw [returnType]
    exact .pure _

theorem leaves_returnTypeAll : (body : List Stmt) → Leaves Context.Widens (returnTypeAll body)
  | [] => by
    rw [returnTypeAll]
    exact .pure _
  | s :: rest => by
    rw [returnTypeAll]
    have analysed : Leaves Context.Widens s.returnType := by
      intro ctx
      rw [← leaves_returnType s ctx]
      exact .refl ctx
    refine .bind (leaves_bindLocal s) fun _ => .bind analysed fun r => ?_
    split
    · exact .pure _
    · exact leaves_returnTypeAll rest

end

end Stmt

end Rill
