import Mathlib.Data.List.Forall2
import Rill.Proofs.Scope
import Rill.Proofs.Tree.Meaning

/-!
# Bindings and locals

A name has a binding at compile time and a local at run time. `Matches P` says that in
every open block the same names have both, and that `P` relates each binding to the
value of its local, if that has been assigned. This is kept where a block is opened and
where a local is declared.
-/

namespace Rill

/-- All scopes of a context, from the inside. -/
def Context.scopes (ctx : Context) : List Scope :=
  ctx.current :: ctx.outer

theorem Context.lookup_eq_ok {ctx : Context} {name : Ident} {binding : Binding} :
    ctx.lookup name = .ok binding ↔
      ctx.scopes.findSome? (·.get? name.name) = some binding := by
  rw [lookup, scopes]
  cases (ctx.current :: ctx.outer).findSome? (·.get? name.name) <;> simp

variable {P Q : Binding → Value → Prop} {scopes : List Scope} {scope : Scope} {env : Env}
  {locals : Locals} {name : String}

namespace Scope

/-- A name is bound just if it is that of a local, and the binding is related to the value of the
local if that has been assigned. -/
structure MatchesAt (P : Binding → Value → Prop) (scope : Scope) (locals : Locals)
    (name : String) : Prop where
  bound : (scope.get? name).isSome = (locals.lookup name).isSome
  value : ∀ b v, scope.get? name = some b → locals.lookup name = some (some v) → P b v

def Matches (P : Binding → Value → Prop) (scope : Scope) (locals : Locals) : Prop :=
  ∀ name, scope.MatchesAt P locals name

theorem MatchesAt.imp (h : scope.MatchesAt P locals name)
    (weaker : ∀ b v, scope.get? name = some b → P b v → Q b v) :
    scope.MatchesAt Q locals name :=
  ⟨h.bound, fun b v found assigned => weaker b v found (h.value b v found assigned)⟩

/-- Another local on top does not matter. -/
theorem MatchesAt.shadow {n : String} {value : Option Value} (h : scope.MatchesAt P locals n)
    (other : n ≠ name) : scope.MatchesAt P ((name, value) :: locals) n := by
  have apart : (n == name) = false := by simpa using other
  have untouched : ((name, value) :: locals).lookup n = locals.lookup n := by
    rw [List.lookup_cons, apart]
  refine ⟨?_, ?_⟩
  · rw [untouched]
    exact h.bound
  · rw [untouched]
    exact h.value

end Scope

def Matches (P : Binding → Value → Prop) (scopes : List Scope) (env : Env) : Prop :=
  List.Forall₂ (Scope.Matches P) scopes env

namespace Matches

theorem imp (h : Matches P scopes env)
    (weaker : ∀ scope ∈ scopes, ∀ name b v, scope.get? name = some b → P b v → Q b v) :
    Matches Q scopes env := by
  induction h with
  | nil => exact .nil
  | @cons scope locals scopes env first _ ih =>
      refine .cons (fun name => (first name).imp (weaker scope List.mem_cons_self name)) (ih ?_)
      exact fun s mem => weaker s (List.mem_cons_of_mem scope mem)

theorem push (h : Matches P scopes env) : Matches P ([] :: scopes) ([] :: env) :=
  .cons (fun _ => ⟨rfl, fun _ _ found => by cases found⟩) h

theorem tail (h : Matches P (scope :: scopes) env) : Matches P scopes env.tail := by
  cases h with
  | cons _ rest => exact rest

/-- A name that is bound refers to a local. -/
theorem lookup (h : Matches P scopes env) {b : Binding}
    (found : scopes.findSome? (·.get? name) = some b) :
    ∃ entry, env.lookup name = some entry ∧ ∀ v, entry = some v → P b v := by
  induction h with
  | nil => cases found
  | @cons scope locals scopes env first _ ih =>
      have bound := (first name).bound
      simp only [Env.lookup, List.findSome?_cons] at found ⊢
      cases here : scope.get? name with
      | some b' =>
          rw [here] at found bound
          obtain rfl : b' = b := by simpa using found
          obtain ⟨entry, known⟩ := Option.isSome_iff_exists.1 bound.symm
          refine ⟨entry, by rw [known], ?_⟩
          rintro v rfl
          exact (first name).value b' v here known
      | none =>
          rw [here] at found bound
          have absent : locals.lookup name = none := by simpa using bound.symm
          rw [absent]
          exact ih found

/-- A local of the innermost block, which may have been bound just now. -/
theorem declare {b : Binding} {value : Option Value}
    (others : ∀ n, n ≠ name → scope.MatchesAt P locals n) (outer : Matches P scopes env)
    (found : scope.get? name = some b) (new : ∀ v, value = some v → P b v) :
    Matches P (scope :: scopes) (((name, value) :: locals) :: env) := by
  refine .cons (fun n => ?_) outer
  by_cases same : n = name
  · subst same
    refine ⟨by simp [found], fun b' v found' assigned => ?_⟩
    obtain rfl := Option.some.inj (found.symm.trans found')
    exact new v (by simpa using assigned)
  · exact (others n same).shadow same

theorem append {inner : List Scope} {innerEnv : Env} (first : Matches P inner innerEnv)
    (second : Matches P scopes env) : Matches P (inner ++ scopes) (innerEnv ++ env) :=
  List.rel_append first second

/-- An assignment to a bound name finds the local that it refers to, in the block of its binding. -/
theorem assign_split (h : Matches P scopes env) {b : Binding}
    (found : scopes.findSome? (·.get? name) = some b) (value : Value) :
    ∃ inner scope outer innerEnv locals outerEnv, scopes = inner ++ scope :: outer ∧
      scope.get? name = some b ∧ Matches P inner innerEnv ∧ scope.Matches P locals ∧
      Matches P outer outerEnv ∧
      env.assign name value = some (innerEnv ++ ((name, some value) :: locals) :: outerEnv) := by
  induction h with
  | nil => cases found
  | @cons scope locals scopes env first rest ih =>
      have bound := (first name).bound
      simp only [List.findSome?_cons] at found
      simp only [Env.assign]
      cases here : scope.get? name with
      | some b' =>
          rw [here] at found bound
          obtain rfl : b' = b := by simpa using found
          obtain ⟨_, known⟩ := Option.isSome_iff_exists.1 bound.symm
          rw [known]
          exact ⟨[], scope, scopes, [], locals, env, rfl, here, .nil, first, rest, rfl⟩
      | none =>
          rw [here] at found bound
          have absent : locals.lookup name = none := by simpa using bound.symm
          obtain ⟨inner, s, outer, innerEnv, ls, outerEnv, rfl, there, within, at_, beyond,
            assigned⟩ := ih found
          rw [absent, assigned]
          exact ⟨scope :: inner, s, outer, locals :: innerEnv, ls, outerEnv, rfl, there,
            .cons first within, at_, beyond, rfl⟩

theorem assign (h : Matches P scopes env) {b : Binding} {value : Value}
    (found : scopes.findSome? (·.get? name) = some b) (new : P b value) :
    ∃ env', env.assign name value = some env' ∧ Matches P scopes env' := by
  obtain ⟨inner, scope, outer, innerEnv, locals, outerEnv, rfl, here, within, at_, beyond,
    assigned⟩ := h.assign_split found value
  refine ⟨_, assigned, within.append (declare (fun n _ => at_ n) beyond here ?_)⟩
  rintro v ⟨⟩
  exact new

end Matches

end Rill
