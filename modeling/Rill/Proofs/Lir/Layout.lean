import Mathlib.Logic.Function.Basic
import Rill.Proofs.Lir.Lowering
import Rill.Proofs.Tree.Locals

/-!
# Where locals live

Every binding in scope has a register of its own: `Allotted` says so of the scopes at
compile time. At run time, `Holds` relates what the registers hold to the locals of
the open blocks, scope by scope. A local that has been assigned is in its register; for
one that has not, nothing is said.

Writing a register therefore changes one local of one scope, and no other.
-/

namespace Rill

namespace Scope

/-- Every binding of the scope has a register below `size`, and no two have the same. -/
structure Allotted (scope : Scope) (size : Nat) : Prop where
  registers : ∀ name b, scope.get? name = some b → ∃ r, b.register = some r ∧ r < size
  apart : ∀ name name' b b', scope.get? name = some b → scope.get? name' = some b' →
    b.register = b'.register → name = name'

def Disjoint (s t : Scope) : Prop :=
  ∀ name name' b b', s.get? name = some b → t.get? name' = some b' → b.register ≠ b'.register

end Scope

/-- Every binding in scope has a register of its own. -/
structure Allotted (scopes : List Scope) (size : Nat) : Prop where
  each : ∀ scope ∈ scopes, scope.Allotted size
  disjoint : scopes.Pairwise Scope.Disjoint

/-- The register of a binding holds this value. -/
def Binding.HeldIn (regs : Nat → Value) (b : Binding) (v : Value) : Prop :=
  ∀ r, b.register = some r → regs r = v

/-- The registers hold the locals of all open blocks. -/
abbrev Holds (scopes : List Scope) (regs : Nat → Value) (env : Env) : Prop :=
  Matches (Binding.HeldIn regs) scopes env

variable {scopes : List Scope} {scope scope' : Scope} {size : Nat} {regs regs' : Nat → Value}
  {env : Env} {locals : Locals} {name : String}

namespace Allotted

theorem mono {size' : Nat} (h : Allotted scopes size) (le : size ≤ size') :
    Allotted scopes size' := by
  refine ⟨fun scope mem => ⟨?_, (h.each scope mem).apart⟩, h.disjoint⟩
  intro name b found
  obtain ⟨r, register, below⟩ := (h.each scope mem).registers name b found
  exact ⟨r, register, Nat.lt_of_lt_of_le below le⟩

theorem nil : Allotted [] size :=
  ⟨fun _ mem => absurd mem List.not_mem_nil, .nil⟩

theorem push (h : Allotted scopes size) : Allotted ([] :: scopes) size where
  each := by
    intro scope mem
    rcases List.mem_cons.1 mem with rfl | mem
    · refine ⟨fun name b found => ?_, fun name _ b _ found => ?_⟩
      all_goals cases found
    · exact h.each scope mem
  disjoint := by
    refine List.pairwise_cons.2 ⟨fun scope _ name _ b _ found => ?_, h.disjoint⟩
    cases found

theorem tail (h : Allotted (scope :: scopes) size) : Allotted scopes size :=
  ⟨fun s mem => h.each s (List.mem_cons_of_mem scope mem), (List.pairwise_cons.1 h.disjoint).2⟩

theorem head (h : Allotted (scope :: scopes) size) : scope.Allotted size :=
  h.each scope List.mem_cons_self

/-- Giving one name of the innermost scope the next free register. -/
theorem rebind {b' : Binding} (h : Allotted (scope :: scopes) size)
    (others : ∀ n, n ≠ name → scope'.get? n = scope.get? n) (bound : scope'.get? name = some b')
    (fresh : b'.register = some size) : Allotted (scope' :: scopes) (size + 1) := by
  have cases_ : ∀ {n b}, scope'.get? n = some b →
      (n = name ∧ b.register = some size) ∨ (n ≠ name ∧ scope.get? n = some b ∧
        ∃ r, b.register = some r ∧ r < size) := by
    intro n b found
    by_cases same : n = name
    · subst same
      obtain rfl := Option.some.inj (found.symm.trans bound)
      exact .inl ⟨rfl, fresh⟩
    · rw [others n same] at found
      exact .inr ⟨same, found, h.head.registers n b found⟩
  refine ⟨?_, List.pairwise_cons.2 ⟨?_, (List.pairwise_cons.1 h.disjoint).2⟩⟩
  · intro s mem
    rcases List.mem_cons.1 mem with rfl | mem
    · refine ⟨fun n b found => ?_, fun n n' b b' found found' same => ?_⟩
      · rcases cases_ found with ⟨_, register⟩ | ⟨_, _, r, register, below⟩
        · exact ⟨size, register, Nat.lt_succ_self size⟩
        · exact ⟨r, register, Nat.lt_succ_of_lt below⟩
      · rcases cases_ found with ⟨rfl, register⟩ | ⟨_, old, r, register, below⟩ <;>
          rcases cases_ found' with ⟨rfl, register'⟩ | ⟨_, old', r', register', below'⟩
        · rfl
        · rw [register, register', Option.some.injEq] at same
          omega
        · rw [register, register', Option.some.injEq] at same
          omega
        · exact h.head.apart n n' b b' old old' same
    · exact (h.mono (Nat.le_succ size)).each s (List.mem_cons_of_mem scope mem)
  · intro t mem n n' b b' found found' same
    rcases cases_ found with ⟨rfl, register⟩ | ⟨_, old, _⟩
    · obtain ⟨r', register', below'⟩ := (h.tail.each t mem).registers n' b' found'
      rw [register, register', Option.some.injEq] at same
      omega
    · exact (List.pairwise_cons.1 h.disjoint).1 t mem n n' b b' old found' same

end Allotted

namespace Holds

/-- Other registers do not matter. -/
theorem congr (h : Holds scopes regs env)
    (same : ∀ scope ∈ scopes, ∀ name b r, scope.get? name = some b → b.register = some r →
      regs' r = regs r) : Holds scopes regs' env := by
  refine h.imp fun scope mem name b v found held r register => ?_
  rw [same scope mem name b r found register]
  exact held r register

theorem of_below (h : Holds scopes regs env) (allotted : Allotted scopes size)
    (same : ∀ r < size, regs' r = regs r) : Holds scopes regs' env := by
  refine h.congr fun scope mem name b r found register => ?_
  obtain ⟨r', register', below⟩ := (allotted.each scope mem).registers name b found
  obtain rfl := Option.some.inj (register.symm.trans register')
  exact same r below

/-- Writing the register of a local of the innermost block, which may have been declared just
now. -/
theorem write {dest : Nat} {b : Binding} (allotted : Allotted (scope :: scopes) size)
    (others : ∀ n, n ≠ name → scope.MatchesAt (Binding.HeldIn regs) locals n)
    (outer : Holds scopes regs env) (found : scope.get? name = some b)
    (register : b.register = some dest) (value : Value) :
    Holds (scope :: scopes) (Function.update regs dest value)
      (((name, some value) :: locals) :: env) := by
  refine Matches.declare (fun n other => (others n other).imp ?_) (outer.congr ?_) found ?_
  · intro b' v found' held r register'
    rw [← held r register']
    refine Function.update_of_ne ?_ _ _
    rintro rfl
    exact other (allotted.head.apart n name b' b found' found (register'.trans register.symm))
  · intro s mem n b' r found' register'
    refine Function.update_of_ne ?_ _ _
    rintro rfl
    exact (List.pairwise_cons.1 allotted.disjoint).1 s mem name n b b' found found'
      (register.trans register'.symm)
  · rintro v ⟨⟩ r register'
    obtain rfl := Option.some.inj (register.symm.trans register')
    exact Function.update_self ..

/-- Writing the register that a name refers to assigns the local that it refers to. -/
theorem assign {dest : Nat} {b : Binding} (h : Holds scopes regs env)
    (allotted : Allotted scopes size) (found : scopes.findSome? (·.get? name) = some b)
    (register : b.register = some dest) (value : Value) :
    ∃ env', env.assign name value = some env' ∧
      Holds scopes (Function.update regs dest value) env' := by
  obtain ⟨inner, scope, outer, innerEnv, locals, outerEnv, rfl, here, within, at_, beyond,
    assigned⟩ := h.assign_split found value
  obtain ⟨_, rest, apart⟩ := List.pairwise_append.1 allotted.disjoint
  have allotted' : Allotted (scope :: outer) size :=
    ⟨fun s mem => allotted.each s (List.mem_append_right inner mem), rest⟩
  have within' : Holds inner (Function.update regs dest value) innerEnv := by
    refine Holds.congr within fun s mem n b' r found' register' => Function.update_of_ne ?_ _ _
    rintro rfl
    exact apart s mem scope List.mem_cons_self n name b' b found' here
      (register'.trans register.symm)
  exact ⟨_, assigned,
    within'.append (write allotted' (fun n _ => at_ n) beyond here register value)⟩

end Holds

/-- A name of the innermost scope is bound with a type and a register, and all other bindings are as
before. -/
structure Context.Binds (ctx : Context) (name : String) (ty : Ty) (dest : Nat) (ctx' : Context) :
    Prop where
  outer : ctx'.outer = ctx.outer
  others : ∀ n, n ≠ name → ctx'.current.get? n = ctx.current.get? n
  bound : ∃ b, ctx'.current.get? name = some b ∧ b.ty = ty ∧ b.register = some dest

namespace Context.Binds

variable {ctx ctx' : Context} {ty : Ty} {dest : Nat} {P : Binding → Value → Prop}

theorem of_declare {name : Ident} {binding : Binding}
    (h : ctx.declare name ty = .ok (binding, ctx')) (dest : Nat) :
    ctx.Binds name.name ty dest (ctx'.setRegister name.name dest) := by
  obtain ⟨found, typed, rfl⟩ | ⟨_, rfl, rfl⟩ := declare_cases h
  · refine ⟨rfl, fun n other => ?_, { binding with register := some dest }, ?_, typed, rfl⟩
    · simp only [setRegister, Scope.get?_setRegister, if_neg other]
    · simp only [setRegister, Scope.get?_setRegister, if_true, found]
      rfl
  · refine ⟨rfl, fun n other => ?_, ⟨ty, some dest, name.span⟩, ?_, rfl, rfl⟩
    · simp only [setRegister, Scope.get?_setRegister, Scope.get?_cons, if_neg other]
    · simp only [setRegister, Scope.get?_setRegister, Scope.get?_cons, if_true]
      rfl

theorem allotted (binds : ctx.Binds name ty size ctx') (h : Allotted ctx.scopes size) :
    Allotted ctx'.scopes (size + 1) := by
  obtain ⟨b, bound, _, register⟩ := binds.bound
  rw [scopes, binds.outer]
  exact Allotted.rebind h binds.others bound register

theorem others_match (binds : ctx.Binds name ty dest ctx') (h : ctx.current.Matches P locals) :
    ∀ n, n ≠ name → ctx'.current.MatchesAt P locals n := by
  intro n other
  refine ⟨?_, ?_⟩
  · rw [binds.others n other]
    exact (h n).bound
  · rw [binds.others n other]
    exact (h n).value

theorem declare (binds : ctx.Binds name ty dest ctx') (h : Matches P ctx.scopes env)
    {value : Option Value}
    (new : ∀ b v, b.ty = ty → b.register = some dest → value = some v → P b v) :
    Matches P ctx'.scopes (env.declare name value) := by
  obtain ⟨b, bound, typed, register⟩ := binds.bound
  rw [scopes, binds.outer]
  cases h with
  | cons first rest =>
      exact Matches.declare (binds.others_match first) rest bound fun v => new b v typed register

/-- Declaring a local with a value that is then written to its register. -/
theorem holds_some (binds : ctx.Binds name ty dest ctx') (allotted : Allotted ctx'.scopes size)
    (h : Holds ctx.scopes regs env) (value : Value) :
    Holds ctx'.scopes (Function.update regs dest value) (env.declare name (some value)) := by
  obtain ⟨b, bound, _, register⟩ := binds.bound
  rw [scopes, binds.outer] at allotted ⊢
  cases h with
  | cons first rest =>
      exact Holds.write allotted (binds.others_match first) rest bound register value

end Context.Binds

open Lir

namespace Stmt.Allots

variable {S S' : LowerState} {name : Ident} {ty : Ty} {dest : Nat}

theorem binds (h : Allots name ty S dest S') :
    S.context.Binds name.name ty dest S'.context := by
  obtain ⟨binding, ctx, declared, ⟨register, rfl⟩ | ⟨_, rfl, rfl⟩⟩ := h
  · obtain ⟨found, typed, rfl⟩ | ⟨_, rfl, _⟩ := Context.declare_cases declared
    · exact ⟨rfl, fun _ _ => rfl, binding, found, typed, register⟩
    · cases register
  · exact Context.Binds.of_declare declared S.emitter.registers.size

theorem allotted (h : Allots name ty S dest S')
    (allotted : Allotted S.context.scopes S.emitter.registers.size) :
    Allotted S'.context.scopes S'.emitter.registers.size := by
  obtain ⟨binding, ctx, declared, ⟨register, rfl⟩ | ⟨_, rfl, rfl⟩⟩ := h
  · obtain ⟨_, _, rfl⟩ | ⟨_, rfl, _⟩ := Context.declare_cases declared
    · exact allotted
    · cases register
  · simp only [Emitter.withRegister, Registers.size_push]
    exact (Context.Binds.of_declare declared S.emitter.registers.size).allotted allotted

end Stmt.Allots

namespace Function

variable {S S' : LowerState}

theorem bindParams_arguments {params : List Param} {u : Unit}
    (h : params.forM bindParam S = .ok u S') :
    S'.emitter.arguments =
      S.emitter.arguments ++ List.range' S.emitter.registers.size params.length := by
  induction params generalizing S with
  | nil =>
      obtain ⟨_, rfl⟩ := pure_eq_ok.1 h
      simp
  | cons param params ih =>
      obtain ⟨_, S₁, first, rest⟩ := bind_eq_ok.1 h
      obtain ⟨binding, ctx, _, declared, rfl⟩ := bindParam_eq_ok first
      rw [ih rest]
      simp [Emitter.withRegister, List.range'_succ]

theorem bindParams_allotted {params : List Param} {u : Unit}
    (h : params.forM bindParam S = .ok u S')
    (allotted : Allotted S.context.scopes S.emitter.registers.size) :
    Allotted S'.context.scopes S'.emitter.registers.size := by
  induction params generalizing S with
  | nil =>
      obtain ⟨_, rfl⟩ := pure_eq_ok.1 h
      exact allotted
  | cons param params ih =>
      obtain ⟨_, S₁, first, rest⟩ := bind_eq_ok.1 h
      obtain ⟨binding, ctx, _, declared, rfl⟩ := bindParam_eq_ok first
      have binds := Context.Binds.of_declare declared S.emitter.registers.size
      refine ih rest ?_
      simp only [Emitter.withRegister, Registers.size_push]
      exact binds.allotted allotted

/-- What relates the arguments to their types and registers relates them to the parameters. Of those
with the same name the last one counts. -/
theorem bindParams_matches {P : Binding → Value → Prop} {params : List Param} {args : List Value}
    {u : Unit} {locals : Locals} {env : Env} (h : params.forM bindParam S = .ok u S')
    (count : args.length = params.length)
    (new : ∀ i param v, params[i]? = some param → args[i]? = some v → ∀ b : Binding,
      b.ty = param.ty → b.register = some (S.emitter.registers.size + i) → P b v)
    (start : Matches P S.context.scopes (locals :: env)) :
    Matches P S'.context.scopes
      ((((params.map (·.name.name)).zip (args.map some)).reverse ++ locals) :: env) := by
  induction params generalizing S args locals with
  | nil =>
      obtain ⟨_, rfl⟩ := pure_eq_ok.1 h
      exact start
  | cons param params ih =>
      cases args with
      | nil => cases count
      | cons v args =>
          obtain ⟨_, S₁, first, rest⟩ := bind_eq_ok.1 h
          obtain ⟨binding, ctx, _, declared, rfl⟩ := bindParam_eq_ok first
          have binds := Context.Binds.of_declare declared S.emitter.registers.size
          have start' : Matches P (ctx.setRegister param.name.name S.emitter.registers.size).scopes
              (((param.name.name, some v) :: locals) :: env) := by
            refine binds.declare start fun b w typed register assigned => ?_
            obtain rfl := Option.some.inj assigned
            exact new 0 param v rfl rfl b typed register
          have later := ih rest (Nat.succ.inj count) (fun i p w there found b typed register =>
            new (i + 1) p w there found b typed ?_) start'
          · simpa using later
          · rw [register]
            simp only [Emitter.withRegister, Registers.size_push, Nat.add_assoc, Nat.add_comm 1]

/-- The locals that the body starts with. -/
theorem matches_enter {P : Binding → Value → Prop} {f : Function} {signatures : SignatureTable}
    {args : List Value} {id : Nat} {u : Unit}
    (h : f.header.params.forM bindParam (f.entered signatures id) = .ok u S)
    (count : args.length = f.header.params.length)
    (new : ∀ i param v, f.header.params[i]? = some param → args[i]? = some v → ∀ b : Binding,
      b.ty = param.ty → b.register = some i → P b v) :
    Matches P S.context.scopes (f.enter args).env := by
  have bound : Matches P _ _ := bindParams_matches h count
    (fun i param v there found b typed register =>
      new i param v there found b typed (by rw [register]; exact congrArg some (Nat.zero_add i)))
    (.push .nil)
  rw [List.append_nil] at bound
  exact bound

end Function

end Rill
