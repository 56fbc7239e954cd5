import Rill.Proofs.Computation
import Rill.Proofs.Run

/-!
# The meaning of trees

Locals live in the block that declares them and can be assigned any number of
times; an inner declaration hides an outer one of the same name until its block
ends. Operands are evaluated from left to right, and the right side of a logical
operator only if the left side does not decide. Operators compute what folding
computes from literals.

Expressions always come to an end, so only loops need a bound: a statement is run
with a number of rounds that each of its loops may make, and one that needs more is
exhausted. With one more round a run goes at least as far as before, which makes a
`Run` of the outcomes for all numbers of rounds.
-/

namespace Rill

/-- The locals of a block, newest entry first. A local without a value has been declared and not
assigned since. -/
abbrev Locals := List (String × Option Value)

/-- The locals of all open blocks, from the inside. -/
abbrev Env := List Locals

namespace Env

def lookup (env : Env) (name : String) : Option (Option Value) :=
  env.findSome? (List.lookup name)

def declare (name : String) (value : Option Value) : Env → Env
  | [] => [[(name, value)]]
  | locals :: rest => ((name, value) :: locals) :: rest

/-- Gives a value to the local that a name refers to. -/
def assign (name : String) (value : Value) : Env → Option Env
  | [] => none
  | locals :: rest =>
    match locals.lookup name with
    | some _ => some (((name, some value) :: locals) :: rest)
    | none => (assign name value rest).map (locals :: ·)

end Env

/-- Computations on the calls made so far. -/
abbrev EvalM := EStateM Ending (List Call)

namespace EvalM

variable {α : Type}

def ofExcept : Except Ending α → EvalM α
  | .ok a => pure a
  | .error e => throw e

/-- The truth of a condition. -/
def truth : Value → EvalM Bool
  | .bool b => pure b
  | _ => throw .stuck

/-- Calls a function by its name. One that is declared to return nothing has the unit for its
value, whatever the answer. -/
def call (signatures : SignatureTable) (oracle : Oracle) (target : Ident) (args : List Value) :
    EvalM Value :=
  match signatures.handle? target.name, signatures.lookup target with
  | some id, .ok signature => do
    let calls ← get
    set (calls ++ [⟨id, args⟩])
    return if signature.returnType.isUnit then .unit else oracle id args calls
  | _, _ => throw .stuck

end EvalM

/-- Whether the left side alone gives the result. -/
def LogicOp.decides : LogicOp → Bool → Bool
  | .and, left => !left
  | .or, left => left

namespace Expr

variable (signatures : SignatureTable) (oracle : Oracle)

mutual

def eval (env : Env) : Expr → EvalM Value
  | .literal _ value => pure value.immediate
  | .var _ name =>
    match env.lookup name.name with
    | some (some value) => pure value
    | some none => throw (.unassigned name)
    | none => throw .stuck
  | .call _ target args => do
    let values ← evalAll env args
    EvalM.call signatures oracle target values
  | .unary _ op operand => do
    let a ← operand.eval env
    EvalM.ofExcept (op.onValue a)
  | .binary _ op lhs rhs => do
    let a ← lhs.eval env
    let b ← rhs.eval env
    EvalM.ofExcept (op.onValues a b)
  | .logic _ op lhs rhs => do
    let left ← EvalM.truth (← lhs.eval env)
    if op.decides left then return .bool left else rhs.eval env

def evalAll (env : Env) : List Expr → EvalM (List Value)
  | [] => pure []
  | e :: es => do
    let value ← e.eval env
    let values ← evalAll env es
    return value :: values

end

/-- The truth of an expression that is used as a condition. -/
def test (condition : Expr) (env : Env) : EvalM Bool := do
  EvalM.truth (← condition.eval signatures oracle env)

def evalOpt (env : Env) : Option Expr → EvalM (Option Value)
  | none => pure none
  | some e => return some (← e.eval signatures oracle env)

end Expr

/-- Why a statement does not go on to the next one. -/
inductive Halt where
  | ended (ending : Ending)
  | returned (value : Value)
  /-- A loop has made all the rounds that it was given. -/
  | exhausted
  deriving DecidableEq

structure Frame where
  env : Env
  calls : List Call
  deriving DecidableEq

abbrev ExecM := EStateM Halt Frame

namespace ExecM

variable {α : Type}

def ofEval (x : Env → EvalM α) : ExecM α := fun s =>
  match x s.env s.calls with
  | .ok a calls => .ok a { s with calls }
  | .error e calls => .error (.ended e) { s with calls }

def declare (name : String) (value : Option Value) : ExecM Unit :=
  modify fun s => { s with env := s.env.declare name value }

def assign (name : String) (value : Value) : ExecM Unit := fun s =>
  match s.env.assign name value with
  | some env => .ok () { s with env }
  | none => .error (.ended .stuck) s

/-- Runs in a block of its own and leaves it, however the run ends. -/
def inScope (x : ExecM α) : ExecM α := fun s =>
  match x { s with env := [] :: s.env } with
  | .ok a s => .ok a { s with env := s.env.tail }
  | .error h s => .error h { s with env := s.env.tail }

/-- Runs the body as long as the test holds, at most so many times. -/
def loop (test : ExecM Bool) (body : ExecM Unit) : Nat → ExecM Unit
  | 0 => do
    if ← test then throw .exhausted
  | rounds + 1 => do
    if ← test then
      body
      loop test body rounds

end ExecM

namespace Stmt

variable (signatures : SignatureTable) (oracle : Oracle) (rounds : Nat)

mutual

def exec : Stmt → ExecM Unit
  | .ite _ condition positive negative => do
    if ← ExecM.ofEval (condition.test signatures oracle) then
      execOpt positive
    else
      execOpt negative
  | .block _ body => ExecM.inScope (execAll body)
  | .decl _ name _ value => do
    let value ← ExecM.ofEval (Expr.evalOpt signatures oracle · value)
    ExecM.declare name.name value
  | .assign _ target value => do
    let value ← ExecM.ofEval (value.eval signatures oracle)
    ExecM.assign target.name value
  | .ret _ value => do
    let value ← ExecM.ofEval (Expr.evalOpt signatures oracle · value)
    throw (.returned (value.getD .unit))
  | .loop _ condition body =>
    ExecM.loop (ExecM.ofEval (condition.test signatures oracle)) body.exec rounds
  | .eval _ value => do
    let _ ← ExecM.ofEval (value.eval signatures oracle)
  | .skip _ => pure ()

def execOpt : Option Stmt → ExecM Unit
  | none => pure ()
  | some s => s.exec

def execAll : List Stmt → ExecM Unit
  | [] => pure ()
  | s :: rest => do
    s.exec
    execAll rest

end

end Stmt

namespace EvalM

variable {α β : Type}

/-- No call is forgotten. -/
def Keeps (x : EvalM α) : Prop :=
  ∀ calls, calls <+: stateAfter (x calls)

theorem Keeps.pure (a : α) : Keeps (Pure.pure a) :=
  fun _ => List.prefix_rfl

theorem Keeps.throw (e : Ending) : Keeps (MonadExcept.throw e : EvalM α) :=
  fun _ => List.prefix_rfl

/-- The calls of the first step are still there after the second. -/
theorem Keeps.bind {x : EvalM α} {f : α → EvalM β} (first : x.Keeps) (next : ∀ a, (f a).Keeps) :
    (x >>= f).Keeps := by
  intro calls
  have kept := first calls
  rw [bind_apply]
  cases outcome : x calls with
  | ok a after =>
      rw [outcome] at kept
      exact kept.trans (next a after)
  | error e after =>
      rw [outcome] at kept
      exact kept

theorem keeps_ofExcept (r : Except Ending α) : (ofExcept r).Keeps := by
  cases r with
  | ok a => exact .pure a
  | error e => exact .throw e

theorem keeps_truth (value : Value) : (truth value).Keeps := by
  cases value <;> first | exact .pure _ | exact .throw _

/-- A call is noted behind those before it, and none is noted if it cannot be made. -/
theorem keeps_call (signatures : SignatureTable) (oracle : Oracle) (target : Ident)
    (args : List Value) : (call signatures oracle target args).Keeps := by
  unfold call
  split
  · exact fun calls => List.prefix_append calls _
  · exact .throw _

end EvalM

namespace Expr

variable (signatures : SignatureTable) (oracle : Oracle)

mutual

/-- Evaluation keeps the calls, also where it goes wrong. -/
theorem keeps_eval (env : Env) : (e : Expr) → (e.eval signatures oracle env).Keeps
  | .literal _ value => by
    rw [eval]
    exact .pure _
  | .var _ name => by
    rw [eval]
    split
    · exact .pure _
    · exact .throw _
    · exact .throw _
  | .call _ target args => by
    rw [eval]
    exact (keeps_evalAll env args).bind (EvalM.keeps_call signatures oracle target)
  | .unary _ op operand => by
    rw [eval]
    exact (keeps_eval env operand).bind fun _ => EvalM.keeps_ofExcept _
  | .binary _ op lhs rhs => by
    rw [eval]
    refine (keeps_eval env lhs).bind fun a => ?_
    exact (keeps_eval env rhs).bind fun _ => EvalM.keeps_ofExcept _
  | .logic _ op lhs rhs => by
    rw [eval]
    refine (keeps_eval env lhs).bind fun a => (EvalM.keeps_truth a).bind fun left => ?_
    split
    · exact .pure _
    · exact keeps_eval env rhs

theorem keeps_evalAll (env : Env) : (es : List Expr) → (evalAll signatures oracle env es).Keeps
  | [] => by
    rw [evalAll]
    exact .pure _
  | e :: es => by
    rw [evalAll]
    refine (keeps_eval env e).bind fun value => ?_
    exact (keeps_evalAll env es).bind fun _ => .pure _

end

theorem keeps_test (condition : Expr) (env : Env) :
    (condition.test signatures oracle env).Keeps :=
  (keeps_eval signatures oracle env condition).bind fun _ => EvalM.keeps_truth _

theorem keeps_evalOpt (env : Env) (e : Option Expr) :
    (evalOpt signatures oracle env e).Keeps := by
  cases e with
  | none => exact .pure _
  | some e => exact (keeps_eval signatures oracle env e).bind fun _ => .pure _

end Expr

namespace ExecM

variable {α β : Type} {x y : ExecM α}

/-- No call is forgotten, and the second computation does what the first one does unless that one
is exhausted; it then has made the same calls, and perhaps more. -/
def Within (x y : ExecM α) : Prop :=
  ∀ s, s.calls <+: (stateAfter (x s)).calls ∧
    (y s = x s ∨ ∃ t, x s = .error .exhausted t ∧ t.calls <+: (stateAfter (y s)).calls)

/-- The second computation forgets no call either. -/
theorem Within.keeps (h : x.Within y) (s : Frame) : s.calls <+: (stateAfter (y s)).calls := by
  obtain ⟨kept, same | ⟨t, exhausted, further⟩⟩ := h s
  · rwa [same]
  · rw [exhausted] at kept
    exact kept.trans further

theorem Within.of_kept (kept : ∀ s, s.calls <+: (stateAfter (x s)).calls) : x.Within x :=
  fun s => ⟨kept s, .inl rfl⟩

theorem Within.pure (a : α) : Within (Pure.pure a) (Pure.pure a) :=
  .of_kept fun _ => List.prefix_rfl

/-- If the first step is exhausted, the next one is not reached in the shorter run, and can only add
calls in the longer one. -/
theorem Within.bind {f g : α → ExecM β} (first : x.Within y) (next : ∀ a, (f a).Within (g a)) :
    (x >>= f).Within (y >>= g) := by
  intro s
  obtain ⟨kept, agreement⟩ := first s
  simp only [bind_apply]
  cases outcome : x s with
  | ok a t =>
      rw [outcome] at kept agreement
      have same : y s = .ok a t := by simpa using agreement
      rw [same]
      obtain ⟨kept', agreement'⟩ := next a t
      exact ⟨kept.trans kept', agreement'⟩
  | error h t =>
      rw [outcome] at kept agreement
      refine ⟨kept, ?_⟩
      rcases agreement with same | ⟨u, exhausted, further⟩
      · exact .inl (by rw [same])
      · -- Whatever the second computation goes on to do, it keeps the calls made by then.
        obtain ⟨rfl, rfl⟩ : h = .exhausted ∧ t = u := by simpa using exhausted
        refine .inr ⟨t, rfl, ?_⟩
        cases outcome' : y s with
        | ok a v =>
            rw [outcome'] at further
            exact further.trans ((next a).keeps v)
        | error h v =>
            rw [outcome'] at further
            exact further

theorem within_ofEval {x : Env → EvalM α} (kept : ∀ env, (x env).Keeps) :
    (ofEval x).Within (ofEval x) := by
  refine .of_kept fun s => ?_
  have := kept s.env s.calls
  unfold ofEval
  cases outcome : x s.env s.calls <;> simpa only [outcome, stateAfter] using this

theorem within_throw (h : Halt) : Within (throw h : ExecM α) (throw h) :=
  .of_kept fun _ => List.prefix_rfl

theorem within_declare (name : String) (value : Option Value) :
    (declare name value).Within (declare name value) :=
  .of_kept fun _ => List.prefix_rfl

theorem within_assign (name : String) (value : Value) :
    (assign name value).Within (assign name value) := by
  refine .of_kept fun s => ?_
  unfold assign
  split <;> exact List.prefix_rfl

/-- The block is left in both runs. -/
theorem Within.inScope (h : x.Within y) : (inScope x).Within (inScope y) := by
  intro s
  obtain ⟨kept, agreement⟩ := h { s with env := [] :: s.env }
  unfold ExecM.inScope
  refine ⟨?_, ?_⟩
  · cases outcome : x { s with env := [] :: s.env } <;> simpa only [outcome, stateAfter] using kept
  · rcases agreement with same | ⟨t, exhausted, further⟩
    · exact .inl (by rw [same])
    · refine .inr ⟨{ t with env := t.env.tail }, by rw [exhausted], ?_⟩
      cases outcome : y { s with env := [] :: s.env } <;>
        simpa only [outcome, stateAfter] using further

/-- One more round, with a body that may itself go further. -/
theorem Within.loop {test : ExecM Bool} {body body' : ExecM Unit} (tested : test.Within test)
    (run : body.Within body') (rounds : Nat) :
    (loop test body rounds).Within (loop test body' (rounds + 1)) := by
  induction rounds with
  | zero =>
      have last : (ExecM.loop test body' 0).Within (ExecM.loop test body' 0) := by
        unfold ExecM.loop
        refine tested.bind fun again => ?_
        cases again with
        | false => exact .pure ()
        | true => exact within_throw _
      rw [ExecM.loop, ExecM.loop]
      refine tested.bind fun again => ?_
      cases again with
      | false => exact .pure ()
      | true =>
          intro s
          exact ⟨List.prefix_rfl, .inr ⟨s, rfl, (run.bind fun _ => last).keeps s⟩⟩
  | succ rounds ih =>
      unfold ExecM.loop
      refine tested.bind fun again => ?_
      cases again with
      | false => exact .pure ()
      | true => exact run.bind fun _ => ih

end ExecM

namespace Stmt

variable (signatures : SignatureTable) (oracle : Oracle) (rounds : Nat)

mutual

/-- A run with one more round for each loop goes at least as far. -/
theorem exec_within : (s : Stmt) →
    (s.exec signatures oracle rounds).Within (s.exec signatures oracle (rounds + 1))
  | .ite _ condition positive negative => by
    rw [exec]
    refine (ExecM.within_ofEval (Expr.keeps_test signatures oracle condition)).bind fun holds => ?_
    cases holds with
    | true => exact execOpt_within positive
    | false => exact execOpt_within negative
  | .block _ body => by
    rw [exec]
    exact (execAll_within body).inScope
  | .decl _ name _ value => by
    rw [exec]
    refine (ExecM.within_ofEval fun env => Expr.keeps_evalOpt signatures oracle env value).bind
      fun initial => ?_
    exact ExecM.within_declare name.name initial
  | .assign _ target value => by
    rw [exec]
    refine (ExecM.within_ofEval fun env => Expr.keeps_eval signatures oracle env value).bind
      fun v => ?_
    exact ExecM.within_assign target.name v
  | .ret _ value => by
    rw [exec]
    refine (ExecM.within_ofEval fun env => Expr.keeps_evalOpt signatures oracle env value).bind
      fun v => ?_
    exact ExecM.within_throw _
  | .loop _ condition body => by
    rw [exec]
    exact (ExecM.within_ofEval (Expr.keeps_test signatures oracle condition)).loop
      (exec_within body) rounds
  | .eval _ value => by
    rw [exec]
    refine (ExecM.within_ofEval fun env => Expr.keeps_eval signatures oracle env value).bind
      fun _ => ?_
    exact .pure ()
  | .skip _ => by
    rw [exec]
    exact .pure ()

theorem execOpt_within : (s : Option Stmt) →
    (execOpt signatures oracle rounds s).Within (execOpt signatures oracle (rounds + 1) s)
  | none => by
    rw [execOpt]
    exact .pure ()
  | some s => by
    rw [execOpt]
    exact exec_within s

theorem execAll_within : (ss : List Stmt) →
    (execAll signatures oracle rounds ss).Within (execAll signatures oracle (rounds + 1) ss)
  | [] => by
    rw [execAll]
    exact .pure ()
  | s :: rest => by
    rw [execAll]
    exact (exec_within s).bind fun _ => execAll_within rest

end

end Stmt

namespace Function

/-- The parameters with their arguments. Of parameters of the same name the last one counts. -/
def enter (f : Function) (args : List Value) : Frame :=
  { env := [((f.header.params.map (·.name.name)).zip (args.map some)).reverse]
    calls := [] }

/-- What is seen of a body that has been run so far. At its end nothing is returned, and so it is
for the unit. -/
def moment (f : Function) : EStateM.Result Halt Frame Unit → Moment
  | .ok _ s => ⟨s.calls, some (.returned none)⟩
  | .error (.ended e) s => ⟨s.calls, some e⟩
  | .error (.returned value) s =>
    ⟨s.calls, some (.returned (if f.header.returnType.isUnit then none else some value))⟩
  | .error .exhausted s => ⟨s.calls, none⟩

@[simp] theorem calls_moment (f : Function) (r : EStateM.Result Halt Frame Unit) :
    (f.moment r).calls = (stateAfter r).calls := by
  unfold moment
  split <;> rfl

/-- The run of a function, seen after so many rounds of its loops. -/
def run (signatures : SignatureTable) (oracle : Oracle) (f : Function) (args : List Value) :
    Run where
  seen rounds := f.moment (f.body.exec signatures oracle rounds (f.enter args))
  grows := by
    intro rounds
    obtain ⟨_, same | ⟨t, exhausted, further⟩⟩ :=
      f.body.exec_within signatures oracle rounds (f.enter args)
    · rw [same]
      exact .refl _
    · refine ⟨?_, ?_⟩
      · rw [exhausted]
        intro ended
        cases ended
      · simpa only [calls_moment, exhausted, stateAfter] using further

end Function

end Rill
