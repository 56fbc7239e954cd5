import Rill.Proofs.Lir.Emitter
import Rill.Proofs.Lir.Machine
import Rill.Proofs.Tree.Meaning

/-!
# Following a tree

A lowered function follows the evaluation of a tree if, from a given state, it comes to
a state with the same calls where the evaluation has a result, and ends alike where the
evaluation ends. `Follows` says this of expressions and `Simulates` of statements; both
are put together along `bind`, as the evaluation is. Nothing is asked where a local is
read that has not been assigned.

A statement that has run out of rounds is met by as many steps, at least. That keeps
the function from standing still while a loop goes round.

What has been emitted so far is at its place in the finished function (`Placed`), so
control that stands where the emitter did (`At`) runs what is emitted next.
-/

namespace Rill.Lir

namespace Blocks

variable {blocks : Blocks} {oracle : Oracle} {α β : Type}

def Goes (blocks : Blocks) (oracle : Oracle) (s t : State) : Prop :=
  ∃ n, blocks.runFor oracle n s = .ok t

def Stops (blocks : Blocks) (oracle : Oracle) (s : State) (calls : List Call) (e : Ending) : Prop :=
  ∃ n, blocks.runFor oracle n s = .error ⟨calls, some e⟩

/-- The run goes on for so many steps and has then made these calls. -/
def Lasts (blocks : Blocks) (oracle : Oracle) (steps : Nat) (s : State) (calls : List Call) :
    Prop :=
  ∃ n t, steps ≤ n ∧ blocks.runFor oracle n s = .ok t ∧ t.calls = calls

theorem Goes.refl (s : State) : blocks.Goes oracle s s := ⟨0, rfl⟩

theorem Goes.of_step {s t : State} (h : blocks.step oracle s = .ok t) : blocks.Goes oracle s t :=
  ⟨1, runFor_succ_of_ok h 0⟩

theorem Stops.of_step {s : State} {e : Ending} (h : blocks.step oracle s = .error e) :
    blocks.Stops oracle s s.calls e :=
  ⟨1, runFor_succ_of_error h 0⟩

theorem Goes.trans {s t u : State} (first : blocks.Goes oracle s t)
    (second : blocks.Goes oracle t u) : blocks.Goes oracle s u := by
  obtain ⟨m, first⟩ := first
  obtain ⟨n, second⟩ := second
  exact ⟨m + n, by rw [runFor_add, first]; exact second⟩

theorem Goes.stops {s t : State} {calls : List Call} {e : Ending} (first : blocks.Goes oracle s t)
    (second : blocks.Stops oracle t calls e) : blocks.Stops oracle s calls e := by
  obtain ⟨m, first⟩ := first
  obtain ⟨n, second⟩ := second
  exact ⟨m + n, by rw [runFor_add, first]; exact second⟩

theorem Goes.lasts {s t : State} {steps : Nat} {calls : List Call}
    (first : blocks.Goes oracle s t) (second : blocks.Lasts oracle steps t calls) :
    blocks.Lasts oracle steps s calls := by
  obtain ⟨m, first⟩ := first
  obtain ⟨n, u, enough, second, made⟩ := second
  exact ⟨m + n, u, by omega, by rw [runFor_add, first]; exact second, made⟩

theorem Lasts.succ {s t : State} {steps : Nat} {calls : List Call}
    (first : blocks.step oracle s = .ok t) (second : blocks.Lasts oracle steps t calls) :
    blocks.Lasts oracle (steps + 1) s calls := by
  obtain ⟨n, u, enough, second, made⟩ := second
  exact ⟨n + 1, u, by omega, by rw [runFor_succ_of_ok first]; exact second, made⟩

theorem Lasts.mono {s : State} {steps fewer : Nat} {calls : List Call}
    (h : blocks.Lasts oracle steps s calls) (le : fewer ≤ steps) :
    blocks.Lasts oracle fewer s calls := by
  obtain ⟨n, t, enough, run, made⟩ := h
  exact ⟨n, t, Nat.le_trans le enough, run, made⟩

/-- The run from `s` follows an evaluation with this result. -/
def Follows (blocks : Blocks) (oracle : Oracle) (s : State) (after : α → State → Prop) :
    EStateM.Result Ending (List Call) α → Prop
  | .ok a calls => ∃ t, blocks.Goes oracle s t ∧ t.calls = calls ∧ after a t
  | .error (.unassigned _) _ => True
  | .error e calls => blocks.Stops oracle s calls e

namespace Follows

variable {s t : State} {after : α → State → Prop} {r : EStateM.Result Ending (List Call) α}

/-- Results and endings can be carried to another state one by one. -/
theorem imp {s' : State} {after' : α → State → Prop} (h : blocks.Follows oracle s after r)
    (goes : ∀ a t, blocks.Goes oracle s t → after a t →
      ∃ u, blocks.Goes oracle s' u ∧ u.calls = t.calls ∧ after' a u)
    (stops : ∀ calls e, blocks.Stops oracle s calls e → blocks.Stops oracle s' calls e) :
    blocks.Follows oracle s' after' r := by
  cases r with
  | ok a calls =>
      obtain ⟨t, reached, rfl, holds⟩ := h
      exact goes a t reached holds
  | error e calls =>
      cases e with
      | unassigned name => exact trivial
      | _ => exact stops _ _ h

theorem goes (first : blocks.Goes oracle s t) (second : blocks.Follows oracle t after r) :
    blocks.Follows oracle s after r :=
  second.imp (fun _ u further holds => ⟨u, first.trans further, rfl, holds⟩)
    fun _ _ => first.stops

/-- Some further steps at the end, which make no calls. -/
theorem onwards {middle : α → State → Prop} (first : blocks.Follows oracle s middle r)
    (next : ∀ a t, middle a t → ∃ u, blocks.Goes oracle t u ∧ u.calls = t.calls ∧ after a u) :
    blocks.Follows oracle s after r := by
  refine first.imp (fun a t reached holds => ?_) fun _ _ stops => stops
  obtain ⟨u, further, made, holds'⟩ := next a t holds
  exact ⟨u, reached.trans further, made, holds'⟩

theorem pure {a : α} (h : after a s) :
    blocks.Follows oracle s after ((Pure.pure a : EvalM α) s.calls) :=
  ⟨s, .refl s, rfl, h⟩

theorem bind {middle : α → State → Prop} {after : β → State → Prop} {x : EvalM α}
    {f : α → EvalM β} (first : blocks.Follows oracle s middle (x s.calls))
    (next : ∀ a t, middle a t → blocks.Follows oracle t after (f a t.calls)) :
    blocks.Follows oracle s after ((x >>= f) s.calls) := by
  rw [bind_apply]
  cases outcome : x s.calls with
  | ok a calls =>
      rw [outcome] at first
      obtain ⟨t, reached, rfl, holds⟩ := first
      exact (next a t holds).goes reached
  | error e calls =>
      rw [outcome] at first
      cases e <;> exact first

/-- One more instruction, whose result or trap is that of the evaluation. -/
theorem ofExcept {x : Except Ending α} {after : α → State → Prop} {next : α → State}
    (step : blocks.step oracle s = x.map next) (calls : ∀ a, (next a).calls = s.calls)
    (holds : ∀ a, x = .ok a → after a (next a)) :
    blocks.Follows oracle s after ((EvalM.ofExcept x) s.calls) := by
  cases x with
  | ok a => exact ⟨next a, .of_step step, calls a, holds a rfl⟩
  | error e =>
      cases e with
      | unassigned name => exact trivial
      | _ => exact .of_step step

end Follows

/-- The run from `s` follows an execution with this result. -/
def Simulates (blocks : Blocks) (oracle : Oracle) (rounds : Nat) (unit : Bool) (s : State)
    (after : α → Env → State → Prop) : EStateM.Result Halt Frame α → Prop
  | .ok a frame => ∃ t, blocks.Goes oracle s t ∧ t.calls = frame.calls ∧ after a frame.env t
  | .error (.ended (.unassigned _)) _ => True
  | .error (.ended e) frame => blocks.Stops oracle s frame.calls e
  | .error (.returned v) frame =>
    blocks.Stops oracle s frame.calls (.returned (if unit then none else some v))
  | .error .exhausted frame => blocks.Lasts oracle rounds s frame.calls

namespace Simulates

variable {rounds : Nat} {unit : Bool} {s t : State} {after : α → Env → State → Prop}
  {r : EStateM.Result Halt Frame α}

/-- Results and endings can be carried to another state one by one. -/
theorem imp {rounds' : Nat} {s' : State} {after' : α → Env → State → Prop}
    (h : blocks.Simulates oracle rounds unit s after r)
    (goes : ∀ a frame t, r = .ok a frame → blocks.Goes oracle s t → after a frame.env t →
      ∃ u, blocks.Goes oracle s' u ∧ u.calls = t.calls ∧ after' a frame.env u)
    (stops : ∀ calls e, blocks.Stops oracle s calls e → blocks.Stops oracle s' calls e)
    (lasts : ∀ calls, blocks.Lasts oracle rounds s calls → blocks.Lasts oracle rounds' s' calls) :
    blocks.Simulates oracle rounds' unit s' after' r := by
  cases r with
  | ok a frame =>
      obtain ⟨t, reached, made, holds⟩ := h
      obtain ⟨u, reached', made', holds'⟩ := goes a frame t rfl reached holds
      exact ⟨u, reached', made'.trans made, holds'⟩
  | error halt frame =>
      cases halt with
      | ended e =>
          cases e with
          | unassigned name => exact trivial
          | _ => exact stops _ _ h
      | returned v => exact stops _ _ h
      | exhausted => exact lasts _ h

theorem goes (first : blocks.Goes oracle s t)
    (second : blocks.Simulates oracle rounds unit t after r) :
    blocks.Simulates oracle rounds unit s after r :=
  second.imp (fun _ _ u _ further holds => ⟨u, first.trans further, rfl, holds⟩)
    (fun _ _ => first.stops) fun _ => first.lasts

/-- Some further steps at the end, which make no calls. -/
theorem onwards {middle : α → Env → State → Prop}
    (first : blocks.Simulates oracle rounds unit s middle r)
    (next : ∀ a env t, middle a env t →
      ∃ u, blocks.Goes oracle t u ∧ u.calls = t.calls ∧ after a env u) :
    blocks.Simulates oracle rounds unit s after r := by
  refine first.imp (fun a frame t _ reached holds => ?_) (fun _ _ stops => stops) fun _ lasts =>
    lasts
  obtain ⟨u, further, made, holds'⟩ := next a frame.env t holds
  exact ⟨u, reached.trans further, made, holds'⟩

/-- A computation that never has a result may promise anything about it. -/
theorem of_never {middle : α → Env → State → Prop}
    (h : blocks.Simulates oracle rounds unit s middle r) (never : ∀ a frame, r ≠ .ok a frame) :
    blocks.Simulates oracle rounds unit s after r :=
  h.imp (fun a frame _ result => absurd result (never a frame)) (fun _ _ stops => stops)
    fun _ lasts => lasts

/-- One step counts for one more round. -/
theorem step (first : blocks.step oracle s = .ok t)
    (second : blocks.Simulates oracle rounds unit t after r) :
    blocks.Simulates oracle (rounds + 1) unit s after r :=
  second.imp (fun _ _ u _ further holds => ⟨u, (Goes.of_step first).trans further, rfl, holds⟩)
    (fun _ _ => (Goes.of_step first).stops) fun _ => .succ first

theorem mono {fewer : Nat} (h : blocks.Simulates oracle rounds unit s after r)
    (le : fewer ≤ rounds) : blocks.Simulates oracle fewer unit s after r :=
  h.imp (fun _ _ t _ reached holds => ⟨t, reached, rfl, holds⟩) (fun _ _ stops => stops)
    fun _ lasts => lasts.mono le

theorem pure {a : α} {env : Env} (h : after a env s) :
    blocks.Simulates oracle rounds unit s after ((Pure.pure a : ExecM α) ⟨env, s.calls⟩) :=
  ⟨s, .refl s, rfl, h⟩

theorem bind {middle : α → Env → State → Prop} {after : β → Env → State → Prop} {x : ExecM α}
    {f : α → ExecM β} {env : Env}
    (first : blocks.Simulates oracle rounds unit s middle (x ⟨env, s.calls⟩))
    (next : ∀ a env t, middle a env t →
      blocks.Simulates oracle rounds unit t after (f a ⟨env, t.calls⟩)) :
    blocks.Simulates oracle rounds unit s after ((x >>= f) ⟨env, s.calls⟩) := by
  rw [bind_apply]
  cases outcome : x ⟨env, s.calls⟩ with
  | ok a frame =>
      rw [outcome] at first
      obtain ⟨env', calls⟩ := frame
      obtain ⟨t, reached, rfl, holds⟩ := first
      exact (next a env' t holds).goes reached
  | error halt frame =>
      rw [outcome] at first
      cases halt with
      | ended e => cases e <;> exact first
      | returned v => exact first
      | exhausted => exact first

/-- An expression leaves the locals alone. -/
theorem ofEval {x : Env → EvalM α} {env : Env} {after : α → State → Prop}
    (h : blocks.Follows oracle s after (x env s.calls)) :
    blocks.Simulates oracle rounds unit s (fun a env' t => env' = env ∧ after a t)
      (ExecM.ofEval x ⟨env, s.calls⟩) := by
  rw [ExecM.ofEval]
  cases outcome : x env s.calls with
  | ok a calls =>
      rw [outcome] at h
      obtain ⟨t, reached, made, holds⟩ := h
      exact ⟨t, reached, made, rfl, holds⟩
  | error e calls =>
      rw [outcome] at h
      cases e <;> exact h

theorem inScope {x : ExecM α} {env : Env} {after : α → Env → State → Prop}
    (h : blocks.Simulates oracle rounds unit s (fun a env t => after a env.tail t)
      (x ⟨[] :: env, s.calls⟩)) :
    blocks.Simulates oracle rounds unit s after (ExecM.inScope x ⟨env, s.calls⟩) := by
  rw [ExecM.inScope]
  cases outcome : x ⟨[] :: env, s.calls⟩ with
  | ok a frame =>
      rw [outcome] at h
      exact h
  | error halt frame =>
      rw [outcome] at h
      cases halt with
      | ended e => cases e <;> exact h
      | returned v => exact h
      | exhausted => exact h

/-- A loop whose head is block `head`. Control jumps there at first and at the end of every round,
so that each round takes a step at least. -/
theorem loop {test : ExecM Bool} {body : ExecM Unit} {head : Nat} {inv after : Env → State → Prop}
    {enter : Env → State → Prop}
    (tested : ∀ env s, inv env s → blocks.Simulates oracle rounds unit (s.goto head)
      (fun b env t => if b then enter env t else after env t) (test ⟨env, s.calls⟩))
    (run : ∀ env s, enter env s → blocks.Simulates oracle rounds unit s
      (fun _ env t => blocks.step oracle t = .ok (t.goto head) ∧ inv env t) (body ⟨env, s.calls⟩))
    {k : Nat} (le : k ≤ rounds) {env : Env} {s : State}
    (jumps : blocks.step oracle s = .ok (s.goto head)) (start : inv env s) :
    blocks.Simulates oracle k unit s (fun _ => after) (ExecM.loop test body k ⟨env, s.calls⟩) := by
  induction k generalizing env s with
  | zero =>
      rw [ExecM.loop]
      refine .goes (.of_step jumps) (.bind ((tested env s start).mono le) fun b env t holds => ?_)
      cases b with
      | false => exact .pure holds
      | true => exact ⟨0, t, Nat.le_refl 0, rfl, rfl⟩
  | succ k ih =>
      rw [ExecM.loop]
      have fewer : k ≤ rounds := Nat.le_of_succ_le le
      refine .step jumps (.bind ((tested env s start).mono fewer) fun b env t holds => ?_)
      cases b with
      | false => exact .pure holds
      | true =>
          refine .bind ((run env t holds).mono fewer) ?_
          rintro _ env u ⟨back, again⟩
          exact ih fewer back again

end Simulates

end Blocks

/-- Control stands where the emitter does. -/
structure State.At (s : State) (e : Emitter) : Prop where
  block : s.block = e.cursor
  done : s.done = (e.code e.cursor).length

namespace Emitter

variable {e e' : Emitter} {i : Instruction} {blocks : Blocks} {oracle : Oracle} {s t : State}

/-- All that has been emitted stands in these blocks, at the same place. -/
def Placed (e : Emitter) (blocks : Blocks) : Prop :=
  ∀ k b, e.blocks.get? k = some b → ∃ b', blocks.find? k = some b' ∧
    b.instructions <+: b'.instructions

theorem Placed.of_later (placed : e'.Placed blocks) (later : e.Later e') : e.Placed blocks := by
  intro k b found
  obtain ⟨b', found', continued, _⟩ := later.blocks k b found
  obtain ⟨b'', found'', continued'⟩ := placed k b' found'
  exact ⟨b'', found'', continued.trans continued'⟩

theorem at_goto {k : Nat} (s : State) (empty : e.code k = []) : (s.goto k).At (e.moveTo k) := by
  refine ⟨rfl, ?_⟩
  change 0 = (e.code k).length
  rw [empty]
  rfl

namespace Emits

theorem code_cursor (h : e.Emits i e') : e'.code e.cursor = e.code e.cursor ++ [i] := by
  rw [h.code, if_pos rfl]

/-- The next step runs what is emitted next. -/
theorem step (h : e.Emits i e') (placed : e'.Placed blocks) (at_ : s.At e) :
    blocks.step oracle s = i.run oracle s := by
  obtain ⟨b, found, _⟩ := h.isOpen
  have found' := h.get?_eq_some.2 ⟨b, found, rfl⟩
  obtain ⟨b'', placed', rest, continued⟩ := placed e.cursor _ found'
  have here : b''.instructions[s.done]? = some i := by
    rw [← continued, at_.done, code_of_get? found]
    simp [appended]
  simp only [Blocks.step, at_.block, placed', here]

theorem at_next (h : e.Emits i e') (at_ : s.At e) (block : t.block = s.block)
    (done : t.done = s.done + 1) : t.At e' := by
  have cursor : e'.cursor = e.cursor := by rw [h.rest]
  refine ⟨by rw [block, at_.block, cursor], ?_⟩
  rw [done, at_.done, cursor, h.code_cursor, List.length_append]
  rfl

end Emits

end Emitter

end Rill.Lir
